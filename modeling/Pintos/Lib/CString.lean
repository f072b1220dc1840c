import Mathlib.Data.List.TakeWhile
import Pintos.Foundation.Memory

/-!
# Null-terminated strings

A `CString` is the contents of a string without its terminator, so no byte of it
is null.  The functions below are those of `lib/string.c` that compare such a
string with, or store it in, a buffer.
-/

namespace Pintos

open Foundation

variable {a i size : Nat} {m : Memory}

structure CString where
  bytes : List Byte
  nonzero : ∀ b ∈ bytes, b ≠ 0
  deriving DecidableEq

namespace CString

def strlen (s : CString) : Nat := s.bytes.length

/-- The loop of `strcmp` against the string at `a`; true if the result is zero. -/
def equalsAt (m : Memory) : List Byte → Nat → Bool
  | [], a => m a = 0
  | b :: rest, a => if b = m a then equalsAt m rest (a + 1) else false

/-- `!strcmp (s, m + a)`. -/
def sameAs (s : CString) (m : Memory) (a : Nat) : Bool := equalsAt m s.bytes a

def stringAt (m : Memory) (a limit : Nat) : CString :=
  ⟨((List.range limit).map fun i => m (a + i)).takeWhile (· ≠ 0), fun b hb => by
    simpa using List.mem_takeWhile_imp hb⟩

def image (s : CString) : Memory := fun i => s.bytes.getD i 0

/-- `strlcpy (m + a, s, size)`. -/
def strlcpy (m : Memory) (a : Nat) (s : CString) (size : Nat) : Memory :=
  if size > 0 then
    let len := if s.strlen < size - 1 then s.strlen else size - 1
    fill (copy m a s.image 0 len) (a + len) 0 1
  else m

/-- The tokens of a string that are separated by spaces; `current` holds the bytes of the token that
has begun, the last one first. -/
def splitTokens : List Byte → List Byte → List (List Byte)
  | [], current => if current = [] then [] else [current.reverse]
  | b :: rest, current =>
    if b = 32 then
      if current = [] then splitTokens rest [] else current.reverse :: splitTokens rest []
    else splitTokens rest (b :: current)

lemma mem_splitTokens {bytes current token : List Byte} {b : Byte}
    (htoken : token ∈ splitTokens bytes current) (hb : b ∈ token) : b ∈ bytes ∨ b ∈ current := by
  induction bytes generalizing current with
  | nil =>
    unfold splitTokens at htoken
    split at htoken
    · simp at htoken
    obtain rfl := List.mem_singleton.mp htoken
    exact .inr (List.mem_reverse.mp hb)
  | cons c rest ih =>
    unfold splitTokens at htoken
    split at htoken
    · split at htoken
      · exact (ih htoken).elim (.inl ∘ List.mem_cons_of_mem c) (by simp)
      rcases List.mem_cons.mp htoken with rfl | htoken
      · exact .inr (List.mem_reverse.mp hb)
      · exact (ih htoken).elim (.inl ∘ List.mem_cons_of_mem c) (by simp)
    rcases ih htoken with hrest | hcur
    · exact .inl (List.mem_cons_of_mem c hrest)
    rcases List.mem_cons.mp hcur with rfl | hcur
    · exact .inl List.mem_cons_self
    · exact .inr hcur

/-- What the calls of `strtok_r (s, " ", &save_ptr)` return one after the other. -/
def tokens (s : CString) : List CString :=
  (splitTokens s.bytes []).attach.map fun token => ⟨token.1, fun b hb =>
    s.nonzero b ((mem_splitTokens token.2 hb).resolve_right List.not_mem_nil)⟩

variable (s : CString)

lemma image_of_lt (h : i < s.strlen) : s.image i ≠ 0 := by
  have hget : s.image i = s.bytes[i] := by simp [image, List.getElem?_eq_getElem h]
  rw [hget]
  exact s.nonzero _ (List.getElem_mem h)

lemma image_of_ge (h : s.strlen ≤ i) : s.image i = 0 := by
  have hbytes : s.bytes.length ≤ i := h
  simp [image, hbytes]

@[simp] lemma image_strlen : s.image s.strlen = 0 := by simp [image, strlen]

lemma equalsAt_iff (m : Memory) (bytes : List Byte) (a : Nat) :
    equalsAt m bytes a = true ↔ ∀ i ≤ bytes.length, m (a + i) = bytes.getD i 0 := by
  induction bytes generalizing a with
  | nil => simp [equalsAt]
  | cons b rest ih =>
    simp only [equalsAt, List.length_cons]
    constructor
    · intro h i hi
      split at h
      · rename_i hb
        cases i with
        | zero => simpa using hb.symm
        | succ i =>
          have := (ih (a + 1)).mp h i (by omega)
          simpa [Nat.add_assoc, Nat.add_comm 1 i] using this
      · contradiction
    · intro h
      have hb : b = m a := by simpa using (h 0 (by omega)).symm
      rw [if_pos hb]
      refine (ih (a + 1)).mpr fun i hi => ?_
      have := h (i + 1) (by omega)
      simpa [Nat.add_assoc, Nat.add_comm 1 i] using this

lemma sameAs_iff (m : Memory) (a : Nat) :
    s.sameAs m a = true ↔ ∀ i ≤ s.strlen, m (a + i) = s.image i :=
  equalsAt_iff m s.bytes a

lemma sameAs_congr {m' : Memory} {a' : Nat}
    (h : ∀ i ≤ s.strlen, m (a + i) = m' (a' + i)) : s.sameAs m a = s.sameAs m' a' := by
  rw [Bool.eq_iff_iff, sameAs_iff, sameAs_iff]
  constructor
  · intro hs i hi
    rw [← h i hi, hs i hi]
  · intro hs i hi
    rw [h i hi, hs i hi]

lemma eq_of_sameAs {s s' : CString}
    (h : s.sameAs m a = true) (h' : s'.sameAs m a = true) : s = s' := by
  rw [sameAs_iff] at h h'
  have hlen : s.strlen = s'.strlen := by
    rcases Nat.lt_trichotomy s.strlen s'.strlen with hlt | heq | hgt
    · have hz := h s.strlen (le_refl _)
      rw [h' s.strlen hlt.le, image_strlen] at hz
      exact absurd hz (s'.image_of_lt hlt)
    · exact heq
    have hz := h' s'.strlen (le_refl _)
    rw [h s'.strlen hgt.le, image_strlen] at hz
    exact absurd hz (s.image_of_lt hgt)
  have hbytes : s.bytes = s'.bytes := by
    apply List.ext_getElem hlen
    intro i hi hi'
    have him : s.image i = s'.image i := by rw [← h i (Nat.le_of_lt hi), h' i (Nat.le_of_lt hi')]
    simpa [image, List.getElem?_eq_getElem hi, List.getElem?_eq_getElem hi'] using him
  cases s
  cases s'
  simpa using hbytes

lemma stringAt_eq {limit : Nat} (hlimit : s.strlen ≤ limit)
    (h : s.sameAs m a = true) : stringAt m a limit = s := by
  rw [sameAs_iff] at h
  obtain ⟨rest, rfl⟩ : ∃ rest, limit = s.strlen + rest := ⟨limit - s.strlen, by omega⟩
  have hbytes : ((List.range s.strlen).map fun i => m (a + i)) = s.bytes := by
    apply List.ext_getElem
    · simp [strlen]
    intro i _ hi
    rw [List.getElem_map, List.getElem_range, h i (Nat.le_of_lt hi), image]
    simp [hi]
  -- what follows the terminator is not looked at
  have hwhile : ((List.range (s.strlen + rest)).map fun i => m (a + i)).takeWhile (· ≠ 0) =
      s.bytes := by
    rw [List.range_add, List.map_append, hbytes,
      List.takeWhile_append_of_pos (fun b hb => by simpa using s.nonzero b hb)]
    cases rest with
    | zero => simp
    | succ rest => simp [List.range_succ_eq_map, h s.strlen le_rfl]
  obtain ⟨_, _⟩ := s
  simp only [stringAt, hwhile]

lemma strlcpy_inside (m : Memory) (s : CString) (hsize : s.strlen < size) (hi : i ≤ s.strlen) :
    strlcpy m a s size (a + i) = s.image i := by
  have hlen : (if s.strlen < size - 1 then s.strlen else size - 1) = s.strlen := by split <;> omega
  have hpos : size > 0 := by omega
  simp only [strlcpy, hpos, if_true, hlen]
  by_cases heq : i = s.strlen
  · subst heq
    simp [fill]
  have hout : ¬ (a + s.strlen ≤ a + i ∧ a + i < a + s.strlen + 1) := by omega
  rw [fill, if_neg hout, copy_inside _ _ _ (by omega) (by omega)]
  congr 1
  omega

lemma strlcpy_untouched (m : Memory) (s : CString)
    (hsize : s.strlen < size) (hi : i < a ∨ a + s.strlen < i) : strlcpy m a s size i = m i := by
  have hlen : (if s.strlen < size - 1 then s.strlen else size - 1) = s.strlen := by split <;> omega
  have hpos : size > 0 := by omega
  have hout : ¬ (a + s.strlen ≤ i ∧ i < a + s.strlen + 1) := by omega
  simp only [strlcpy, hpos, if_true, hlen]
  rw [fill, if_neg hout, copy_outside _ _ _ (by omega)]

lemma strlcpy_outside (m : Memory) (s : CString)
    (hsize : s.strlen < size) (hi : i < a ∨ a + size ≤ i) : strlcpy m a s size i = m i :=
  strlcpy_untouched m s hsize (by omega)

lemma splitTokens_size (bytes current : List Byte) :
    ((splitTokens bytes current).map fun token => token.length + 1).sum ≤
      bytes.length + current.length + 1 := by
  induction bytes generalizing current with
  | nil =>
    unfold splitTokens
    split <;> simp
  | cons b rest ih =>
    unfold splitTokens
    split
    · split
      · have := ih []
        simp only [List.length_cons, List.length_nil] at this ⊢
        omega
      have := ih []
      simp only [List.map_cons, List.sum_cons, List.length_cons, List.length_reverse,
        List.length_nil] at this ⊢
      omega
    · have := ih (b :: current)
      simp only [List.length_cons] at this ⊢
      omega

lemma tokens_size : (s.tokens.map fun token => token.bytes.length + 1).sum ≤ s.strlen + 1 := by
  have hmap : (s.tokens.map fun token => token.bytes.length + 1) =
      (splitTokens s.bytes []).map fun token => token.length + 1 := by
    rw [tokens, List.map_map]
    exact @List.attach_map_val _ _ (splitTokens s.bytes []) fun token => token.length + 1
  rw [hmap]
  simpa [strlen] using splitTokens_size s.bytes []

end CString

end Pintos
