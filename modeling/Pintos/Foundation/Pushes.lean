import Pintos.Foundation.Memory

/-!
# Blocks pushed on a descending stack

A push moves a pointer down by the size of a block and stores the block there.
The stores are kept in order, so that where they go can be told apart from what
memory does with them.  Memory is partial: a reader gives the byte at an address
if there is one.
-/

namespace Pintos.Foundation

def Reads (read : Nat → Option Byte) (a : Nat) (bytes : List Byte) : Prop :=
  ∀ i < bytes.length, read (a + i) = bytes[i]?

def wordAt (read : Nat → Option Byte) (a : Nat) : Option Nat := do
  let b0 ← read a
  let b1 ← read (a + 1)
  let b2 ← read (a + 2)
  let b3 ← read (a + 3)
  return b0.toNat + 256 * b1.toNat + 65536 * b2.toNat + 16777216 * b3.toNat

def placed : Nat → List Byte → List (Nat × Byte)
  | _, [] => []
  | a, byte :: rest => (a, byte) :: placed (a + 1) rest

def applied (read : Nat → Option Byte) (stores : List (Nat × Byte)) : Nat → Option Byte :=
  stores.foldl (fun read store => Function.update read store.1 (some store.2)) read

structure Pushes where
  pointer : Nat
  stores : List (Nat × Byte)

namespace Pushes

def push (s : Pushes) (block : List Byte) : Pushes where
  pointer := s.pointer - block.length
  stores := s.stores ++ placed (s.pointer - block.length) block

def pushAll (s : Pushes) (blocks : List (List Byte)) : Pushes := blocks.foldl push s

end Pushes

section

variable {read : Nat → Option Byte} {a : Nat} {bytes rest block : List Byte}

lemma reads_append : Reads read a (bytes ++ rest) ↔
    Reads read a bytes ∧ Reads read (a + bytes.length) rest := by
  constructor
  · intro h
    refine ⟨fun i hi => ?_, fun i hi => ?_⟩
    · rw [h i (by rw [List.length_append]; omega), List.getElem?_append_left hi]
    rw [Nat.add_assoc, h (bytes.length + i) (by rw [List.length_append]; omega),
      List.getElem?_append_right (by omega), Nat.add_sub_cancel_left]
  · rintro ⟨hbytes, hrest⟩ i hi
    rw [List.length_append] at hi
    by_cases hlt : i < bytes.length
    · rw [List.getElem?_append_left hlt, hbytes i hlt]
    have := hrest (i - bytes.length) (by omega)
    rw [List.getElem?_append_right (by omega), ← this]
    congr 1
    omega

lemma wordAt_of_reads {value : Nat} (hval : value < 2 ^ 32)
    (h : Reads read a ((List.range 4).map (wordByte value))) : wordAt read a = some value := by
  have hbyte : ∀ k < 4, read (a + k) = some (wordByte value k) := by
    intro k hk
    rw [h k (by simpa using hk)]
    simp [hk]
  have h0 := hbyte 0 (by omega)
  rw [Nat.add_zero] at h0
  simp only [wordAt, h0, hbyte 1 (by omega), hbyte 2 (by omega), hbyte 3 (by omega),
    wordByte_toNat, bind, Option.bind, pure]
  congr 1
  omega

lemma applied_append (stores more : List (Nat × Byte)) :
    applied read (stores ++ more) = applied (applied read stores) more := List.foldl_append

lemma applied_placed (bytes : List Byte) (read : Nat → Option Byte) (a i : Nat) :
    applied read (placed a bytes) i =
      if a ≤ i ∧ i < a + bytes.length then bytes[i - a]? else read i := by
  induction bytes generalizing a read with
  | nil =>
    rw [if_neg (by simp only [List.length_nil]; omega)]
    rfl
  | cons byte bytes ih =>
    change applied (Function.update read a (some byte)) (placed (a + 1) bytes) i = _
    rw [ih, List.length_cons]
    by_cases hi : i = a
    · subst hi
      rw [if_neg (by omega), if_pos (by omega), Function.update_self, Nat.sub_self]
      rfl
    rw [Function.update_of_ne hi]
    by_cases hin : a + 1 ≤ i ∧ i < a + 1 + bytes.length
    · rw [if_pos hin, if_pos (by omega), show i - a = i - (a + 1) + 1 by omega,
        List.getElem?_cons_succ]
    · rw [if_neg hin, if_neg (by omega)]

lemma mem_placed {bytes : List Byte} {a i : Nat} :
    (∃ byte, (i, byte) ∈ placed a bytes) ↔ a ≤ i ∧ i < a + bytes.length := by
  induction bytes generalizing a with
  | nil =>
    simp only [placed, List.not_mem_nil, exists_false, List.length_nil, false_iff]
    omega
  | cons byte bytes ih =>
    simp only [placed, List.mem_cons, Prod.mk.injEq, exists_or, ih, List.length_cons]
    constructor
    · rintro (⟨_, rfl, -⟩ | h)
      · omega
      · omega
    · intro h
      by_cases hi : i = a
      · exact .inl ⟨byte, hi, rfl⟩
      · exact .inr (by omega)

namespace Pushes

variable {blocks : List (List Byte)}

section

variable (s : Pushes)

include s

lemma pushAll_cons : s.pushAll (block :: blocks) = (s.push block).pushAll blocks := rfl

lemma pushAll_append (more : List (List Byte)) :
    s.pushAll (blocks ++ more) = (s.pushAll blocks).pushAll more := List.foldl_append

@[simp] lemma push_nil : s.push [] = s := by simp [push, placed]

lemma pushAll_pointer (blocks : List (List Byte)) :
    (s.pushAll blocks).pointer = s.pointer - blocks.flatten.length := by
  induction blocks generalizing s with
  | nil => rfl
  | cons block blocks ih =>
    rw [pushAll_cons, ih, push, List.flatten_cons, List.length_append, Nat.sub_sub]

lemma pushAll_stores (blocks : List (List Byte)) :
    (s.pushAll blocks).stores = s.stores ++ ((⟨s.pointer, []⟩ : Pushes).pushAll blocks).stores := by
  induction blocks generalizing s with
  | nil => simp [pushAll]
  | cons block blocks ih =>
    rw [pushAll_cons, pushAll_cons, ih (s.push block), ih (push ⟨s.pointer, []⟩ block)]
    simp [push]

end

lemma mem_pushAll {blocks : List (List Byte)} {s : Pushes} {i : Nat}
    (hroom : blocks.flatten.length ≤ s.pointer) : (∃ byte, (i, byte) ∈ (s.pushAll blocks).stores) ↔
      (∃ byte, (i, byte) ∈ s.stores) ∨ s.pointer - blocks.flatten.length ≤ i ∧ i < s.pointer := by
  induction blocks generalizing s with
  | nil =>
    simp only [pushAll, List.foldl_nil, List.flatten_nil, List.length_nil,
      Nat.sub_zero, iff_self_or]
    omega
  | cons block blocks ih =>
    rw [List.flatten_cons, List.length_append] at hroom ⊢
    rw [pushAll_cons, ih (by simp only [push]; omega)]
    simp only [push, List.mem_append, exists_or, mem_placed]
    constructor
    · rintro ((h | h) | h)
      · exact .inl h
      · exact .inr (by omega)
      · exact .inr (by omega)
    · rintro (h | h)
      · exact .inl (.inl h)
      by_cases hi : s.pointer - block.length ≤ i
      · exact .inl (.inr (by omega))
      · exact .inr (by omega)

lemma reads_pushAll (read : Nat → Option Byte) (blocks : List (List Byte)) {s : Pushes}
    (hroom : blocks.flatten.length ≤ s.pointer) :
    Reads (applied read (s.pushAll blocks).stores) (s.pointer - blocks.flatten.length)
        blocks.reverse.flatten ∧ ∀ i, i < s.pointer - blocks.flatten.length ∨ s.pointer ≤ i →
        applied read (s.pushAll blocks).stores i = applied read s.stores i := by
  induction blocks generalizing s with
  | nil => exact ⟨fun i hi => absurd hi (Nat.not_lt_zero i), fun _ _ => rfl⟩
  | cons block blocks ih =>
    rw [List.flatten_cons, List.length_append] at hroom ⊢
    have hpointer : (s.push block).pointer = s.pointer - block.length := rfl
    obtain ⟨hreads, hkeep⟩ := ih (s := s.push block) (by rw [hpointer]; omega)
    have hlen : blocks.reverse.flatten.length = blocks.flatten.length := by
      simp only [List.length_flatten, List.map_reverse, List.sum_reverse]
    have hstored : ∀ i, applied read (s.push block).stores i =
        if s.pointer - block.length ≤ i ∧ i < s.pointer - block.length + block.length then
          block[i - (s.pointer - block.length)]?
        else applied read s.stores i := by
      intro i
      rw [push, applied_append, applied_placed]
    rw [hpointer] at hreads hkeep
    rw [pushAll_cons, ← Nat.sub_sub, List.reverse_cons, List.flatten_append]
    refine ⟨reads_append.mpr ⟨hreads, fun i hi => ?_⟩, fun i hi => ?_⟩
    · -- the block just pushed is not touched by the later ones
      simp only [List.flatten_cons, List.flatten_nil, List.append_nil] at hi ⊢
      rw [hlen, hkeep _ (by omega), hstored, if_pos (by omega)]
      congr 1
      omega
    · rw [hkeep i (by omega), hstored, if_neg (by omega)]

end Pushes

end

end Pintos.Foundation
