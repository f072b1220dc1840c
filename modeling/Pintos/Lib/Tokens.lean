import Pintos.Lib.CString
import Pintos.Lib.Debug

/-!
# `strtok_r`

The tokenizer of `lib/string.c`, over the buffer that it changes.  A loop over the
calls sees the maximal runs of characters that are not delimiters, one after the
other.
-/

namespace Pintos.CString

open Foundation

def strchr : List Byte → Byte → Option Nat
  | [], c => if c = 0 then some 0 else none
  | b :: rest, c => if b = c then some 0 else (strchr rest c).map (· + 1)

/-- `strchr (delimiters, c) != NULL`. -/
def isDelimiter (delimiters : CString) (c : Byte) : Bool := (strchr delimiters.bytes c).isSome

def scanWhile (p : Byte → Bool) (m : Memory) : Nat → Nat → Option Nat
  | 0, _ => none
  | rounds + 1, s => if p (m s) then scanWhile p m rounds (s + 1) else some s

structure Strtok where
  token : Option Nat
  memory : Memory
  savePtr : Nat

section

variable (delimiters : CString)

/-- `strtok_r (s, delimiters, &save_ptr)`, and the call with a null pointer where `s` was saved. -/
def strtokRBy (m : Memory) (rounds s : Nat) : Option Strtok := do
  let token ← scanWhile (fun c => isDelimiter delimiters c && c != 0) m rounds s
  if m token = 0 then return ⟨none, m, token⟩
  else do
    let stop ← scanWhile (fun c => !isDelimiter delimiters c) m rounds token
    if m stop ≠ 0 then return ⟨some token, update m stop 0, stop + 1⟩
    else return ⟨some token, m, stop⟩

/-- `for (token = strtok_r (s, ..); token != NULL; token = strtok_r (NULL, ..))` with a body that
works on the string at `token`; the memory in the end and `save_ptr` are also returned. -/
def forTokensBy {σ : Type} (body : σ → CString → σ) (rounds : Nat) :
    Nat → Memory → Nat → σ → Option (σ × Memory × Nat)
  | 0, _, _, _ => none
  | calls + 1, m, s, state => do
    let r ← strtokRBy delimiters m rounds s
    match r.token with
    | none => return (state, r.memory, r.savePtr)
    | some token =>
      forTokensBy body rounds calls r.memory r.savePtr (body state (stringAt r.memory token rounds))

end

/-- The maximal substrings without delimiters that are not empty. -/
def pieces (delimiters bytes : List Byte) : List (List Byte) :=
  (bytes.splitOnP (· ∈ delimiters)).filter (· ≠ [])

/-! ## Strings in parts -/

section

variable {m : Memory} {a rounds : Nat} {bytes delimiters skipped word rest : List Byte} {b : Byte}

lemma pieces_skip (hskipped : ∀ b ∈ skipped, b ∈ delimiters) :
    pieces delimiters (skipped ++ rest) = pieces delimiters rest := by
  induction skipped with
  | nil => rfl
  | cons b skipped ih =>
    rw [List.forall_mem_cons] at hskipped
    rw [cons_append, ← ih hskipped.2, pieces, List.splitOnP_cons_eq_if_modifyHead,
      if_pos (by simpa using hskipped.1), List.filter_cons_of_neg (by simp)]
    rfl

lemma pieces_cons (hne : word ≠ []) (hword : ∀ b ∈ word, b ∉ delimiters) (hb : b ∈ delimiters) :
    pieces delimiters (word ++ b :: rest) = word :: pieces delimiters rest := by
  rw [pieces, List.splitOnP_append_cons_of_forall_mem (by simpa using hword) b (by simpa using hb),
    List.filter_cons_of_pos (by simpa using hne)]
  rfl

lemma pieces_word (hne : word ≠ []) (hword : ∀ b ∈ word, b ∉ delimiters) :
    pieces delimiters word = [word] := by
  rw [pieces, List.splitOnP_eq_singleton (by simpa using hword),
    List.filter_cons_of_pos (by simpa using hne), List.filter_nil]

lemma equalsAt_cons :
    equalsAt m (b :: rest) a = true ↔ m a = b ∧ equalsAt m rest (a + 1) = true := by
  by_cases h : b = m a
  · simp [equalsAt, h]
  · simp [equalsAt, h, Ne.symm h]

lemma equalsAt_terminated (h : equalsAt m (word ++ b :: rest) a = true) :
    m (a + word.length) = b ∧ equalsAt (update m (a + word.length) 0) word a = true ∧
      equalsAt (update m (a + word.length) 0) rest (a + word.length + 1) = true := by
  simp only [equalsAt_iff, length_append, length_cons] at h ⊢
  refine ⟨by simpa using h word.length (by omega), fun i hi => ?_, fun i hi => ?_⟩
  · rcases Nat.lt_or_eq_of_le hi with hlt | rfl
    · simp [update_of_ne (show a + i ≠ a + word.length by omega), h i (by omega),
        getElem?_append_left hlt]
    · simp
  · have hbyte := h (word.length + (i + 1)) (by omega)
    rw [update_of_ne (by omega), Nat.add_assoc, Nat.add_assoc, Nat.add_comm 1 i, hbyte]
    simp [getElem?_append_right]

/-- A loop stops at the first byte of a string that does not satisfy its condition. -/
lemma scanWhile_spec {p : Byte → Bool} (hp : p 0 = false) (h : equalsAt m bytes a = true)
    (hrounds : bytes.length < rounds) : ∃ front back, bytes = front ++ back ∧
      (∀ b ∈ front, p b = true) ∧ (∀ b ∈ back.head?, p b = false) ∧
      scanWhile p m rounds a = some (a + front.length) ∧
      equalsAt m back (a + front.length) = true := by
  induction bytes generalizing a rounds with
  | nil =>
    obtain ⟨rounds, rfl⟩ : ∃ r, rounds = r + 1 := ⟨rounds - 1, by omega⟩
    have hend : m a = 0 := by simpa [equalsAt] using h
    exact ⟨[], [], rfl, by simp, by simp, by simp [scanWhile, hend, hp], h⟩
  | cons b bytes ih =>
    obtain ⟨rounds, rfl⟩ : ∃ r, rounds = r + 1 := ⟨rounds - 1, by omega⟩
    obtain ⟨hb, hbytes⟩ := equalsAt_cons.mp h
    by_cases hpb : p b = true
    · obtain ⟨front, back, rfl, hfront, hback, hscan, hequals⟩ := ih hbytes (by simpa using hrounds)
      rw [Nat.add_assoc, Nat.add_comm 1] at hscan hequals
      exact ⟨b :: front, back, rfl, List.forall_mem_cons.mpr ⟨hpb, hfront⟩, hback,
        by rw [scanWhile, hb, if_pos hpb, hscan, length_cons], hequals⟩
    · exact ⟨[], b :: bytes, rfl, by simp, by simpa using hpb, by simp [scanWhile, hb, hpb], h⟩

end

/-! ## One call and all calls -/

section

variable {delimiters : CString} {m : Memory} {a rounds : Nat} {b : Byte} (s : CString)

lemma isDelimiter_iff : isDelimiter delimiters b = true ↔ b ∈ delimiters.bytes ∨ b = 0 := by
  rw [isDelimiter]
  induction delimiters.bytes with
  | nil => simp [strchr]
  | cons d ds ih =>
    by_cases hd : d = b
    · simp [strchr, hd]
    · simp [strchr, hd, ih, Ne.symm hd]

/-- The string `following` is at `next`, and up to there only delimiters have been overwritten. -/
structure Leaves (delimiters s : CString) (m : Memory) (a : Nat) (following : CString) (m' : Memory)
    (next : Nat) : Prop where
  string : following.sameAs m' next = true
  shorter : following.strlen < s.strlen
  first : a ≤ next
  last : next + following.strlen ≤ a + s.strlen
  memory : ∀ x, m' x = m x ∨ a ≤ x ∧ x < next ∧ m x ∈ delimiters.bytes ∧ m' x = 0

variable (delimiters)

/-- A call finds that there are no more tokens, or terminates the first one in the buffer and
leaves the others for the next call. -/
lemma strtokRBy_cases (h : s.sameAs m a = true) (hrounds : s.strlen < rounds) :
    ((∀ b ∈ s.bytes, b ∈ delimiters.bytes) ∧
        strtokRBy delimiters m rounds a = some ⟨none, m, a + s.strlen⟩) ∨
      ∃ (n : Nat) (word following : CString) (m' : Memory) (next : Nat),
        pieces delimiters.bytes s.bytes = word.bytes :: pieces delimiters.bytes following.bytes ∧
        (n = 0 ↔ ∃ b ∈ s.bytes.head?, b ∉ delimiters.bytes) ∧
        strtokRBy delimiters m rounds a = some ⟨some (a + n), m', next⟩ ∧
        word.sameAs m' (a + n) = true ∧ word.strlen ≤ s.strlen ∧
        Leaves delimiters s m a following m' next := by
  obtain ⟨skipped, back, hbytes, hskipped, hhead, hskip, hback⟩ := scanWhile_spec (m := m)
    (p := fun c => isDelimiter delimiters c && c != 0) (by simp) h hrounds
  simp only [Bool.and_eq_true, isDelimiter_iff, bne_iff_ne] at hskipped
  have hin : ∀ b ∈ skipped, b ∈ delimiters.bytes :=
    fun b hb => (hskipped b hb).1.resolve_right (hskipped b hb).2
  have hsize : s.strlen = skipped.length + back.length := by rw [strlen, hbytes, length_append]
  have hzero : ∀ b ∈ back, b ≠ 0 := fun b hb => s.nonzero b (by simp [hbytes, hb])
  rcases back with _ | ⟨b, back⟩
  · rw [append_nil] at hbytes
    have hend : m (a + skipped.length) = 0 := by simpa [equalsAt] using hback
    exact .inl ⟨hbytes ▸ hin, by simp [strtokRBy, hskip, hend, strlen, hbytes]⟩
  have hb := hzero b mem_cons_self
  have hout : b ∉ delimiters.bytes := fun hmem => by
    simp [isDelimiter_iff.mpr (.inl hmem), hb] at hhead
  have hfirst : m (a + skipped.length) ≠ 0 := (equalsAt_cons.mp hback).1 ▸ hb
  have hstart : skipped.length = 0 ↔ ∃ b ∈ s.bytes.head?, b ∉ delimiters.bytes := by
    rw [hbytes]
    cases skipped with
    | nil => simpa using hout
    | cons c skipped => simpa using hin c mem_cons_self
  right
  obtain ⟨word, rest, hparts, hword, hstop, hscan, hrest⟩ := scanWhile_spec (m := m)
    (p := fun c => !isDelimiter delimiters c) (by simp [isDelimiter_iff]) hback
    (show _ < rounds by omega)
  simp only [Bool.not_eq_false', isDelimiter_iff] at hstop
  have hfree : ∀ b ∈ word, b ∉ delimiters.bytes := fun b hb hmem => by
    simpa [isDelimiter_iff.mpr (.inl hmem)] using hword b hb
  rw [hparts] at hback hbytes hsize hzero
  have hne : word ≠ [] := by
    rintro rfl
    rw [List.nil_append] at hparts
    exact (hstop b (by simp [← hparts])).elim hout hb
  have hpos := List.length_pos_iff.mpr hne
  rcases rest with _ | ⟨d, rest⟩
  · rw [append_nil] at hback hbytes hzero
    have hend : m (a + skipped.length + word.length) = 0 := by simpa [equalsAt] using hrest
    refine ⟨skipped.length, ⟨word, hzero⟩, ⟨[], by simp⟩, m, a + skipped.length + word.length, ?_,
      hstart, by simp [strtokRBy, hskip, hfirst, hscan, hend], hback, ?_, hrest, ?_, by omega, ?_,
      fun _ => .inl rfl⟩
    · rw [hbytes, pieces_skip hin, pieces_word hne hfree]
      rfl
    all_goals
      simp only [strlen, length_append, List.length_nil] at hsize ⊢
      omega
  · have hd : d ∈ delimiters.bytes := (hstop d rfl).resolve_right (hzero d (by simp))
    obtain ⟨hend, hterminated, hfollowing⟩ := equalsAt_terminated hback
    have hnonzero := hzero d (by simp)
    rw [← hend] at hnonzero
    refine ⟨skipped.length, ⟨word, fun b hb => hzero b (by simp [hb])⟩,
      ⟨rest, fun b hb => hzero b (by simp [hb])⟩, update m (a + skipped.length + word.length) 0,
      a + skipped.length + word.length + 1, ?_, hstart,
      by simp [strtokRBy, hskip, hfirst, hscan, hnonzero], hterminated, ?_, hfollowing,
        ?_, by omega, ?_,
      fun x => ?_⟩
    · rw [hbytes, pieces_skip hin, pieces_cons hne hfree hd]
    · simp only [strlen, length_append, length_cons] at hsize ⊢
      omega
    · simp only [strlen, length_append, length_cons] at hsize ⊢
      omega
    · simp only [strlen, length_append, length_cons] at hsize ⊢
      omega
    · by_cases hx : x = a + skipped.length + word.length
      · rw [hx, update_self, hend]
        exact .inr ⟨by omega, by omega, hd, rfl⟩
      · exact .inl (update_of_ne hx _ _)

lemma forTokensBy_spec {σ : Type} (body : σ → CString → σ) (calls : Nat) (state : σ)
    (h : s.sameAs m a = true) (hrounds : s.strlen < rounds) (hcalls : s.strlen < calls) :
    ∃ (tokens : List CString) (m' : Memory) (savePtr : Nat),
      forTokensBy delimiters body rounds calls m a state =
        some (tokens.foldl body state, m', savePtr) ∧
      tokens.map (·.bytes) = pieces delimiters.bytes s.bytes ∧
      (∀ x, m' x = m x ∨ a ≤ x ∧ x < a + s.strlen ∧ m x ∈ delimiters.bytes ∧ m' x = 0) ∧
      strtokRBy delimiters m' rounds savePtr = some ⟨none, m', savePtr⟩ := by
  induction calls generalizing s m a state with
  | zero => omega
  | succ calls ih =>
    rcases strtokRBy_cases delimiters s h hrounds with ⟨hin, hcall⟩ |
      ⟨n, word, following, m', next, hpieces, -, hcall, hword, hle, hleaves⟩
    · have hend : m (a + s.strlen) = 0 := by simpa using (s.sameAs_iff m a).mp h _ le_rfl
      refine ⟨[], m, a + s.strlen, by simp [forTokensBy, hcall], ?_, fun _ => .inl rfl, ?_⟩
      · rw [← append_nil s.bytes, pieces_skip hin]
        rfl
      · have hempty : sameAs ⟨[], by simp⟩ m (a + s.strlen) = true := by
          simpa [sameAs, equalsAt] using hend
        rcases strtokRBy_cases delimiters _ hempty
          (show _ < rounds by simp only [strlen, length_nil]; omega) with
          ⟨-, hagain⟩ | ⟨_, _, _, _, _, hnone, -⟩
        · exact hagain
        · cases hnone
    · have hstring : stringAt m' (a + n) rounds = word := stringAt_eq word (by omega) hword
      have hshorter := hleaves.shorter
      obtain ⟨tokens, m'', savePtr, hloop, htokens, hmemory, hlast⟩ :=
        ih following (body state word) hleaves.string (by omega) (by omega)
      refine ⟨word :: tokens, m'', savePtr, by simp [forTokensBy, hcall, hstring, hloop],
        ?_, fun x => ?_,
        hlast⟩
      · rw [map_cons, htokens, hpieces]
      · have hfirst := hleaves.first
        have hend := hleaves.last
        rcases hmemory x with hx | ⟨hge, hlt, hin, hnull⟩
        · rcases hleaves.memory x with hsame | ⟨hge, hlt, hin, hnull⟩
          · exact .inl (hx.trans hsame)
          · exact .inr ⟨hge, by omega, hin, hx.trans hnull⟩
        · rcases hleaves.memory x with hsame | ⟨_, _, hold, _⟩
          · exact .inr ⟨by omega, by omega, hsame ▸ hin, hnull⟩
          · exact .inr ⟨by omega, by omega, hold, hnull⟩

end

/-- The calls return the maximal substrings without delimiters, and the next one a null pointer. -/
theorem strtokR_tokenises (delimiters string : CString) {m : Memory} {a rounds calls : Nat}
    (h : string.sameAs m a = true) (hrounds : string.strlen < rounds)
    (hcalls : string.strlen < calls) :
    ∃ (tokens : List CString) (m' : Memory) (savePtr : Nat),
      forTokensBy delimiters (fun returned token => returned ++ [token]) rounds calls m a [] =
        some (tokens, m', savePtr) ∧
      tokens.map (·.bytes) = pieces delimiters.bytes string.bytes ∧
      (∀ x, m' x = m x ∨
        a ≤ x ∧ x < a + string.strlen ∧ m x ∈ delimiters.bytes ∧ m' x = 0) ∧
      strtokRBy delimiters m' rounds savePtr = some ⟨none, m', savePtr⟩ := by
  obtain ⟨tokens, m', savePtr, hloop, hresult⟩ := forTokensBy_spec delimiters string
    (fun returned token => returned ++ [token]) calls [] h hrounds hcalls
  rw [List.foldl_append_eq_append, List.nil_append, ← List.flatMap_def,
    List.flatMap_singleton'] at hloop
  exact ⟨tokens, m', savePtr, hloop, hresult⟩

def spaced : CString := ⟨[97, 32, 98], by simp⟩

theorem strtokR_tokenises_spaced : ∃ (tokens : List CString) (m' : Memory) (savePtr : Nat),
    forTokensBy ⟨[32], by simp⟩ (fun returned token => returned ++ [token]) 4 4 spaced.image 0 [] =
        some (tokens, m', savePtr) ∧
      tokens.map (·.bytes) = pieces [32] [97, 32, 98] ∧
      (∀ x, m' x = spaced.image x ∨ 0 ≤ x ∧ x < 3 ∧ spaced.image x ∈ [32] ∧ m' x = 0) ∧
      strtokRBy ⟨[32], by simp⟩ m' 4 savePtr = some ⟨none, m', savePtr⟩ :=
  strtokR_tokenises _ spaced (by decide) (by decide) (by decide)

end Pintos.CString
