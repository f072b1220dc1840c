import Pintos.Lib.Tokens

/-!
# Words of a command line

`strtok_r` with the space as only delimiter, where one comparison takes the place
of `strchr`.
-/

namespace Pintos.CString

open Foundation

def skipSpaces (m : Memory) : Nat → Nat → Option Nat
  | 0, _ => none
  | rounds + 1, s => if m s = 32 then skipSpaces m rounds (s + 1) else some s

def skipWord (m : Memory) : Nat → Nat → Option Nat
  | 0, _ => none
  | rounds + 1, s => if m s = 32 ∨ m s = 0 then some s else skipWord m rounds (s + 1)

/-- `strtok_r (s, " ", &save_ptr)`, and the call with a null pointer where `s` was saved. -/
def strtokR (m : Memory) (rounds s : Nat) : Option Strtok := do
  let token ← skipSpaces m rounds s
  if m token = 0 then return ⟨none, m, token⟩
  else do
    let stop ← skipWord m rounds token
    if m stop ≠ 0 then return ⟨some token, Function.update m stop 0, stop + 1⟩
    else return ⟨some token, m, stop⟩

/-- `for (token = strtok_r (s, ..); token != NULL; token = strtok_r (NULL, ..))` with a body that
works on the string at `token`. -/
def forTokens {σ : Type} (body : σ → CString → σ) (rounds : Nat) : Nat → Memory → Nat → σ → Option σ
  | 0, _, _, _ => none
  | calls + 1, m, s, state => do
    let r ← strtokR m rounds s
    match r.token with
    | none => return state
    | some token =>
      forTokens body rounds calls r.memory r.savePtr (body state (stringAt r.memory token rounds))

def runs (bytes : List Byte) : List (List Byte) := (bytes.splitOn 32).filter (· ≠ [])

/-! ## The delimiter -/

def space : CString := ⟨[32], by simp⟩

lemma runs_eq (bytes : List Byte) : runs bytes = pieces space.bytes bytes := by
  simp [runs, pieces, space, List.splitOn, beq_eq_decide]

section

variable {m : Memory} {a rounds : Nat} {b : Byte} (s : CString)

lemma isDelimiter_space : isDelimiter space b = true ↔ b = 32 ∨ b = 0 := by
  simp [isDelimiter_iff, space]

lemma skipSpaces_eq : skipSpaces m rounds a =
    scanWhile (fun c => isDelimiter space c && c != 0) m rounds a := by
  induction rounds generalizing a with
  | zero => rfl
  | succ rounds ih =>
    have hiff : (isDelimiter space (m a) && m a != 0) = true ↔ m a = 32 := by
      rw [Bool.and_eq_true, isDelimiter_space, bne_iff_ne]
      constructor
      · rintro ⟨hspace | hzero, hne⟩
        · exact hspace
        · exact absurd hzero hne
      · intro hspace
        exact ⟨.inl hspace, by rw [hspace]; decide⟩
    simp only [skipSpaces, scanWhile, hiff, ih]

lemma skipWord_eq : skipWord m rounds a = scanWhile (fun c => !isDelimiter space c) m rounds a := by
  induction rounds generalizing a with
  | zero => rfl
  | succ rounds ih =>
    by_cases hstop : isDelimiter space (m a) = true
    · rw [skipWord, if_pos (isDelimiter_space.mp hstop), scanWhile, if_neg (by simp [hstop])]
    · rw [skipWord, if_neg (hstop ∘ isDelimiter_space.mpr), scanWhile,
        if_pos (by simpa using hstop), ih]

lemma strtokR_eq : strtokR m rounds a = strtokRBy space m rounds a := by
  simp only [strtokR, strtokRBy, skipSpaces_eq, skipWord_eq]

lemma forTokens_eq_map {σ : Type} (body : σ → CString → σ) (calls : Nat) (state : σ) :
    forTokens body rounds calls m a state =
      (forTokensBy space body rounds calls m a state).map (·.1) := by
  induction calls generalizing m a state with
  | zero => rfl
  | succ calls ih =>
    rw [forTokens, forTokensBy, strtokR_eq]
    cases strtokRBy space m rounds a with
    | none => rfl
    | some r =>
      cases htoken : r.token with
      | none => simp [htoken]
      | some token => simp [htoken, ih]

/-! ## The tokens -/

lemma splitTokens_eq_runs (bytes current : List Byte) : splitTokens bytes current =
      ((bytes.splitOn 32).modifyHead (current.reverse ++ ·)).filter (· ≠ []) := by
  induction bytes generalizing current with
  | nil =>
    by_cases hcur : current = []
    · simp [splitTokens, hcur, List.splitOn]
    · simp [splitTokens, hcur, List.splitOn]
  | cons b bytes ih =>
    rw [splitTokens, List.splitOn, List.splitOnP_cons_eq_if_modifyHead]
    by_cases hb : b = 32
    · -- a space ends the token that has begun
      have hnext := ih []
      simp only [List.reverse_nil, List.nil_append] at hnext
      rw [show (List.modifyHead (fun x => x) (bytes.splitOn 32)) = bytes.splitOn 32 by
        cases bytes.splitOn 32 <;> rfl] at hnext
      by_cases hcur : current = []
      · simpa [hb, hcur, List.splitOn] using hnext
      · simpa [hb, hcur, List.splitOn] using hnext
    · have hnext := ih (b :: current)
      simp only [List.reverse_cons, List.append_assoc, List.cons_append, List.nil_append] at hnext
      rw [if_neg hb, hnext, if_neg (by simpa using hb), List.modifyHead_modifyHead]
      rfl

lemma tokens_eq_runs : s.tokens.map (·.bytes) = runs s.bytes := by
  have hbytes : s.tokens.map (·.bytes) = splitTokens s.bytes [] := by
    rw [tokens, List.map_map]
    exact List.attach_map_subtype_val _
  rw [hbytes, splitTokens_eq_runs, runs]
  congr 1
  cases s.bytes.splitOn 32 <;> rfl

lemma bytes_injective : Function.Injective CString.bytes := by
  rintro ⟨_, _⟩ ⟨_, _⟩ rfl
  rfl

lemma forTokens_eq {σ : Type} (body : σ → CString → σ) (calls : Nat) (state : σ)
    (h : s.sameAs m a = true) (hrounds : s.strlen < rounds) (hcalls : s.strlen < calls) :
    forTokens body rounds calls m a state = some (s.tokens.foldl body state) := by
  obtain ⟨tokens, m', savePtr, hloop, htokens, -⟩ :=
    forTokensBy_spec space s body calls state h hrounds hcalls
  rw [← runs_eq, ← tokens_eq_runs] at htokens
  rw [forTokens_eq_map, hloop, ← List.map_injective_iff.mpr bytes_injective htokens]
  rfl

/-- The first call returns the string itself if it does not start with a space, and a null pointer
if it has no token. -/
lemma strtokR_first (h : s.sameAs m a = true) (hrounds : s.strlen < rounds) :
    ∃ r, strtokR m rounds a = some r ∧ (r.token = none ↔ s.tokens = []) ∧
      (r.token = some a ↔ ∃ b ∈ s.bytes.head?, b ≠ 32) := by
  have hnil : s.tokens = [] ↔ pieces space.bytes s.bytes = [] := by
    rw [← runs_eq, ← tokens_eq_runs, List.map_eq_nil_iff]
  rw [strtokR_eq, hnil]
  rcases strtokRBy_cases space s h hrounds with ⟨hin, hcall⟩ |
    ⟨n, word, following, m', next, hpieces, hstart, hcall, -⟩
  · have hempty : pieces space.bytes s.bytes = [] := by
      rw [← append_nil s.bytes, pieces_skip hin]
      rfl
    refine ⟨_, hcall, by simp [hempty], ?_⟩
    simp only [reduceCtorEq, false_iff, not_exists, not_and, not_not]
    intro b hb
    simpa [space] using hin b (List.mem_of_mem_head? hb)
  · refine ⟨_, hcall, by simp [hpieces], ?_⟩
    simp only [space, mem_singleton] at hstart
    rw [← hstart]
    simp

end

end Pintos.CString
