import Pintos.Lib.Strtok

/-!
# The copies of the command line

`process_execute` and `load` of `userprog/process.c` make copies of the command
line on the heap and free them again.  What matters here is which pointers they
pass to `free`, so the rest of their work appears as the outcomes of its steps.
`strtok_r` is called on the copies and may return a pointer into one.
-/

namespace Pintos.Userprog.CommandBuffers

open Foundation CString

/-! ## Allocation and release -/

inductive HeapEvent where
  | malloc (block : Nat)
  | free (block : Nat)
  deriving DecidableEq, Repr

/-- Every pointer that is freed was returned by `malloc` before and not freed since; `blocks` are
the outstanding ones. -/
def FreesOk : List Nat → List HeapEvent → Prop
  | _, [] => True
  | blocks, .malloc block :: events => FreesOk (block :: blocks) events
  | blocks, .free block :: events => block ∈ blocks ∧ FreesOk (blocks.erase block) events

instance decidableFreesOk : (blocks : List Nat) → (events : List HeapEvent) →
    Decidable (FreesOk blocks events)
  | _, [] => isTrue trivial
  | blocks, .malloc block :: events => decidableFreesOk (block :: blocks) events
  | blocks, .free block :: events =>
    @instDecidableAnd _ _ _ (decidableFreesOk (blocks.erase block) events)

/-! ## `process_execute` -/

structure ExecuteSteps where
  /-- `palloc_get_page` for `cmd_copy` succeeds. -/
  cmdCopy : Bool
  /-- What `malloc` returns for `cmdline_cp`. -/
  cmdlineCp : Option Nat
  /-- What the block held before. -/
  contents : Memory
  /-- `thread_create` gets a page. -/
  threadPage : Bool

/-- The calls of `malloc` and `free`, up to an assertion that fails or the end. -/
def processExecute (steps : ExecuteSteps) (cmdline : CString) : List HeapEvent :=
  let size := cmdline.strlen + 1
  if steps.cmdCopy = false then []
  else
    match steps.cmdlineCp with
    -- `ASSERT (dst != NULL)` of `strlcpy`
    | none => []
    | some block =>
      .malloc block ::
        match strtokR (strlcpy steps.contents block cmdline size) size block with
        | none => []
        | some fileName =>
          -- `thread_create` asserts that there is a name once it has a page
          if fileName.token = none ∧ steps.threadPage = true then []
          else [.free (fileName.token.getD 0)]

/-! ## `load` -/

inductive LoadOutcome where
  | noPagedir
  /-- An assertion fails or a fault ends the process before `done`. -/
  | stopped
  | missingFile
  | badHeader
  | badSegment
  | badStack
  | success
  deriving DecidableEq, Repr

structure LoadSteps where
  cmdlineCp : Option Nat
  cmdlineCp2 : Option Nat
  outcome : LoadOutcome

def load (steps : LoadSteps) : List HeapEvent :=
  match steps.cmdlineCp, steps.cmdlineCp2 with
  | none, _ => []
  | some block, none => [.malloc block]
  | some block, some block2 =>
    let done := [.free block, .free block2]
    .malloc block :: .malloc block2 ::
      match steps.outcome with
      | .stopped => []
      | .missingFile => .free block :: done
      | .noPagedir | .badHeader | .badSegment | .badStack | .success => done

/-! ## Which calls free the right pointers -/

structure Allocates (execute : ExecuteSteps) (steps : LoadSteps) : Prop where
  execute : ∀ block ∈ execute.cmdlineCp, block ≠ 0
  distinct : ∀ block ∈ steps.cmdlineCp, ∀ block2 ∈ steps.cmdlineCp2, block ≠ block2

def ExecuteSteps.Frees (steps : ExecuteSteps) (cmdline : CString) : Prop :=
  steps.cmdCopy = true ∧ steps.cmdlineCp.isSome = true ∧
    ¬(cmdline.tokens = [] ∧ steps.threadPage = true)

lemma processExecute_freesOk_iff {steps : ExecuteSteps}
    (hnull : ∀ block ∈ steps.cmdlineCp, block ≠ 0) (cmdline : CString) : FreesOk []
    (processExecute steps cmdline) ↔ (steps.Frees cmdline → ∃ b ∈ cmdline.bytes.head?, b ≠ 32) := by
  unfold processExecute ExecuteSteps.Frees
  cases hcopy : steps.cmdCopy with
  | false => simp [FreesOk]
  | true =>
    cases hblock : steps.cmdlineCp with
    | none => simp [FreesOk]
    | some block =>
      have hzero : block ≠ 0 := hnull block (by rw [hblock]; rfl)
      have hcopied : cmdline.sameAs
          (strlcpy steps.contents block cmdline (cmdline.strlen + 1)) block = true := by
        rw [sameAs_iff]
        intro i hi
        exact strlcpy_inside steps.contents cmdline (by omega) hi
      obtain ⟨r, hcall, hnone, hsame⟩ :=
        strtokR_first cmdline hcopied (Nat.lt_succ_self cmdline.strlen)
      simp only [Bool.true_eq_false, if_false, hcall, FreesOk, true_and, Option.isSome_some,
        ← hnone, ← hsame]
      -- the pointer that is freed is the block, or one into it, or null
      by_cases hstops : r.token = none ∧ steps.threadPage = true
      · simp [hstops, FreesOk]
      rw [if_neg hstops]
      cases htoken : r.token with
      | none =>
        have hpage : steps.threadPage = false := by simpa [htoken] using hstops
        simp [FreesOk, Ne.symm hzero, hpage]
      | some p => simp [FreesOk]

lemma load_freesOk_iff {steps : LoadSteps}
    (hdist : ∀ block ∈ steps.cmdlineCp, ∀ block2 ∈ steps.cmdlineCp2, block ≠ block2) :
    FreesOk [] (load steps) ↔ (steps.cmdlineCp.isSome = true → steps.cmdlineCp2.isSome = true →
        steps.outcome ≠ .missingFile) := by
  unfold load
  cases hblock : steps.cmdlineCp with
  | none => simp [FreesOk]
  | some block =>
    cases hblock2 : steps.cmdlineCp2 with
    | none => simp [FreesOk]
    | some block2 =>
      have hne : block ≠ block2 := hdist block (by rw [hblock]; rfl) block2 (by rw [hblock2]; rfl)
      cases steps.outcome <;> simp [FreesOk, hne, Ne.symm hne]

/-- Both functions free what they have allocated, once: the command line starts with a character of
the file name, and the file is there. -/
theorem frees_iff {execute : ExecuteSteps} {steps : LoadSteps} (h : Allocates execute steps)
    (cmdline : CString) : FreesOk [] (processExecute execute cmdline) ∧ FreesOk [] (load steps) ↔
      (execute.Frees cmdline → ∃ b ∈ cmdline.bytes.head?, b ≠ 32) ∧
        (steps.cmdlineCp.isSome = true → steps.cmdlineCp2.isSome = true →
          steps.outcome ≠ .missingFile) := by
  rw [processExecute_freesOk_iff h.execute, load_freesOk_iff h.distinct]

/-! ## Runs -/

def executeSteps : ExecuteSteps := ⟨true, some 0xC0200100, fun _ => 0, true⟩

def loadSteps (outcome : LoadOutcome) : LoadSteps := ⟨some 0xC0200100, some 0xC0200200, outcome⟩

lemma allocates (outcome : LoadOutcome) : Allocates executeSteps (loadSteps outcome) := by
  constructor
  · simp [executeSteps]
  · simp [loadSteps]

/-- The program `a`. -/
theorem frees_word : FreesOk [] (processExecute executeSteps ⟨[97], by simp⟩) ∧
    FreesOk [] (load (loadSteps .success)) :=
  (frees_iff (allocates .success) ⟨[97], by simp⟩).mpr ⟨fun _ => ⟨97, rfl, by decide⟩,
    by simp [loadSteps]⟩

/-- A leading space moves the pointer that `process_execute` frees; a missing file makes `load` free
a buffer twice. -/
theorem frees_wrong :
    processExecute executeSteps ⟨[32, 97], by simp⟩ = [.malloc 0xC0200100, .free 0xC0200101] ∧
      ¬ FreesOk [] (processExecute executeSteps ⟨[32, 97], by simp⟩) ∧
      load (loadSteps .missingFile) = [.malloc 0xC0200100, .malloc 0xC0200200, .free 0xC0200100,
        .free 0xC0200100, .free 0xC0200200] ∧ ¬ FreesOk [] (load (loadSteps .missingFile)) := by
  decide +kernel

end Pintos.Userprog.CommandBuffers
