import Pintos.Vm.FrameSafety

/-!
# The page fault handler

`page_fault` and `kill` of `userprog/exception.c`.  The handler may load the
page or grow the stack, but whatever it does it ends in `exit` or in `kill`.
Where the search for a frame meets the frame of a thread that is gone, the
handler is entered again, for a fault of the kernel on page 0.
-/

namespace Pintos.Userprog

open Foundation Filesys Vm

inductive Segment where
  | user
  | kernel
  | other
  deriving DecidableEq, Repr

/-- The fault address, the error code and the interrupted context.  A fault in the kernel leaves
no meaningful `esp` in the frame; `nestedEsp` is what one inside the handler finds there. -/
structure PageFault where
  faultAddr : Nat
  notPresent : Bool
  esp : Nat
  cs : Segment
  nestedEsp : Nat
  deriving DecidableEq, Repr

/-- How the handler leaves the process.  A killed process has no exit status, for which
`process_wait` returns -1. -/
inductive Ending where
  | returns
  | exits (status : Int)
  | killed
  deriving DecidableEq, Repr

def Ending.Terminates (ending : Ending) : Prop := ending = .exits (-1) ∨ ending = .killed

instance (ending : Ending) : Decidable ending.Terminates := inferInstanceAs (Decidable (_ ∨ _))

def kill : Segment → KernelAction Ending
  | .user | .other => return .killed
  | .kernel => stop (.panic "Kernel bug - unexpected interrupt in kernel")

def stackSize : Nat := 8 * 2 ^ 20

/-- `f->esp - 32`, in pointer arithmetic. -/
def pushaLimit (esp : Nat) : Nat := if 32 ≤ esp then esp - 32 else 2 ^ 32 - (32 - esp)

/-- The difference of the two pointers is a signed word: it is negative for the pages up to
`0x40000000`. -/
def growsStack (esp faultAddr : Nat) : Prop :=
  pushaLimit esp ≤ faultAddr ∧ ((physBase : Int) - pgRoundDown faultAddr).bmod (2 ^ 32) ≤ stackSize

instance (esp faultAddr : Nat) : Decidable (growsStack esp faultAddr) :=
  inferInstanceAs (Decidable (_ ∧ _))

/-- The offset of `pagedir` in `struct thread`. -/
def pagedirOffset : Nat := 188

/-- The handler for `temp_thread->pagedir` with a null `temp_thread`; it does not return.  The
faulting thread holds `frame_table_lock`, which `load_page` and `grow_stack` acquire. -/
def nestedFault (nestedEsp : Nat) : KernelAction Unit := do
  match ← getSpe 0 with
  | some spe => require (spe.loaded = true) (.assertion "!lock_held_by_current_thread (lock)")
  | none =>
    require (¬ growsStack nestedEsp pagedirOffset)
      (.assertion "!lock_held_by_current_thread (lock)")
  -- with page 0 mapped there is no fault
  require ((← pagedirGetPage pagedirOffset) = none) .wildAccess

/-- The handler goes on to `kill` after `x`, and ends in `exit` where `x` is interrupted. -/
def attempt {α : Type} (nestedEsp : Nat) (x : KernelAction α) : KernelAction Bool := fun k =>
  match x k with
  | .ok (_, t) => .ok (true, t)
  | .error .nullAccess => (do nestedFault nestedEsp; return false : KernelAction Bool) k
  | .error fault => .error fault

/-- The part of the handler that tries to bring in the page; it tells whether to go on to `kill`
or to `exit`. -/
def bringIn (f : PageFault) : KernelAction Bool := do
  match ← getSpe (pgNo f.faultAddr) with
  | some spe =>
    if spe.loaded then return (← pagedirGetPage f.faultAddr).isSome
    else attempt f.nestedEsp (loadPage (pgNo f.faultAddr) spe)
  | none =>
    if growsStack f.esp f.faultAddr then attempt f.nestedEsp (growStack f.faultAddr)
    else return (← pagedirGetPage f.faultAddr).isSome

def pageFault (f : PageFault) : KernelAction Ending := do
  if f.notPresent = false ∨ f.faultAddr = 0 ∨ physBase ≤ f.faultAddr then return .exits (-1)
  else if ← bringIn f then kill f.cs
  else return .exits (-1)

/-! ## Faults that can be resolved -/

/-- The page has an entry that is not loaded and can be, or it belongs to the stack and can be
added to it. -/
def Resolvable (k : Kernel) (process : Process) (f : PageFault) : Prop :=
  match process.supplPageTable (pgNo f.faultAddr) with
  | some spe => spe.loaded = false ∧
      wp (loadPage (pgNo f.faultAddr) spe) (fun loaded _ => loaded = true) k
  | none => (f.esp : Int) - 32 ≤ f.faultAddr ∧ physBase ≤ f.faultAddr + stackSize ∧
      wp (growStack f.faultAddr) (fun _ t => maps t (pgNo f.faultAddr) = true) k

instance (k : Kernel) (process : Process) (f : PageFault) : Decidable (Resolvable k process f) := by
  unfold Resolvable
  split <;> infer_instance

def Handles (k : Kernel) (process : Process) (f : PageFault) : Prop :=
  if Resolvable k process f then
    wp (pageFault f) (fun ending t => ending = .returns ∧ maps t (pgNo f.faultAddr) = true) k
  else wp (pageFault f) (fun ending _ => ending.Terminates) k

instance (k : Kernel) (process : Process) (f : PageFault) : Decidable (Handles k process f) := by
  unfold Handles
  infer_instance

/-- The attempt `x` comes back and the fault was not in the kernel, or it meets a thread that is
gone and the process exits. -/
def EndsWell {α : Type} (k : Kernel) (f : PageFault) (x : KernelAction α) : Prop :=
  f.cs ≠ .kernel ∧ wp x (fun _ _ => True) k ∨
    x k = .error .nullAccess ∧ wp (nestedFault f.nestedEsp) (fun _ _ => True) k

/-- The handler makes no attempt to bring in the page, or one that ends well. -/
def FailsCleanly (k : Kernel) (process : Process) (f : PageFault) : Prop :=
  match process.supplPageTable (pgNo f.faultAddr) with
  | some spe => spe.loaded = true ∨ EndsWell k f (loadPage (pgNo f.faultAddr) spe)
  | none => ¬ growsStack f.esp f.faultAddr ∨ EndsWell k f (growStack f.faultAddr)

/-- The current thread is a process, and the fault is at a user page that is not present. -/
structure NotPresent (k : Kernel) (process : Process) (pd : PageTable) (f : PageFault) : Prop where
  current : findAt Process.tid k.allList k.current = some process
  pagedir : process.pagedir = some pd
  notPresent : f.notPresent = true
  user : f.faultAddr < physBase
  unmapped : pd.lookup (pgNo f.faultAddr) = none

section

variable {k : Kernel} {process : Process} {pd : PageTable} {f : PageFault}

lemma wp_kill (cs : Segment) (Q : Ending → Kernel → Prop) :
    wp (kill cs) Q k ↔ cs ≠ .kernel ∧ Q .killed k := by
  cases cs <;> simp [kill]

lemma wp_attempt {α : Type} (esp : Nat) (x : KernelAction α) (Q : Bool → Kernel → Prop) :
    wp (attempt esp x) Q k ↔ wp x (fun _ t => Q true t) k ∨
      x k = .error .nullAccess ∧ wp (nestedFault esp) (fun _ t => Q false t) k := by
  rw [wp, wp, attempt]
  cases hx : x k with
  | ok r => simp
  | error fault =>
    cases fault with
    | nullAccess =>
      simp only [false_or, true_and]
      exact wp_bind (nestedFault esp) (fun _ => pure false) Q k
    | _ => simp

lemma wp_bringIn (h : NotPresent k process pd f) (Q : Bool → Kernel → Prop) : wp (bringIn f) Q k ↔
      match process.supplPageTable (pgNo f.faultAddr) with
      | some spe => if spe.loaded then Q false k
          else wp (attempt f.nestedEsp (loadPage (pgNo f.faultAddr) spe)) Q k
      | none => if growsStack f.esp f.faultAddr then
            wp (attempt f.nestedEsp (growStack f.faultAddr)) Q k
          else Q false k := by
  have hlook : pd.toPagedir (pgNo f.faultAddr) = none := by simp [PageTable.toPagedir, h.unmapped]
  rw [bringIn, wp_bind, wp_getSpe h.current]
  cases process.supplPageTable (pgNo f.faultAddr) with
  | some spe =>
    cases hloaded : spe.loaded <;>
      simp [wp_pagedirGetPage h.current h.pagedir h.user, hlook]
  | none =>
    by_cases hgrows : growsStack f.esp f.faultAddr <;>
      simp [hgrows, wp_pagedirGetPage h.current h.pagedir h.user, hlook]

lemma pageFault_outcome (k : Kernel) (f : PageFault) :
    outcome (pageFault f) (fun ending _ => ending ≠ .returns) (fun _ => True) k := by
  rw [pageFault]
  split
  · simp
  rw [outcome_bind]
  refine outcome_mono (outcome_of_stops _ k trivial) ?_ fun _ => id
  intro falls t _
  cases falls with
  | false => simp
  | true => cases hcs : f.cs <;> simp [kill]

lemma wp_pageFault (h : NotPresent k process pd f) : wp (pageFault f)
    (fun ending _ => ending.Terminates) k ↔ f.faultAddr = 0 ∨ FailsCleanly k process f := by
  by_cases hnull : f.faultAddr = 0
  · simp [pageFault, hnull, Ending.Terminates]
  have hguard : ¬ (f.notPresent = false ∨ f.faultAddr = 0 ∨ physBase ≤ f.faultAddr) := by
    have := h.user
    simp [h.notPresent, hnull]
    omega
  rw [pageFault, if_neg hguard, wp_bind, wp_bringIn h]
  have hattempt {α : Type} (x : KernelAction α) : wp (attempt f.nestedEsp x) (fun falls t =>
      wp (if falls then kill f.cs else return .exits (-1))
        (fun ending _ => ending.Terminates) t) k ↔
        EndsWell k f x := by
    simp only [wp_attempt, wp_kill, Ending.Terminates, EndsWell, wp_ite, wp_pure]
    rw [← Action.wp_const]
    simp
  simp only [hnull, false_or, FailsCleanly]
  cases process.supplPageTable (pgNo f.faultAddr) with
  | some spe =>
    cases hloaded : spe.loaded with
    | true => simp [hloaded, Ending.Terminates]
    | false => simpa [hloaded] using hattempt (loadPage (pgNo f.faultAddr) spe)
  | none =>
    by_cases hgrows : growsStack f.esp f.faultAddr
    · simpa [hgrows] using hattempt (growStack f.faultAddr)
    · simp [hgrows, Ending.Terminates]

end

section NewProcess

attribute [local irreducible] wp

def newProcess : Kernel := (twoPages.setAllList [.new 3]).setCurrent 3

def userFault (faultAddr : Nat) : PageFault := ⟨faultAddr, true, 0xBFFFF000, .user, 0⟩

lemma userFault_notPresent {faultAddr : Nat} (h : faultAddr < physBase) :
    NotPresent newProcess (.new 3) .empty (userFault faultAddr) :=
  ⟨rfl, rfl, rfl, h, rfl⟩

end NewProcess

end Pintos.Userprog
