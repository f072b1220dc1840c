import Pintos.Userprog.Process

/-!
# The lifetime of a parent and of its child records

A process creates children, runs `process_exit`, which frees the records of
its children, and dies; its `struct thread` is freed with interrupts still off.
Each child ends through `sys_exit` (the `exit` of `exception.c` is the same
code) or is killed, and runs `process_exit`.  The children find the parent with
`thread_get_by_id` and then use its lock, its list and the records on it through
plain pointers.  A child that uses an object after it was freed stops there:
what it would read is not defined.

The records are numbered in the order they were linked.  The parent frees them
from the front of the list, so two counters tell which ones are off the list
and which ones are freed.
-/

namespace Pintos.Userprog.ChildRecords

open Foundation

/-- What a child reaches through the pointer to its parent; all but the records lie in the
parent's `struct thread`. -/
inductive Object where
  | record (index : Nat)
  | children
  | childLock
  | childCondition
  | childLoad
  deriving DecidableEq, Repr

inductive ParentPc where
  | running
  | link (tid : Nat)
  -- `process_exit`; `index` is where `elem` points
  | destroyPagedir
  | begin
  | test (index : Nat)
  | remove (index : Nat)
  | free (index : Nat)
  | freeSp
  | closeFiles
  | signalParent
  | closeExec
  -- the end of `thread_exit`
  | die
  | gone
  deriving DecidableEq, Repr

inductive ChildPc where
  | user
  -- `sys_exit`; no index stands for the head of the list
  | findParent (status : Int)
  | testHead (status : Int)
  | next (status : Int) (elem : Option Nat)
  | compare (status : Int) (index : Nat)
  | lockRecord (status : Int) (index : Nat)
  | setExited (status : Int) (index : Nat)
  | setStatus (status : Int) (index : Nat)
  | unlockRecord (status : Int) (index : Nat)
  -- `process_exit`
  | findParentAgain
  | lockExit
  | testLoad
  | signalExit
  | unlockExit
  | dead
  | stale (object : Object)
  deriving DecidableEq, Repr

structure Child where
  tid : Nat
  pc : ChildPc
  deriving DecidableEq, Repr

structure State where
  parent : ParentPc
  childLoad : Int
  monitor : Monitor Nat
  records : List ChildStatus
  unlinked : Nat
  freed : Nat
  children : List Child

inductive Event where
  -- choices of the parent's program
  | create (tid : Nat)
  | exit
  -- how a child's program ends
  | childExit (index : Nat) (status : Int)
  | childKilled (index : Nat)
  -- the next statement of a thread
  | parent
  | child (index : Nat)
  deriving DecidableEq, Repr

namespace State

def initial : State := ⟨.running, 0, .free, [], 0, 0, []⟩

def parentTo (s : State) (parent : ParentPc) : State := { s with parent }

def childTo (s : State) (index : Nat) (child : Child) (pc : ChildPc) : State :=
  { s with children := s.children.set index { child with pc } }

def modifyRecord (s : State) (index : Nat) (f : ChildStatus → ChildStatus) : State :=
  { s with records := s.records.modify index f }

def Freed (s : State) : Object → Prop
  | .record index => index < s.freed
  | _ => s.parent = .gone

instance (s : State) (object : Object) : Decidable (s.Freed object) := by
  unfold Freed
  split <;> infer_instance

def listNext (s : State) : Option Nat → Nat
  | none => s.unlinked
  | some index => index + 1

end State

open State

def parentStep (s : State) : ParentPc → Option State
  | .running => none
  | .link tid =>
    some (parentTo { s with records := s.records ++ [⟨tid, false, false, 0⟩] } .running)
  | .destroyPagedir => some (s.parentTo .begin)
  | .begin => some (s.parentTo (.test s.unlinked))
  | .test index => some (s.parentTo (if index = s.records.length then .freeSp else .remove index))
  | .remove index => some (parentTo { s with unlinked := index + 1 } (.free index))
  | .free index => some (parentTo { s with freed := index + 1 } (.test (index + 1)))
  | .freeSp => some (s.parentTo .closeFiles)
  | .closeFiles => some (s.parentTo .signalParent)
  | .signalParent => some (s.parentTo .closeExec)
  | .closeExec => some (s.parentTo .die)
  -- `list_remove`, `schedule` and the next thread's `thread_schedule_tail`
  | .die => some (s.parentTo .gone)
  | .gone => none

section

variable (s : State) (index : Nat) (child : Child)

def threadGetById (found missing : ChildPc) : State :=
  s.childTo index child (if s.parent = .gone then missing else found)

def use (object : Object) (next : Option State) : Option State :=
  if s.Freed object then some (s.childTo index child (.stale object)) else next

def childStep : ChildPc → Option State
  | .user => none
  | .findParent status => some (threadGetById s index child (.testHead status) .findParentAgain)
  -- the word before the list's head is a pointer of `child_condition`, never a tid
  | .testHead status =>
    use s index child .children (some (s.childTo index child (.next status none)))
  | .next status elem =>
    use s index child (elem.elim .children .record) (some (s.childTo index child
        (if s.listNext elem = s.records.length then .findParentAgain
         else .compare status (s.listNext elem))))
  | .compare status elem =>
    use s index child (.record elem) (some (s.childTo index child
        (if s.records[elem]?.any (·.childTid == child.tid) then .lockRecord status elem
         else .next status (some elem))))
  | .lockRecord status elem =>
    use s index child .childLock ((s.monitor.acquire index).map fun monitor =>
        childTo { s with monitor } index child (.setExited status elem))
  | .setExited status elem =>
    use s index child (.record elem)
      (some ((s.modifyRecord elem fun record => { record with exited := true }).childTo index child
        (.setStatus status elem)))
  | .setStatus status elem =>
    use s index child (.record elem)
      (some ((s.modifyRecord elem fun record => { record with childExitStatus := status }).childTo
        index child (.unlockRecord status elem)))
  | .unlockRecord status elem =>
    use s index child .childLock
      (some (childTo { s with monitor := s.monitor.release } index child
        (.next status (some elem))))
  | .findParentAgain => some (threadGetById s index child .lockExit .dead)
  | .lockExit =>
    use s index child .childLock ((s.monitor.acquire index).map fun monitor =>
        childTo { s with monitor } index child .testLoad)
  | .testLoad =>
    use s index child .childLoad
      (some (childTo { s with childLoad := if s.childLoad = 0 then -1 else s.childLoad }
        index child .signalExit))
  | .signalExit =>
    use s index child .childCondition
      (some (childTo { s with monitor := s.monitor.signal } index child .unlockExit))
  | .unlockExit =>
    use s index child .childLock
      (some (childTo { s with monitor := s.monitor.release } index child .dead))
  | .dead => none
  | .stale _ => none

end

def step (s : State) : Event → Option State
  | .create tid =>
    if s.parent = .running then
      some (parentTo { s with children := s.children ++ [⟨tid, .user⟩] } (.link tid))
    else none
  | .exit => if s.parent = .running then some (s.parentTo .destroyPagedir) else none
  | .childExit index status => do
    let child ← s.children[index]?
    if child.pc = .user then return s.childTo index child (.findParent status) else none
  | .childKilled index => do
    let child ← s.children[index]?
    if child.pc = .user then return s.childTo index child .findParentAgain else none
  | .parent => parentStep s s.parent
  | .child index => do
    let child ← s.children[index]?
    childStep s index child child.pc

/-! ## Pointers that are still in use -/

def ChildPc.hasParent : ChildPc → Bool
  | .user | .findParent _ | .findParentAgain | .dead | .stale _ => false
  | _ => true

def ChildPc.elem : ChildPc → Option Nat
  | .next _ elem => elem
  | .compare _ elem | .lockRecord _ elem | .setExited _ elem | .setStatus _ elem
  | .unlockRecord _ elem => some elem
  | _ => none

def FreesUnheld (s : State) : Event → Prop
  | .parent =>
    match s.parent with
    | .free index => ∀ child ∈ s.children, child.pc.elem ≠ some index
    | .die => ∀ child ∈ s.children, child.pc.hasParent = false
    | _ => True
  | _ => True

instance (s : State) (event : Event) : Decidable (FreesUnheld s event) := by
  unfold FreesUnheld
  split
  · split <;> infer_instance
  · infer_instance

def NoStaleUse (s : State) : Prop := ∀ child ∈ s.children, ∀ object, child.pc ≠ .stale object

def Counted (s : State) : Prop :=
  match s.parent with
  | .test index | .remove index => s.unlinked = index ∧ s.freed = index
  | .free index => s.unlinked = index + 1 ∧ s.freed = index
  | _ => s.unlinked = s.freed

structure Safe (s : State) (pc : ChildPc) : Prop where
  parent : pc.hasParent = true → s.parent ≠ .gone
  record : ∀ elem, pc.elem = some elem → s.freed ≤ elem
  fresh : ∀ object, pc ≠ .stale object

structure Sound (s : State) : Prop where
  counted : Counted s
  safe : ∀ child ∈ s.children, Safe s child.pc

lemma Counted.freed_le {s : State} (h : Counted s) : s.freed ≤ s.unlinked := by
  unfold Counted at h
  split at h <;> omega

section Steps

variable {s t : State} {index : Nat} {child : Child}

lemma Safe.of_eq {pc : ChildPc} (h : Safe s pc) (hpar : t.parent = s.parent)
    (hfreed : t.freed = s.freed) : Safe t pc :=
  ⟨by rw [hpar]; exact h.parent, by rw [hfreed]; exact h.record, h.fresh⟩

lemma Sound.childTo (h : Sound s) {pc : ChildPc} (hpar : t.parent = s.parent)
    (hunlinked : t.unlinked = s.unlinked) (hfreed : t.freed = s.freed)
    (hchildren : t.children = s.children) (hsafe : Safe s pc) :
    Sound (t.childTo index child pc) := by
  constructor
  · have hcounted := h.counted
    simp only [Counted, State.childTo, hpar, hunlinked, hfreed] at hcounted ⊢
    exact hcounted
  · intro other hother
    simp only [State.childTo, hchildren] at hother
    rcases List.mem_or_eq_of_mem_set hother with hold | rfl
    · exact (h.safe other hold).of_eq hpar hfreed
    · exact hsafe.of_eq hpar hfreed

lemma use_eq {object : Object} {next : Option State} (hfresh : ¬ s.Freed object) :
    use s index child object next = next := if_neg hfresh

/-- What the next statement dereferences. -/
def ChildPc.object : ChildPc → Object
  | .next _ elem => elem.elim .children .record
  | .compare _ elem | .setExited _ elem | .setStatus _ elem => .record elem
  | .testLoad => .childLoad
  | .signalExit => .childCondition
  | .testHead _ => .children
  | _ => .childLock

lemma Safe.not_freed {pc : ChildPc} (h : Safe s pc) (hpc : pc.hasParent = true) :
    ¬ s.Freed pc.object := by
  cases pc with
  | next status elem =>
    cases elem with
    | none => exact h.parent hpc
    | some elem => exact Nat.not_lt.mpr (h.record elem rfl)
  | compare status elem | setExited status elem | setStatus status elem =>
    exact Nat.not_lt.mpr (h.record elem rfl)
  | _ => exact h.parent hpc

lemma childStep_sound (h : Sound s) (hchild : child ∈ s.children)
    (hstep : childStep s index child child.pc = some t) : Sound t := by
  have hle := h.counted.freed_le
  have hsafe := h.safe child hchild
  cases hpc : child.pc <;> rw [hpc] at hsafe hstep
  case user | dead | stale => simp [childStep] at hstep
  case findParent | findParentAgain =>
    simp only [childStep, threadGetById, Option.some.injEq] at hstep
    subst hstep
    refine h.childTo rfl rfl rfl rfl ?_
    split <;> constructor <;> simp_all [ChildPc.hasParent, ChildPc.elem]
  all_goals
    have hpar := hsafe.parent rfl
    have hrecord := hsafe.record
    have hfresh := hsafe.not_freed rfl
    simp only [ChildPc.object] at hfresh
    simp only [childStep, use_eq hfresh, Option.some.injEq, Option.map_eq_some_iff] at hstep
  case next elem =>
    subst hstep
    have hnext : s.freed ≤ s.listNext elem := by
      cases elem with
      | none => exact hle
      | some elem => exact Nat.le_succ_of_le (hrecord elem rfl)
    refine h.childTo rfl rfl rfl rfl ?_
    split
    · constructor <;> simp [ChildPc.hasParent, ChildPc.elem]
    · exact ⟨fun _ => hpar, by simpa [ChildPc.elem] using hnext, by simp⟩
  case compare =>
    subst hstep
    refine h.childTo rfl rfl rfl rfl ?_
    split <;> exact ⟨fun _ => hpar, hrecord, by simp⟩
  case lockRecord | lockExit =>
    obtain ⟨monitor, -, rfl⟩ := hstep
    exact h.childTo rfl rfl rfl rfl ⟨fun _ => hpar, hrecord, by simp⟩
  case unlockExit =>
    subst hstep
    exact h.childTo rfl rfl rfl rfl (by constructor <;> simp [ChildPc.hasParent, ChildPc.elem])
  all_goals
    subst hstep
    exact h.childTo rfl rfl rfl rfl ⟨fun _ => hpar, hrecord, by simp⟩

lemma Sound.parentTo (h : Sound s) (hfreed : t.freed = s.freed)
    (hchildren : t.children = s.children) {pc : ParentPc} (hpc : pc ≠ .gone)
    (hcounted : Counted (t.parentTo pc)) : Sound (t.parentTo pc) := by
  refine ⟨hcounted, fun child hchild => ⟨fun _ => hpc, ?_, ?_⟩⟩
  · simp only [State.parentTo, hfreed]
    exact (h.safe child (hchildren ▸ hchild)).record
  · exact (h.safe child (hchildren ▸ hchild)).fresh

lemma parentStep_sound (h : Sound s) (hunheld : FreesUnheld s .parent)
    (hstep : parentStep s s.parent = some t) : Sound t := by
  have hcounted := h.counted
  unfold Counted at hcounted
  unfold FreesUnheld at hunheld
  cases hpc : s.parent with
  | running | gone => simp [parentStep, hpc] at hstep
  | link tid | destroyPagedir | begin | freeSp | closeFiles | signalParent | closeExec =>
    simp only [hpc, parentStep, Option.some.injEq] at hcounted hstep
    subst hstep
    refine h.parentTo (by rfl) (by rfl) (by simp) ?_
    simp [Counted, State.parentTo, hcounted]
  | test elem =>
    simp only [hpc, parentStep, Option.some.injEq] at hcounted hstep
    subst hstep
    split
    · exact h.parentTo (by rfl) (by rfl) (by simp) (by simp [Counted, State.parentTo, hcounted])
    · exact h.parentTo (by rfl) (by rfl) (by simp) (by simp [Counted, State.parentTo, hcounted])
  | remove elem =>
    simp only [hpc, parentStep, Option.some.injEq] at hcounted hstep
    subst hstep
    exact h.parentTo (by rfl) (by rfl) (by simp) (by simp [Counted, State.parentTo, hcounted])
  | free elem =>
    simp only [hpc, parentStep, Option.some.injEq] at hcounted hunheld hstep
    subst hstep
    refine ⟨by simp [Counted, State.parentTo, hcounted], fun child hchild =>
      ⟨by simp [State.parentTo], fun other hother => ?_, (h.safe child hchild).fresh⟩⟩
    -- the child's record is not the one that is freed, so it comes later
    have hne : other ≠ elem := fun heq => hunheld child hchild (heq ▸ hother)
    have hle := (h.safe child hchild).record other hother
    simp only [State.parentTo]
    omega
  | die =>
    simp only [hpc, parentStep, Option.some.injEq] at hcounted hunheld hstep
    subst hstep
    refine ⟨by simpa [Counted, State.parentTo] using hcounted, fun child hchild => ⟨?_, ?_, ?_⟩⟩
    · simp [hunheld child hchild]
    · exact (h.safe child hchild).record
    · exact (h.safe child hchild).fresh

lemma step_sound {event : Event} (h : Sound s) (hunheld : FreesUnheld s event)
    (hstep : step s event = some t) : Sound t := by
  cases event with
  | create tid =>
    simp only [step, Option.ite_none_right_eq_some, Option.some.injEq] at hstep
    obtain ⟨hrun, rfl⟩ := hstep
    have hcounted := h.counted
    simp only [Counted, hrun] at hcounted
    refine ⟨by simpa [Counted, State.parentTo] using hcounted, fun child hchild => ?_⟩
    rcases List.mem_append.mp hchild with hold | hnew
    · exact ⟨by simp [State.parentTo], (h.safe child hold).record, (h.safe child hold).fresh⟩
    rw [List.mem_singleton.mp hnew]
    constructor <;> simp [ChildPc.hasParent, ChildPc.elem]
  | exit =>
    simp only [step, Option.ite_none_right_eq_some, Option.some.injEq] at hstep
    obtain ⟨hrun, rfl⟩ := hstep
    have hcounted := h.counted
    simp only [Counted, hrun] at hcounted
    exact h.parentTo rfl rfl (by simp) (by simpa [Counted, State.parentTo] using hcounted)
  | childExit index status | childKilled index =>
    obtain ⟨child, -, hstep⟩ := Option.bind_eq_some_iff.mp hstep
    simp only [Option.pure_def, Option.ite_none_right_eq_some, Option.some.injEq] at hstep
    obtain ⟨-, rfl⟩ := hstep
    exact h.childTo rfl rfl rfl rfl (by constructor <;> simp [ChildPc.hasParent, ChildPc.elem])
  | parent => exact parentStep_sound h hunheld hstep
  | child index =>
    obtain ⟨child, hlook, hstep⟩ := Option.bind_eq_some_iff.mp hstep
    exact childStep_sound h (List.mem_of_getElem? hlook) hstep

end Steps

lemma initial_sound : Sound .initial := ⟨rfl, by simp [State.initial]⟩

theorem noStaleUse_of_run {events : List Event} (hunheld : Meets step FreesUnheld .initial events) :
    ∀ s ∈ run step .initial events, NoStaleUse s := by
  intro s hrun child hchild
  have hsound : Sound s :=
    run_invariant (fun _ _ _ h hok hstep => step_sound h hok hstep) initial_sound hunheld hrun
  exact (hsound.safe child hchild).fresh

def exitTo (n : Nat) : List Event :=
  [.create 3, .parent, .childExit 0 7] ++ List.replicate n (.child 0)

def leave : List Event := .exit :: List.replicate 11 .parent

theorem noStaleUse_after_child : Meets step FreesUnheld .initial (exitTo 14 ++ leave) ∧
      ∀ s ∈ run step .initial (exitTo 14 ++ leave), NoStaleUse s :=
  have hunheld : Meets step FreesUnheld .initial (exitTo 14 ++ leave) := by decide +kernel
  ⟨hunheld, noStaleUse_of_run hunheld⟩

/-- The child has come to its record when the parent frees it; and it has found its parent in
`process_exit` when the parent's page is freed. -/
theorem child_uses_freed : (∃ s ∈ run step .initial (exitTo 3 ++ leave.take 6 ++ [.child 0]),
      s.children = [⟨3, .stale (.record 0)⟩]) ∧
    ∃ s ∈ run step .initial (exitTo 10 ++ leave ++ [.child 0]),
      s.parent = .gone ∧ s.children = [⟨3, .stale .childLock⟩] := by
  decide +kernel

end Pintos.Userprog.ChildRecords
