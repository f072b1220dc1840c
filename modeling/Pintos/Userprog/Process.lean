import Pintos.Foundation.Monitor
import Pintos.Foundation.Transition

/-!
# A process and its children

The parent runs `sys_exec` and `process_wait`, in any order and any number of
times; each child runs `start_process`, its program, `sys_exit` and
`thread_exit`.  The threads may be preempted between any two statements, so the
program counters below name the statement a thread executes next, and one event
executes it.  `child_lock` and `child_condition` of the parent are one monitor.
The parent itself does not exit.

The fields `load`, `exit` and `waits` of a child and `execs` of the parent only
record what happened; no statement reads them.
-/

namespace Pintos.Userprog

open Foundation

inductive Thread where
  | parent
  | child (tid : Nat)
  deriving DecidableEq, Repr

/-- The loop a `cond_wait` of the parent is called from: `while (child_load == 0)`
of `sys_exec`, or `while (thread_get_by_id (child_tid) != NULL)` of `process_wait`. -/
inductive Loop where
  | load (tid : Option Nat)
  | death (tid index : Nat)
  deriving DecidableEq, Repr

inductive ParentPc where
  | user
  -- `sys_exec` and `process_execute`; no tid stands for `TID_ERROR`
  | clearLoad
  | create
  | link (tid : Nat)
  | lockLoad (tid : Option Nat)
  | testLoad (tid : Option Nat)
  | answer (tid : Option Nat)
  | unlockLoad (tid result : Option Nat)
  -- `cond_wait`
  | enqueue (loop : Loop)
  | unlockWait (loop : Loop)
  | sleep (loop : Loop)
  | relock (loop : Loop)
  -- `process_wait`
  | find (tid : Nat)
  | lockDeath (tid index : Nat)
  | testDeath (tid index : Nat)
  | checkStatus (tid index : Nat)
  | takeStatus (tid index : Nat)
  | unlockDeath (tid : Nat) (result : Int)
  deriving DecidableEq, Repr

inductive ChildPc where
  | unborn
  -- `start_process`
  | load
  | lockLoad (success : Bool)
  | storeLoad (success : Bool)
  | signalLoad (success : Bool)
  | unlockLoad (success : Bool)
  | user
  -- `sys_exit`: the walk along the parent's list has come to `index`
  | scan (status : Int) (index : Nat)
  | lockRecord (status : Int) (index : Nat)
  | setExited (status : Int) (index : Nat)
  | setStatus (status : Int) (index : Nat)
  | unlockRecord (status : Int) (index : Nat)
  -- `process_exit`, then `list_remove` of `thread_exit`
  | lockExit
  | testLoad
  | signalExit
  | unlockExit
  | remove
  | dead
  deriving DecidableEq, Repr

structure ChildStatus where
  childTid : Nat
  exited : Bool
  hasBeenWaited : Bool
  childExitStatus : Int
  deriving DecidableEq, Repr

structure Child where
  pc : ChildPc
  /-- What `load` returned. -/
  load : Option Bool
  /-- The argument of `sys_exit`. -/
  exit : Option Int
  /-- What the calls `process_wait (tid)` have returned since the child was created. -/
  waits : List Int
  deriving DecidableEq, Repr

structure Exec where
  started : Option Nat
  result : Option Nat
  deriving DecidableEq, Repr

structure Processes where
  childLoad : Int
  monitor : Monitor Thread
  children : List ChildStatus
  /-- The children in `all_list`. -/
  allList : List Nat
  parent : ParentPc
  child : Nat → Child
  execs : List Exec

inductive Event where
  -- choices of the parent's program and of `thread_create`
  | exec
  | wait (tid : Nat)
  | created (tid : Nat)
  | createFailed
  -- choices of a child: the result of `load`, then how its program ends
  | loaded (tid : Nat) (success : Bool)
  | exit (tid : Nat) (status : Int)
  | killed (tid : Nat)
  -- the next statement of a thread
  | parent
  | child (tid : Nat)
  deriving DecidableEq, Repr

namespace Processes

def initial : Processes where
  childLoad := 0
  monitor := .free
  children := []
  allList := []
  parent := .user
  child _ := ⟨.unborn, none, none, []⟩
  execs := []

@[grind] def setMonitor (s : Processes) (monitor : Monitor Thread) : Processes := { s with monitor }

@[grind] def setLoad (s : Processes) (childLoad : Int) : Processes := { s with childLoad }

@[grind] def setRecords (s : Processes) (children : List ChildStatus) : Processes :=
  { s with children }

@[grind] def setAll (s : Processes) (allList : List Nat) : Processes := { s with allList }

@[grind] def parentTo (s : Processes) (parent : ParentPc) : Processes := { s with parent }

@[grind] def setChild (s : Processes) (tid : Nat) (child : Child) : Processes :=
  { s with child := Function.update s.child tid child }

@[grind] def childTo (s : Processes) (tid : Nat) (pc : ChildPc) : Processes :=
  s.setChild tid { s.child tid with pc }

@[grind] def threadCreate (s : Processes) (tid : Nat) : Processes :=
  ((s.setAll (s.allList ++ [tid])).childTo tid .load).parentTo (.link tid)

@[grind] def returnExec (s : Processes) (started result : Option Nat) : Processes :=
  { s with execs := s.execs ++ [⟨started, result⟩], parent := .user }

/-- A call `process_wait (tid)` returns; it is recorded if there is such a child. -/
@[grind] def returnWait (s : Processes) (tid : Nat) (result : Int) : Processes :=
  (s.parentTo .user).setChild tid { s.child tid with
      waits := if (s.child tid).pc = .unborn then [] else (s.child tid).waits ++ [result] }

section Frames

variable (s : Processes) (tid : Nat)

@[grind =] lemma child_setAll (allList : List Nat) :
    (s.setAll allList).child tid = s.child tid := rfl

@[grind =] lemma child_parentTo (pc : ParentPc) : (s.parentTo pc).child tid = s.child tid := rfl

@[grind =] lemma child_returnExec (started result : Option Nat) :
    (s.returnExec started result).child tid = s.child tid := rfl

@[grind =] lemma child_setChild (other : Nat) (child : Child) :
    (s.setChild other child).child tid = if tid = other then child else s.child tid := by
  simp [setChild, Function.update_apply]

@[grind =] lemma child_childTo (other : Nat) (pc : ChildPc) : (s.childTo other pc).child tid =
      if tid = other then { s.child tid with pc } else s.child tid := by
  grind [childTo]

@[grind =] lemma child_threadCreate (other : Nat) : (s.threadCreate other).child tid =
      if tid = other then { s.child tid with pc := .load } else s.child tid := by
  rw [threadCreate, child_parentTo, child_childTo, child_setAll]

end Frames

end Processes

open Processes

def Loop.test : Loop → ParentPc
  | .load tid => .testLoad tid
  | .death tid index => .testDeath tid index

/-- The walk of `process_wait` from the tail: the record of `tid` among the first `n`. -/
def findRecord (children : List ChildStatus) (tid : Nat) : Nat → Option Nat
  | 0 => none
  | n + 1 => if children[n]?.any (·.childTid == tid) then some n else findRecord children tid n

def parentStep (s : Processes) : ParentPc → Option Processes
  | .user => none
  | .clearLoad => some ((s.setLoad 0).parentTo .create)
  | .create => none
  | .link tid =>
    some ((s.setRecords (s.children ++ [⟨tid, false, false, 0⟩])).parentTo (.lockLoad (some tid)))
  | .lockLoad tid => do
    let monitor ← s.monitor.acquire .parent
    return (s.setMonitor monitor).parentTo (.testLoad tid)
  | .testLoad tid =>
    some (s.parentTo (if s.childLoad = 0 then .enqueue (.load tid) else .answer tid))
  | .answer tid => some (s.parentTo (.unlockLoad tid (if s.childLoad = -1 then none else tid)))
  | .unlockLoad tid result => some ((s.setMonitor s.monitor.release).returnExec tid result)
  | .enqueue loop => some ((s.setMonitor (s.monitor.enqueue .parent)).parentTo (.unlockWait loop))
  | .unlockWait loop => some ((s.setMonitor s.monitor.release).parentTo (.sleep loop))
  | .sleep loop => do
    let monitor ← s.monitor.down .parent
    return (s.setMonitor monitor).parentTo (.relock loop)
  | .relock loop => do
    let monitor ← s.monitor.acquire .parent
    return (s.setMonitor monitor).parentTo loop.test
  | .find tid =>
    match findRecord s.children tid s.children.length with
    | none => some (s.returnWait tid (-1))
    | some index => some (s.parentTo (.lockDeath tid index))
  | .lockDeath tid index => do
    let monitor ← s.monitor.acquire .parent
    return (s.setMonitor monitor).parentTo (.testDeath tid index)
  | .testDeath tid index =>
    some (s.parentTo
      (if tid ∈ s.allList then .enqueue (.death tid index) else .checkStatus tid index))
  | .checkStatus tid index => do
    let record ← s.children[index]?
    return s.parentTo (if !record.exited || record.hasBeenWaited then .unlockDeath tid (-1)
       else .takeStatus tid index)
  | .takeStatus tid index => do
    let record ← s.children[index]?
    return (s.setRecords (s.children.set index { record with hasBeenWaited := true })).parentTo
      (.unlockDeath tid record.childExitStatus)
  | .unlockDeath tid result => some ((s.setMonitor s.monitor.release).returnWait tid result)

def childStep (s : Processes) (tid : Nat) : ChildPc → Option Processes
  | .unborn => none
  | .load => none
  | .lockLoad success => do
    let monitor ← s.monitor.acquire (.child tid)
    return (s.setMonitor monitor).childTo tid (.storeLoad success)
  | .storeLoad success =>
    some ((s.setLoad (if success then 1 else -1)).childTo tid (.signalLoad success))
  | .signalLoad success => some ((s.setMonitor s.monitor.signal).childTo tid (.unlockLoad success))
  | .unlockLoad success =>
    some ((s.setMonitor s.monitor.release).childTo tid (if success then .user else .lockExit))
  | .user => none
  | .scan status index =>
    match s.children[index]? with
    | none => some (s.childTo tid .lockExit)
    | some record =>
      some (s.childTo tid (if record.childTid = tid then .lockRecord status index
         else .scan status (index + 1)))
  | .lockRecord status index => do
    let monitor ← s.monitor.acquire (.child tid)
    return (s.setMonitor monitor).childTo tid (.setExited status index)
  | .setExited status index => do
    let record ← s.children[index]?
    return (s.setRecords (s.children.set index { record with exited := true })).childTo tid
      (.setStatus status index)
  | .setStatus status index => do
    let record ← s.children[index]?
    return (s.setRecords (s.children.set index { record with childExitStatus := status })).childTo
      tid (.unlockRecord status index)
  | .unlockRecord status index =>
    some ((s.setMonitor s.monitor.release).childTo tid (.scan status (index + 1)))
  | .lockExit => do
    let monitor ← s.monitor.acquire (.child tid)
    return (s.setMonitor monitor).childTo tid .testLoad
  | .testLoad =>
    some ((s.setLoad (if s.childLoad = 0 then -1 else s.childLoad)).childTo tid .signalExit)
  | .signalExit => some ((s.setMonitor s.monitor.signal).childTo tid .unlockExit)
  | .unlockExit => some ((s.setMonitor s.monitor.release).childTo tid .remove)
  | .remove => some ((s.setAll (s.allList.erase tid)).childTo tid .dead)
  | .dead => none

def step (s : Processes) : Event → Option Processes
  | .exec => if s.parent = .user then some (s.parentTo .clearLoad) else none
  | .wait tid => if s.parent = .user then some (s.parentTo (.find tid)) else none
  | .created tid =>
    if s.parent = .create ∧ 0 < tid ∧ (s.child tid).pc = .unborn then
      some (s.threadCreate tid)
    else none
  | .createFailed => if s.parent = .create then some (s.parentTo (.lockLoad none)) else none
  | .loaded tid success =>
    if (s.child tid).pc = .load then
      some (s.setChild tid { s.child tid with pc := .lockLoad success, load := some success })
    else none
  | .exit tid status =>
    if (s.child tid).pc = .user then
      some (s.setChild tid { s.child tid with pc := .scan status 0, exit := some status })
    else none
  | .killed tid => if (s.child tid).pc = .user then some (s.childTo tid .lockExit) else none
  | .parent => parentStep s s.parent
  | .child tid => childStep s tid (s.child tid).pc

/-- `sys_exec` starts child `tid`, which then loads, or fails to, and stores the result. -/
def execAndLoad (tid : Nat) (success : Bool) : List Event :=
  [.exec, .parent, .created tid, .parent, .loaded tid success] ++ List.replicate 4 (.child tid) ++
    List.replicate 4 .parent

end Pintos.Userprog
