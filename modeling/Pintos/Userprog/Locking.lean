import Pintos.Userprog.Process

/-!
# Who holds `child_lock`

The lock is held by the thread whose next statement is inside a critical section,
`all_list` has the children that have been created and not removed, and the only
thread that ever waits on `child_condition` is the parent.
-/

namespace Pintos.Userprog

open Foundation Processes

variable {event : Event}

@[grind] def ParentPc.holds : ParentPc → Bool
  | .testLoad _ | .answer _ | .unlockLoad _ _ => true
  | .enqueue _ | .unlockWait _ => true
  | .testDeath _ _ | .checkStatus _ _ | .takeStatus _ _ | .unlockDeath _ _ => true
  | _ => false

@[grind] def ChildPc.holds : ChildPc → Bool
  | .storeLoad _ | .signalLoad _ | .unlockLoad _ => true
  | .setExited _ _ | .setStatus _ _ | .unlockRecord _ _ => true
  | .testLoad | .signalExit | .unlockExit => true
  | _ => false

@[grind] def ChildPc.live : ChildPc → Bool
  | .unborn | .dead => false
  | _ => true

@[grind] def Processes.inside (s : Processes) : Thread → Bool
  | .parent => s.parent.holds
  | .child tid => (s.child tid).pc.holds

@[grind] def ParentPc.waiting : ParentPc → Option Loop
  | .unlockWait loop | .sleep loop => some loop
  | _ => none

/-- The semaphore of the parent is queued or raised while the parent waits, and only then. -/
def Queued (s : Processes) : Prop :=
  match s.parent.waiting with
  | none => s.monitor.waiters = [] ∧ s.monitor.woken = []
  | some _ => s.monitor.waiters = [.parent] ∧ s.monitor.woken = [] ∨
      s.monitor.waiters = [] ∧ s.monitor.woken = [.parent]

structure Disciplined (s : Processes) : Prop where
  exclusive : s.monitor.Exclusive s.inside
  queued : Queued s
  nodup : s.allList.Nodup
  listed : ∀ tid, tid ∈ s.allList ↔ (s.child tid).pc.live = true

@[grind =] lemma Loop.holds_test (loop : Loop) : loop.test.holds = true := by cases loop <;> rfl

@[grind =] lemma Loop.waiting_test (loop : Loop) : loop.test.waiting = none := by cases loop <;> rfl

variable {s t : Processes} {tid : Nat}

lemma parentStep_moves (ht : parentStep s s.parent = some t) :
    s.monitor.Moves t.monitor .parent (s.inside .parent) (t.inside .parent) := by
  change s.monitor.Moves t.monitor .parent s.parent.holds t.parent.holds
  cases hpc : s.parent with
  | lockLoad tid | lockDeath tid index | relock loop =>
    exact .acquire (by grind [parentStep]) (by grind [parentStep])
  | unlockLoad tid result | unlockDeath tid result | unlockWait loop =>
    exact .release rfl (by grind [parentStep]) (by grind [parentStep])
  | _ => exact .stay (by grind [parentStep]) (by grind [parentStep])

lemma childStep_moves (ht : childStep s tid (s.child tid).pc = some t) :
    s.monitor.Moves t.monitor (.child tid) (s.inside (.child tid)) (t.inside (.child tid)) := by
  change s.monitor.Moves t.monitor (.child tid) (s.child tid).pc.holds (t.child tid).pc.holds
  cases hpc : (s.child tid).pc with
  | lockLoad success | lockRecord status index | lockExit =>
    exact .acquire (by grind [childStep]) (by grind [childStep])
  | unlockLoad success | unlockRecord status index | unlockExit =>
    exact .release rfl (by grind [childStep]) (by grind [childStep])
  | _ => exact .stay (by grind [childStep]) (by grind [childStep])

lemma parentStep_queued (h : Queued s) (ht : parentStep s s.parent = some t) : Queued t := by
  cases hpc : s.parent <;> grind [Queued, parentStep]

lemma childStep_queued (h : Queued s) (ht : childStep s tid (s.child tid).pc = some t) :
    Queued t := by
  cases hpc : (s.child tid).pc <;> grind [Queued, childStep]

lemma parentStep_allList (ht : parentStep s s.parent = some t) : t.allList = s.allList := by
  cases hpc : s.parent <;> grind [parentStep]

lemma parentStep_child (ht : parentStep s s.parent = some t) (tid : Nat) :
    (t.child tid).pc = (s.child tid).pc ∧ (t.child tid).load = (s.child tid).load ∧
      (t.child tid).exit = (s.child tid).exit := by
  cases hpc : s.parent <;> grind [parentStep]

lemma childStep_others (ht : childStep s tid (s.child tid).pc = some t) :
    t.parent = s.parent ∧ t.execs = s.execs ∧
      ∀ other, other ≠ tid → t.child other = s.child other := by
  cases hpc : (s.child tid).pc <;> grind [childStep]

lemma childStep_child (ht : childStep s tid (s.child tid).pc = some t) (other : Nat) :
    (t.child other).load = (s.child other).load ∧ (t.child other).exit = (s.child other).exit ∧
      (t.child other).waits = (s.child other).waits := by
  by_cases hsame : other = tid
  · subst hsame
    cases hpc : (s.child other).pc <;> grind [childStep]
  · rw [(childStep_others ht).2.2 other hsame]
    simp

lemma childStep_listed (hnodup : s.allList.Nodup)
    (h : ∀ tid, tid ∈ s.allList ↔ (s.child tid).pc.live = true)
    (ht : childStep s tid (s.child tid).pc = some t) :
    t.allList.Nodup ∧ ∀ tid, tid ∈ t.allList ↔ (t.child tid).pc.live = true := by
  cases hpc : (s.child tid).pc <;> grind [childStep]

lemma initial_disciplined : Disciplined .initial where
  exclusive thread := by cases thread <;> simp [initial, Monitor.free, Processes.inside,
    ParentPc.holds, ChildPc.holds]
  queued := ⟨rfl, rfl⟩
  nodup := List.nodup_nil
  listed tid := by simp [initial, ChildPc.live]

lemma choice_quiet (ht : step s event = some t)
    (hpar : event ≠ .parent) (hchild : ∀ tid, event ≠ .child tid) : t.monitor = s.monitor ∧
    t.parent.waiting = s.parent.waiting ∧ ∀ thread, t.inside thread = s.inside thread := by
  refine ⟨?_, ?_, fun thread => ?_⟩
  · cases event <;> grind [step]
  · cases event <;> grind [step]
  · cases event <;> cases thread <;> grind [step]

lemma step_exclusive (h : s.monitor.Exclusive s.inside)
    (ht : step s event = some t) : t.monitor.Exclusive t.inside := by
  cases event with
  | parent =>
    refine h.moves (parentStep_moves ht) fun thread hthread => ?_
    cases thread with
    | parent => exact absurd rfl hthread
    | child tid => exact congrArg ChildPc.holds (parentStep_child ht tid).1
  | child tid =>
    obtain ⟨hpar, -, hothers⟩ := childStep_others ht
    refine h.moves (childStep_moves ht) fun thread hthread => ?_
    cases thread with
    | parent => exact congrArg ParentPc.holds hpar
    | child other =>
      have hne : other ≠ tid := fun hsame => hthread (by rw [hsame])
      simp only [Processes.inside, hothers other hne]
  | _ =>
    obtain ⟨hmonitor, -, hinside⟩ := choice_quiet ht (by simp) (by simp)
    exact h.moves (.stay (by rw [hmonitor]) (hinside .parent)) fun thread _ => hinside thread

lemma step_queued (h : Queued s) (ht : step s event = some t) : Queued t := by
  cases event with
  | parent => exact parentStep_queued h ht
  | child tid => exact childStep_queued h ht
  | _ =>
    obtain ⟨hmonitor, hwaiting, -⟩ := choice_quiet ht (by simp) (by simp)
    simpa only [Queued, hmonitor, hwaiting] using h

lemma step_listed (hnodup : s.allList.Nodup)
    (h : ∀ tid, tid ∈ s.allList ↔ (s.child tid).pc.live = true) (ht : step s event = some t) :
    t.allList.Nodup ∧ ∀ tid, tid ∈ t.allList ↔ (t.child tid).pc.live = true := by
  cases event with
  | parent =>
    refine ⟨parentStep_allList ht ▸ hnodup, fun tid => ?_⟩
    rw [parentStep_allList ht, (parentStep_child ht tid).1]
    exact h tid
  | child tid => exact childStep_listed hnodup h ht
  | _ => constructor <;> grind [step]

lemma step_disciplined (h : Disciplined s) (ht : step s event = some t) : Disciplined t := by
  obtain ⟨hnodup, hlisted⟩ := step_listed h.nodup h.listed ht
  exact ⟨step_exclusive h.exclusive ht, step_queued h.queued ht, hnodup, hlisted⟩

lemma Disciplined.alone (h : Disciplined s) (hpar : s.parent.holds = true) (tid : Nat) :
    (s.child tid).pc.holds = false := by
  by_contra hchild
  have hin : s.inside .parent = true := hpar
  have hinChild : s.inside (.child tid) = true := by simpa [Processes.inside] using hchild
  exact absurd (h.exclusive.unique hin hinChild) (by simp)

/-- In every interleaving. -/
theorem childLock_disciplined_of_run {events : List Event}
    (h : run step .initial events = some s) : Disciplined s :=
  run_keeps (fun _ _ _ => step_disciplined) initial_disciplined h

/-- The parent waits in `sys_exec`, and the child is in its critical section and has signalled. -/
def signalledLoad : List Event :=
  [.exec, .parent, .created 3] ++ List.replicate 5 .parent ++
    .loaded 3 true :: List.replicate 3 (.child 3)

theorem childLock_disciplined_in_signal : ∃ s ∈ run step .initial signalledLoad,
    s.allList = [3] ∧ s.parent = .sleep (.load (some 3)) ∧ s.monitor.holder = some (.child 3) ∧
      s.monitor.woken = [.parent] ∧ Disciplined s := by
  have h : run step .initial signalledLoad = some _ := rfl
  exact ⟨_, h, rfl, rfl, rfl, rfl, childLock_disciplined_of_run h⟩

end Pintos.Userprog
