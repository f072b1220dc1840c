import Pintos.Userprog.Locking

/-!
# Wake-ups of `process_wait`

`process_wait` waits until the child has left `all_list`.  The child leaves it in
`thread_exit`, after `process_exit` has signalled `child_condition` for the last
time and let go of `child_lock`.  A parent that tests the loop condition in
between goes to sleep for good; a parent that never does is woken.
-/

namespace Pintos.Userprog

open Foundation Processes

@[grind] def ChildPc.signals : ChildPc → Bool
  | .unborn | .unlockExit | .remove | .dead => false
  | _ => true

@[grind] def ChildPc.signalling : ChildPc → Bool
  | .signalLoad _ | .signalExit => true
  | _ => false

def Stranded (s : Processes) : Prop :=
  match s.parent with
  | .sleep (.death tid _) =>
    .parent ∉ s.monitor.woken ∧ tid ∉ s.allList ∧
      ∀ other ∈ s.allList, (s.child other).pc.signals = false
  | _ => False

instance (s : Processes) : Decidable (Stranded s) := by
  unfold Stranded
  split <;> infer_instance

/-- The parent does not test its loop condition while the child it waits for is between
the end of `process_exit`'s critical section and the `list_remove` of `thread_exit`. -/
def TestsOutsideWindow (s : Processes) : Event → Prop
  | .parent =>
    match s.parent with
    | .testDeath tid _ => (s.child tid).pc ≠ .remove
    | _ => True
  | _ => True

instance (s : Processes) (event : Event) : Decidable (TestsOutsideWindow s event) := by
  unfold TestsOutsideWindow
  split <;> [split; skip] <;> infer_instance

/-- The child the parent sleeps for, or is about to sleep for, has its last signal ahead. -/
def Awaited (s : Processes) : Prop :=
  ∀ tid index, s.parent = .enqueue (.death tid index) ∨ s.parent.waiting = some
      (.death tid index) ∧ s.monitor.waiters ≠ [] → (s.child tid).pc.signals = true

variable {s t : Processes} {tid : Nat}

lemma ChildPc.signals_of_live {pc : ChildPc} (hlive : pc.live = true)
    (hout : pc.holds = false) (hwindow : pc ≠ .remove) : pc.signals = true := by
  cases pc <;> simp_all [ChildPc.live, ChildPc.holds, ChildPc.signals]

lemma parentStep_awaited (hd : Disciplined s) (h : Awaited s)
    (hok : TestsOutsideWindow s .parent) (ht : parentStep s s.parent = some t) : Awaited t := by
  intro tid index hwait
  rw [(parentStep_child ht tid).1]
  cases hpc : s.parent with
  | testDeath awaited i =>
    have hwindow : (s.child awaited).pc ≠ .remove := by
      simpa only [TestsOutsideWindow, hpc] using hok
    have hout := hd.alone (by rw [hpc]; rfl) awaited
    have hsignals := fun hlisted =>
      ChildPc.signals_of_live ((hd.listed awaited).mp hlisted) hout hwindow
    grind [parentStep]
  | relock loop => cases loop <;> grind [parentStep, Loop.test]
  | _ => grind [parentStep, Awaited]

lemma childStep_signals (ht : childStep s tid (s.child tid).pc = some t)
    (h : (s.child tid).pc.signals = true) :
    (t.child tid).pc.signals = true ∨ (s.child tid).pc = .signalExit := by
  cases hpc : (s.child tid).pc <;> grind [childStep]

lemma childStep_waiters (hqueued : Queued s) (ht : childStep s tid (s.child tid).pc = some t)
    (h : t.monitor.waiters ≠ []) :
    s.monitor.waiters ≠ [] ∧ (s.child tid).pc.signalling = false := by
  have hwait : s.monitor.waiters = [] ∨ s.monitor.waiters = [.parent] := by grind [Queued]
  cases hpc : (s.child tid).pc <;> grind [childStep]

lemma childStep_awaited (hd : Disciplined s) (h : Awaited s)
    (ht : childStep s tid (s.child tid).pc = some t) : Awaited t := by
  intro awaited index hwait
  obtain ⟨hpar, -, hothers⟩ := childStep_others ht
  rw [hpar] at hwait
  have hbefore : (s.child awaited).pc.signals = true := by
    refine h awaited index (hwait.imp_right fun hasleep => ⟨hasleep.1, ?_⟩)
    exact (childStep_waiters hd.queued ht hasleep.2).1
  by_cases hsame : awaited = tid
  · subst hsame
    refine (childStep_signals ht hbefore).resolve_right fun hpc => ?_
    rcases hwait with henqueue | ⟨-, hasleep⟩
    · -- the parent is inside its critical section, so the child is not
      have hout := hd.alone (by rw [henqueue]; rfl) awaited
      rw [hpc] at hout
      exact absurd hout (by decide)
    · have hquiet := (childStep_waiters hd.queued ht hasleep).2
      rw [hpc] at hquiet
      exact absurd hquiet (by decide)
  · rw [hothers awaited hsame]
    exact hbefore

lemma step_awaited {event : Event} (hd : Disciplined s) (h : Awaited s)
    (hok : TestsOutsideWindow s event) (ht : step s event = some t) : Awaited t := by
  cases event with
  | parent => exact parentStep_awaited hd h hok ht
  | child tid => exact childStep_awaited hd h ht
  | _ =>
    obtain ⟨hmonitor, hwaiting, -⟩ := choice_quiet ht (by simp) (by simp)
    intro awaited index hwait
    grind [step, Awaited]

lemma initial_awaited : Awaited .initial := by
  rintro tid index (h | ⟨h, -⟩) <;> simp [initial, ParentPc.waiting] at h

lemma ChildPc.live_of_signals {pc : ChildPc} (h : pc.signals = true) : pc.live = true := by
  cases pc <;> simp_all [ChildPc.live, ChildPc.signals]

lemma Awaited.not_stranded (hd : Disciplined s) (h : Awaited s) : ¬ Stranded s := by
  unfold Stranded
  split
  · next tid index hsleep =>
      rintro ⟨hwoken, hgone, -⟩
      have hwaiting : s.parent.waiting = some (.death tid index) := by rw [hsleep]; rfl
      have hwait : s.monitor.waiters ≠ [] := by
        have hqueued := hd.queued
        grind [Queued]
      have hsignals := h tid index (.inr ⟨hwaiting, hwait⟩)
      exact hgone ((hd.listed tid).mpr (ChildPc.live_of_signals hsignals))
  · exact id

/-- In every run in which the parent never tests its loop condition inside the window, no
state reached has the parent stranded. -/
theorem not_stranded_of_run (events : List Event)
    (hok : Meets step TestsOutsideWindow .initial events) :
    ∀ s ∈ run step .initial events, ¬ Stranded s := by
  intro s hs
  have hinv : Disciplined s ∧ Awaited s :=
    run_invariant (I := fun s => Disciplined s ∧ Awaited s) (fun s event t h hok ht =>
        ⟨step_disciplined h.1 ht, step_awaited h.1 h.2 hok ht⟩)
      ⟨initial_disciplined, initial_awaited⟩ hok hs
  exact hinv.2.not_stranded hinv.1

def execThenWait : List Event := execAndLoad 3 true ++ .wait 3 :: List.replicate 5 .parent

def exitToWindow : List Event := .exit 3 7 :: List.replicate 10 (.child 3)

theorem not_stranded_execThenWait : Meets step TestsOutsideWindow .initial
        (execThenWait ++ exitToWindow ++ .child 3 :: List.replicate 6 .parent) ∧
      ∀ s ∈ run step .initial
        (execThenWait ++ exitToWindow ++ .child 3 :: List.replicate 6 .parent), ¬ Stranded s :=
  have hok : Meets step TestsOutsideWindow .initial
      (execThenWait ++ exitToWindow ++ .child 3 :: List.replicate 6 .parent) := by decide +kernel
  ⟨hok, not_stranded_of_run _ hok⟩

/-- The signalled parent tests its condition and goes back to sleep before the child is
removed from `all_list`: nobody is left to wake it. -/
theorem process_wait_stranded :
    ∃ s ∈ run step .initial
      (execThenWait ++ exitToWindow ++ List.replicate 5 .parent ++ [.child 3]),
      Stranded s := by
  decide +kernel

end Pintos.Userprog
