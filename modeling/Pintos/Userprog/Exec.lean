import Pintos.Userprog.Wakeup

/-!
# The answer of `sys_exec`

`sys_exec` clears `child_load`, starts a child and waits until `child_load` is no
longer zero.  The child stores what `load` returned there; but `process_exit` of
any child also turns a zero into -1, and no child stores anything if
`thread_create` fails.
-/

namespace Pintos.Userprog

open Foundation Processes

variable {event : Event} {pc : ChildPc} {exec : Exec}

/-- The child a `sys_exec` has started and not yet been answered for; none inside
stands for a `thread_create` that failed. -/
@[grind] def ParentPc.pending : ParentPc → Option (Option Nat)
  | .link tid => some (some tid)
  | .lockLoad tid | .testLoad tid | .answer tid => some tid
  | .enqueue (.load tid) | .unlockWait (.load tid) => some tid
  | .sleep (.load tid) | .relock (.load tid) => some tid
  | _ => none

/-- The store of the load result into the parent's `child_load` is still ahead. -/
@[grind] def ChildPc.reports : ChildPc → Bool
  | .load | .lockLoad _ | .storeLoad _ => true
  | _ => false

@[grind] def ChildPc.testsLoad : ChildPc → Bool
  | .unborn | .signalExit | .unlockExit | .remove | .dead => false
  | _ => true

/-- The answer is the child that was started if its `load` returned true, and -1 otherwise. -/
def Answered (s : Processes) (exec : Exec) : Prop :=
  exec.result = exec.started.bind fun tid =>
    if (s.child tid).load = some true then some tid else none

/-- The parent sleeps in `sys_exec` and no child is left that will change `child_load`,
or has changed it and will signal. -/
def ExecStranded (s : Processes) : Prop :=
  match s.parent with
  | .sleep (.load _) =>
    .parent ∉ s.monitor.woken ∧
      ∀ tid ∈ s.allList, (s.childLoad = 0 → (s.child tid).pc.testsLoad = false) ∧
        (s.childLoad ≠ 0 → (s.child tid).pc.signals = false)
  | _ => False

instance (s : Processes) (exec : Exec) : Decidable (Answered s exec) :=
  inferInstanceAs (Decidable (_ = _))

instance (s : Processes) : Decidable (ExecStranded s) := by
  cases s
  unfold ExecStranded
  dsimp only
  split <;> infer_instance

/-- No child's `process_exit` finds a zero that `sys_exec` has left for the child it
started, and `thread_create` fails only while some child has that test ahead. -/
def ExecUndisturbed (s : Processes) : Event → Prop
  | .child tid => (s.child tid).pc = .testLoad → s.childLoad = 0 → s.parent.pending = some none
  | .createFailed => ∃ tid ∈ s.allList, (s.child tid).pc.testsLoad = true
  | _ => True

instance (s : Processes) : (event : Event) → Decidable (ExecUndisturbed s event)
  | .child _ => inferInstanceAs (Decidable (_ → _ → _))
  | .createFailed =>
    inferInstanceAs (Decidable (∃ tid ∈ s.allList, (s.child tid).pc.testsLoad = true))
  | .exec | .wait _ | .created _ | .loaded .. | .exit .. | .killed _ | .parent => isTrue trivial

structure Pending (s : Processes) : Prop where
  cleared : s.parent = .create → s.childLoad = 0
  reporter : ∀ tid, (s.child tid).pc.reports = true → s.parent.pending = some (some tid)
  reporting : ∀ tid, (s.child tid).pc.reports = true → s.childLoad = 0
  reported : ∀ tid, s.parent.pending = some (some tid) → (s.child tid).pc.reports = false →
    (s.child tid).load = some true ∧ s.childLoad = 1 ∨
      (s.child tid).load = some false ∧ s.childLoad = -1
  failed : s.parent.pending = some none →
    s.childLoad = -1 ∨ s.childLoad = 0 ∧ ∃ tid, (s.child tid).pc.testsLoad = true
  answering : ∀ tid, s.parent = .answer tid → s.childLoad ≠ 0
  result : ∀ tid success, (s.child tid).pc = .lockLoad success ∨
    (s.child tid).pc = .storeLoad success → (s.child tid).load = some success

variable {s t : Processes} {tid : Nat}

lemma parentStep_load (ht : parentStep s s.parent = some t) :
    (s.parent = .clearLoad ∧ t = (s.setLoad 0).parentTo .create) ∨
    (∃ tid, s.parent = .answer tid ∧ t.childLoad = s.childLoad ∧
      t.parent = .unlockLoad tid (if s.childLoad = -1 then none else tid)) ∨
    (t.childLoad = s.childLoad ∧ t.parent.pending = s.parent.pending ∧
      t.parent ≠ .create ∧ ∀ tid, t.parent = .answer tid → s.childLoad ≠ 0) := by
  cases hpc : s.parent with
  | clearLoad => grind [parentStep]
  | answer tid => grind [parentStep]
  | relock loop => cases loop <;> grind [parentStep, Loop.test]
  | unlockWait loop | sleep loop | enqueue loop => cases loop <;> grind [parentStep]
  | _ => grind [parentStep]

lemma childStep_load (ht : childStep s tid (s.child tid).pc = some t) :
    (∃ success, (s.child tid).pc = .storeLoad success ∧
      t = (s.setLoad (if success then 1 else -1)).childTo tid (.signalLoad success)) ∨
    ((s.child tid).pc = .testLoad ∧
      t = (s.setLoad (if s.childLoad = 0 then -1 else s.childLoad)).childTo tid .signalExit) ∨
    (t.childLoad = s.childLoad ∧ (t.child tid).load = (s.child tid).load ∧
      (t.child tid).pc.reports = (s.child tid).pc.reports ∧
      (t.child tid).pc.testsLoad = (s.child tid).pc.testsLoad ∧
      ∀ success, (t.child tid).pc = .lockLoad success ∨ (t.child tid).pc = .storeLoad success →
        (s.child tid).pc = .lockLoad success) := by
  cases hpc : (s.child tid).pc <;> grind [childStep]

lemma Pending.congr (h : Pending s) (hload : t.childLoad = s.childLoad)
    (hpending : t.parent.pending = s.parent.pending)
    (hreports : ∀ tid, (t.child tid).pc.reports = (s.child tid).pc.reports)
    (htests : ∀ tid, (t.child tid).pc.testsLoad = (s.child tid).pc.testsLoad)
    (hloads : ∀ tid, (t.child tid).load = (s.child tid).load)
    (hcreate : t.parent = .create → s.parent = .create)
    (hanswer : ∀ tid, t.parent = .answer tid → s.childLoad ≠ 0) (hres : ∀ tid success,
      (t.child tid).pc = .lockLoad success ∨ (t.child tid).pc = .storeLoad success →
        (s.child tid).pc = .lockLoad success ∨ (s.child tid).pc = .storeLoad success) :
    Pending t where
  cleared hpc := hload ▸ h.cleared (hcreate hpc)
  reporter tid := by simpa only [hreports, hpending] using h.reporter tid
  reporting tid := by simpa only [hreports, hload] using h.reporting tid
  reported tid := by simpa only [hreports, hload, hpending, hloads] using h.reported tid
  failed := by simpa only [hload, hpending, htests] using h.failed
  answering tid hpc := hload ▸ hanswer tid hpc
  result tid success hpc := by
    rw [hloads]
    exact h.result tid success (hres tid success hpc)

lemma Pending.of_idle (hidle : ∀ tid, (s.child tid).pc.reports = false)
    (cleared : s.parent = .create → s.childLoad = 0)
    (reported : ∀ tid, s.parent.pending = some (some tid) →
      (s.child tid).load = some true ∧ s.childLoad = 1 ∨
        (s.child tid).load = some false ∧ s.childLoad = -1) (failed : s.parent.pending = some none →
      s.childLoad = -1 ∨ s.childLoad = 0 ∧ ∃ tid, (s.child tid).pc.testsLoad = true)
    (answering : ∀ tid, s.parent = .answer tid → s.childLoad ≠ 0) : Pending s where
  cleared := cleared
  reporter tid h := absurd h (by simp [hidle tid])
  reporting tid h := absurd h (by simp [hidle tid])
  reported tid h _ := reported tid h
  failed := failed
  answering := answering
  result tid success h := by
    have := hidle tid
    rcases h with h | h <;> simp [h, ChildPc.reports] at this

section

variable (h : Pending s)

include h

lemma Pending.idle_of_pending (hother : ∀ tid, s.parent.pending ≠ some (some tid))
    (tid : Nat) : (s.child tid).pc.reports = false := by
  by_contra hreports
  exact hother tid (h.reporter tid (by simpa using hreports))

lemma Pending.idle_of_load (hload : s.childLoad ≠ 0) (tid : Nat) :
    (s.child tid).pc.reports = false := by
  by_contra hreports
  exact hload (h.reporting tid (by simpa using hreports))

lemma parentStep_pending (ht : parentStep s s.parent = some t) : Pending t := by
  have hpcs := fun tid => (parentStep_child ht tid).1
  have hloads := fun tid => (parentStep_child ht tid).2.1
  rcases parentStep_load ht with ⟨hpc, rfl⟩ | ⟨tid, hpc, hload, hpar⟩ |
    ⟨hload, hpending, hcreate, hanswer⟩
  · have hidle := h.idle_of_pending (by simp [hpc, ParentPc.pending])
    refine .of_idle (fun tid => by rw [hpcs]; exact hidle tid) (fun _ => rfl) ?_ ?_ ?_ <;>
      simp [parentTo, ParentPc.pending]
  · -- the answer has been stored, so nobody is reporting any more
    have hidle := h.idle_of_load (h.answering tid hpc)
    refine .of_idle (fun tid => by rw [hpcs]; exact hidle tid) ?_ ?_ ?_ ?_ <;>
      simp [hpar, ParentPc.pending]
  refine h.congr hload hpending (fun tid => by rw [hpcs]) (fun tid => by rw [hpcs]) hloads
    (fun hpc => absurd hpc hcreate) hanswer fun tid success => ?_
  rw [hpcs]
  exact id

lemma childStep_pending (hok : ExecUndisturbed s (.child tid))
    (ht : childStep s tid (s.child tid).pc = some t) : Pending t := by
  obtain ⟨hpar, -, hothers⟩ := childStep_others ht
  rcases childStep_load ht with ⟨success, hpc, rfl⟩ | ⟨hpc, rfl⟩ |
    ⟨hload, hloads, hreports, htests, hres⟩
  · -- the child that stores its result is the only one that was reporting
    have hpending := h.reporter tid (by rw [hpc]; rfl)
    have hres := h.result tid success (.inr hpc)
    refine .of_idle (fun other => ?_) ?_ ?_ ?_ ?_
    · have := h.reporter other
      grind
    all_goals grind
  · by_cases hzero : s.childLoad = 0
    · have hfailed := hok hpc hzero
      have hidle := h.idle_of_pending (by simp [hfailed])
      refine .of_idle (fun other => ?_) ?_ ?_ ?_ ?_
      all_goals grind
    have hidle := h.idle_of_load hzero
    have hreported := h.reported
    have hfailed := h.failed
    have hcleared := h.cleared
    refine .of_idle (fun other => ?_) ?_ ?_ ?_ ?_
    all_goals grind
  have pick : ∀ {P : Nat → Prop}, P tid → (∀ other, other ≠ tid → P other) → ∀ other, P other :=
    fun htid hrest other => by
      by_cases hsame : other = tid
      · exact hsame ▸ htid
      · exact hrest other hsame
  refine h.congr hload (by rw [hpar]) (pick hreports fun other hne => by rw [hothers other hne])
    (pick htests fun other hne => by rw [hothers other hne])
    (pick hloads fun other hne => by rw [hothers other hne])
    (fun hpc => hpar ▸ hpc) (fun other hpc => h.answering other (hpar ▸ hpc))
    (pick (fun success hpc => .inl (hres success hpc)) fun other hne success => ?_)
  rw [hothers other hne]
  exact id

lemma choice_pending (hok : ExecUndisturbed s event) (ht : step s event = some t)
    (hpar : event ≠ .parent) (hchild : ∀ tid, event ≠ .child tid) : Pending t := by
  cases event with
  | parent => exact absurd rfl hpar
  | child tid => exact absurd rfl (hchild tid)
  | exec | wait tid =>
    simp only [step, Option.ite_none_right_eq_some, Option.some.injEq] at ht
    obtain ⟨hpc, rfl⟩ := ht
    have hidle := h.idle_of_pending (by simp [hpc, ParentPc.pending])
    refine .of_idle hidle ?_ ?_ ?_ ?_ <;> simp [parentTo, ParentPc.pending]
  | created tid =>
    simp only [step, Option.ite_none_right_eq_some, Option.some.injEq] at ht
    obtain ⟨⟨hpc, -, hunborn⟩, rfl⟩ := ht
    have hidle := h.idle_of_pending (by simp [hpc, ParentPc.pending])
    have hcleared := h.cleared hpc
    constructor <;> grind
  | createFailed =>
    simp only [step, Option.ite_none_right_eq_some, Option.some.injEq] at ht
    obtain ⟨hpc, rfl⟩ := ht
    obtain ⟨tid, -, htests⟩ := hok
    have hidle := h.idle_of_pending (by simp [hpc, ParentPc.pending])
    refine .of_idle hidle ?_ ?_ (fun _ => .inr ⟨h.cleared hpc, tid, htests⟩) ?_ <;>
      simp [parentTo, ParentPc.pending]
  | loaded tid success =>
    simp only [step, Option.ite_none_right_eq_some, Option.some.injEq] at ht
    obtain ⟨hpc, rfl⟩ := ht
    obtain ⟨h1, h2, h3, h4, h5, h6, h7⟩ := h
    constructor <;> grind
  | exit tid status | killed tid =>
    simp only [step, Option.ite_none_right_eq_some, Option.some.injEq] at ht
    obtain ⟨hpc, rfl⟩ := ht
    refine h.congr rfl rfl ?_ ?_ ?_ id h.answering ?_ <;> intro other <;> grind

lemma step_pending (hok : ExecUndisturbed s event) (ht : step s event = some t) : Pending t := by
  cases event with
  | parent => exact parentStep_pending h ht
  | child tid => exact childStep_pending h hok ht
  | _ => exact choice_pending h hok ht (by simp) (by simp)

end

/-! ## Sleeping in `sys_exec` -/

/-- While the parent sleeps in `sys_exec`, or is about to, some child will change
`child_load`, or has changed it and is about to signal. -/
def ExecAwaited (s : Processes) : Prop :=
  ∀ started, s.parent = .enqueue (.load started) ∨ s.parent.waiting = some
      (.load started) ∧ s.monitor.waiters ≠ [] → ∃ tid, s.childLoad = 0 ∧
      (s.child tid).pc.testsLoad = true ∨ s.childLoad ≠ 0 ∧ (s.child tid).pc.signalling = true

lemma ChildPc.testsLoad_of_reports (h : pc.reports = true) : pc.testsLoad = true := by
  cases pc <;> simp_all [ChildPc.reports, ChildPc.testsLoad]

lemma Pending.unanswered (h : Pending s) {started : Option Nat}
    (hpending : s.parent.pending = some started) (hload : s.childLoad = 0) :
    ∃ tid, (s.child tid).pc.testsLoad = true := by
  cases started with
  | none =>
    have hfailed := h.failed hpending
    rw [hload] at hfailed
    obtain ⟨-, tid, htests⟩ := hfailed.resolve_left (by decide)
    exact ⟨tid, htests⟩
  | some tid =>
    refine ⟨tid, ChildPc.testsLoad_of_reports ?_⟩
    by_contra hreports
    have hreported := h.reported tid hpending (by simpa using hreports)
    omega

lemma parentStep_execAwaited (hp : Pending s) (h : ExecAwaited s)
    (ht : parentStep s s.parent = some t) : ExecAwaited t := by
  have hpcs := fun tid => (parentStep_child ht tid).1
  intro started hwait
  simp only [hpcs]
  cases hpc : s.parent with
  | testLoad tid =>
    have hpending : s.parent.pending = some tid := by
      rw [hpc]
      rfl
    have hunanswered := hp.unanswered hpending
    grind [parentStep]
  | relock loop => cases loop <;> grind [parentStep, Loop.test]
  | _ => grind [parentStep, ExecAwaited]

lemma ChildPc.signalling_of_not_holds (h : pc.holds = false) : pc.signalling = false := by
  cases pc <;> simp_all [ChildPc.holds, ChildPc.signalling]

lemma childStep_execAwaited (hd : Disciplined s) (h : ExecAwaited s)
    (ht : childStep s tid (s.child tid).pc = some t) : ExecAwaited t := by
  intro started hwait
  obtain ⟨hpar, -, hothers⟩ := childStep_others ht
  rw [hpar] at hwait
  obtain ⟨other, hother⟩ := h started (hwait.imp_right fun hasleep =>
    ⟨hasleep.1, (childStep_waiters hd.queued ht hasleep.2).1⟩)
  rcases childStep_load ht with ⟨success, hpc, rfl⟩ | ⟨hpc, rfl⟩ | ⟨hload, -, -, htests, -⟩
  · exact ⟨tid, .inr (by grind)⟩
  · exact ⟨tid, .inr (by grind)⟩
  have hquiet : (s.child tid).pc.signalling = false := by
    rcases hwait with henqueue | ⟨-, hasleep⟩
    · have hout := hd.alone (by rw [henqueue]; rfl) tid
      exact ChildPc.signalling_of_not_holds hout
    · exact (childStep_waiters hd.queued ht hasleep).2
  refine ⟨other, ?_⟩
  by_cases hsame : other = tid
  · subst hsame
    have hchanges := hother.resolve_right (by simp [hquiet])
    exact .inl ⟨hload.trans hchanges.1, htests.trans hchanges.2⟩
  · rw [hload, hothers other hsame]
    exact hother

lemma step_execAwaited (hd : Disciplined s) (hp : Pending s)
    (h : ExecAwaited s) (ht : step s event = some t) : ExecAwaited t := by
  cases event with
  | parent => exact parentStep_execAwaited hp h ht
  | child tid => exact childStep_execAwaited hd h ht
  | _ =>
    obtain ⟨hmonitor, hwaiting, -⟩ := choice_quiet ht (by simp) (by simp)
    intro started hwait
    have hbefore : s.parent = .enqueue (.load started) ∨
        s.parent.waiting = some (.load started) ∧ s.monitor.waiters ≠ [] := by
      grind [step]
    obtain ⟨tid, htid⟩ := h started hbefore
    exact ⟨tid, by grind [step]⟩

lemma initial_pending : Pending .initial := by
  refine .of_idle (fun _ => rfl) ?_ ?_ ?_ ?_ <;> simp [initial, ParentPc.pending]

lemma initial_execAwaited : ExecAwaited .initial := by
  rintro started (h | ⟨h, -⟩) <;> simp [initial, ParentPc.waiting] at h

lemma ChildPc.signals_of_testsLoad (h : pc.testsLoad = true) : pc.signals = true := by
  cases pc <;> simp_all [ChildPc.testsLoad, ChildPc.signals]

lemma ChildPc.signals_of_signalling (h : pc.signalling = true) : pc.signals = true := by
  cases pc <;> simp_all [ChildPc.signalling, ChildPc.signals]

lemma ExecAwaited.not_stranded (hd : Disciplined s) (h : ExecAwaited s) : ¬ ExecStranded s := by
  unfold ExecStranded
  split
  · next started hsleep =>
      rintro ⟨hwoken, hnone⟩
      have hwaiting : s.parent.waiting = some (.load started) := by rw [hsleep]; rfl
      have hwait : s.monitor.waiters ≠ [] := by
        have hqueued := hd.queued
        grind [Queued]
      obtain ⟨tid, ⟨hload, htests⟩ | ⟨hload, hsignalling⟩⟩ := h started (.inr ⟨hwaiting, hwait⟩)
      · have hsignals := ChildPc.signals_of_testsLoad htests
        have hquiet := (hnone tid ((hd.listed tid).mpr (ChildPc.live_of_signals hsignals))).1 hload
        exact absurd htests (by simp [hquiet])
      have hsignals := ChildPc.signals_of_signalling hsignalling
      have hquiet := (hnone tid ((hd.listed tid).mpr (ChildPc.live_of_signals hsignals))).2 hload
      exact absurd hsignals (by simp [hquiet])
  · exact id

/-! ## The answers -/

def Unloaded (s : Processes) : Prop :=
  ∀ tid, (s.child tid).pc = .unborn ∨ (s.child tid).pc = .load → (s.child tid).load = none

lemma childStep_started (ht : childStep s tid (s.child tid).pc = some t) (other : Nat)
    (h : (t.child other).pc = .unborn ∨ (t.child other).pc = .load) :
    (s.child other).pc = .unborn ∨ (s.child other).pc = .load := by
  by_cases hsame : other = tid
  · subst hsame
    cases hpc : (s.child other).pc <;> grind [childStep]
  · rwa [(childStep_others ht).2.2 other hsame] at h

lemma step_unloaded (h : Unloaded s) (ht : step s event = some t) : Unloaded t := by
  intro tid hpc
  cases event with
  | parent =>
    obtain ⟨hpcs, hloads, -⟩ := parentStep_child ht tid
    rw [hloads]
    exact h tid (hpcs ▸ hpc)
  | child other =>
    rw [(childStep_child ht tid).1]
    exact h tid (childStep_started ht tid hpc)
  | _ => have := h tid; grind [step]

lemma step_load (hunloaded : Unloaded s) (ht : step s event = some t)
    (h : (s.child tid).load ≠ none) : (t.child tid).load = (s.child tid).load := by
  cases event with
  | parent => exact (parentStep_child ht tid).2.1
  | child other => exact (childStep_child ht tid).1
  | _ => have := hunloaded tid; grind [step]

def Settled (s : Processes) (exec : Exec) : Prop :=
  Answered s exec ∧ ∀ tid, exec.started = some tid → (s.child tid).load ≠ none

structure Answers (s : Processes) : Prop where
  unloaded : Unloaded s
  settled : ∀ exec, exec ∈ s.execs ∨ s.parent = .unlockLoad exec.started exec.result →
    Settled s exec

lemma Pending.settled (h : Pending s) (hpc : s.parent = .answer exec.started)
    (hres : exec.result = if s.childLoad = -1 then none else exec.started) : Settled s exec := by
  have hpending : s.parent.pending = some exec.started := by rw [hpc]; rfl
  cases hstarted : exec.started with
  | none => simp [Settled, Answered, hres, hstarted]
  | some tid =>
    rw [hstarted] at hpending
    have hidle := h.idle_of_load (h.answering _ hpc) tid
    rcases h.reported tid hpending hidle with ⟨hload, hval⟩ | ⟨hload, hval⟩ <;>
      simp [Settled, Answered, hres, hstarted, hload, hval]

lemma Settled.of_load (h : Settled s exec)
    (hload : ∀ tid, (s.child tid).load ≠ none → (t.child tid).load = (s.child tid).load) :
    Settled t exec := by
  obtain ⟨hanswered, hloaded⟩ := h
  cases hstarted : exec.started with
  | none => simpa [Settled, Answered, hstarted] using hanswered
  | some tid =>
    have hsame := hload tid (hloaded tid hstarted)
    have hstill := hloaded tid hstarted
    simp only [Answered, hstarted, Option.bind_some] at hanswered
    simp [Settled, Answered, hstarted, hsame, hanswered, hstill]

lemma step_exec_origin (ht : step s event = some t)
    (h : exec ∈ t.execs ∨ t.parent = .unlockLoad exec.started exec.result) :
    (exec ∈ s.execs ∨ s.parent = .unlockLoad exec.started exec.result) ∨
      s.parent = .answer exec.started ∧
        exec.result = if s.childLoad = -1 then none else exec.started := by
  cases event with
  | parent =>
    cases hpc : s.parent with
    | relock loop => cases loop <;> grind [step, parentStep, Loop.test]
    | _ => grind [step, parentStep]
  | child tid =>
    obtain ⟨hpar, hexecs, -⟩ := childStep_others ht
    rw [hpar, hexecs] at h
    exact .inl h
  | _ => grind [step]

lemma step_answers (hp : Pending s) (h : Answers s) (ht : step s event = some t) : Answers t where
  unloaded := step_unloaded h.unloaded ht
  settled exec hexec := by
    refine Settled.of_load ?_ fun tid => step_load h.unloaded ht
    rcases step_exec_origin ht hexec with hold | ⟨hpc, hres⟩
    · exact h.settled exec hold
    · exact hp.settled hpc hres

lemma initial_answers : Answers .initial where
  unloaded _ _ := rfl
  settled exec h := absurd h (by simp [initial])

/-- In every run of undisturbed steps each `sys_exec` that has returned has answered for
the child it started, and the parent is never asleep in `sys_exec` for good. -/
theorem exec_answers_of_run (events : List Event)
    (hok : Meets step ExecUndisturbed .initial events) : ∀ s ∈ run step .initial events,
      (∀ exec ∈ s.execs, Answered s exec) ∧ ¬ ExecStranded s := by
  intro s hs
  obtain ⟨hd, -, hawaited, hanswers⟩ := run_invariant
    (I := fun s => Disciplined s ∧ Pending s ∧ ExecAwaited s ∧ Answers s)
    (fun s event t ⟨hd, hp, hawaited, hanswers⟩ hok ht =>
      ⟨step_disciplined hd ht, step_pending hp hok ht, step_execAwaited hd hp hawaited ht,
        step_answers hp hanswers ht⟩)
    ⟨initial_disciplined, initial_pending, initial_execAwaited, initial_answers⟩ hok hs
  exact ⟨fun exec hexec => (hanswers.settled exec (.inl hexec)).1, hawaited.not_stranded hd⟩

theorem exec_answers_two_children :
    Meets step ExecUndisturbed .initial (execAndLoad 3 true ++ execAndLoad 4 false) ∧
      ∀ s ∈ run step .initial (execAndLoad 3 true ++ execAndLoad 4 false),
        (∀ exec ∈ s.execs, Answered s exec) ∧ ¬ ExecStranded s :=
  have hok : Meets step ExecUndisturbed .initial (execAndLoad 3 true ++ execAndLoad 4 false) := by
    decide +kernel
  ⟨hok, exec_answers_of_run _ hok⟩

def siblingDies : List Event :=
  execAndLoad 3 true ++ [.exec, .parent, .created 4, .parent, .killed 3] ++
    List.replicate 4 (.child 3) ++ List.replicate 4 .parent ++ [.loaded 4 true]

/-- The exit of a sibling answers -1 for a child that loads; and when the first
`thread_create` fails, nobody is left who could answer. -/
theorem sys_exec_disturbed :
    (∃ s ∈ run step .initial siblingDies, ∃ exec ∈ s.execs, ¬ Answered s exec) ∧
      ∃ s ∈ run step .initial ([.exec, .parent, .createFailed] ++ List.replicate 4 .parent),
        ExecStranded s := by
  decide +kernel

end Pintos.Userprog
