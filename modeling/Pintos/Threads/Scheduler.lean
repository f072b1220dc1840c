import Pintos.Foundation.Transition
import Pintos.Lib.Debug

/-!
# The scheduler

`threads/thread.c`.  A thread is named by the page of its `struct thread`, and a
page is not named again once it was freed.  `status` is empty where there is no
thread.  A thread that waits on a semaphore has its `elem` in the list of
waiters of that semaphore.  The last four fields record what has happened.
-/

namespace Pintos.Threads

open Foundation

inductive ThreadStatus where
  | running
  | ready
  | blocked
  | dying
  deriving DecidableEq, Repr

structure Dispatch where
  thread : Nat
  wasEmpty : Bool
  deriving DecidableEq, Repr

structure Sched where
  status : Nat → Option ThreadStatus
  current : Nat
  readyList : List Nat
  waiters : Nat → List Nat
  idleThread : Option Nat
  initialThread : Nat
  threadTicks : Nat
  nextPage : Nat
  /-- The threads that became ready, but for `idle_thread`. -/
  enqueued : List Nat
  dispatches : List Dispatch
  exited : List Nat
  /-- The pages that were freed, each with the thread that ran then. -/
  frees : List (Nat × Nat)

abbrev SchedAction := Action Sched Fault

namespace Sched

@[simps -fullyApplied] def setStatus (s : Sched) (t : Nat) (status : Option ThreadStatus) : Sched :=
  { s with status := update s.status t status }

@[simps -fullyApplied] def setReadyList (s : Sched) (readyList : List Nat) : Sched :=
  { s with readyList }

/-- `list_push_back (&ready_list, &t->elem)`. -/
@[simps -fullyApplied] def pushReady (s : Sched) (t : Nat) : Sched :=
  { s with readyList := s.readyList ++ [t], enqueued := s.enqueued ++ [t] }

@[simps -fullyApplied] def setWaiters (s : Sched) (queue : Nat) (waiters : List Nat) : Sched :=
  { s with waiters := update s.waiters queue waiters }

@[simps -fullyApplied] def setTicks (s : Sched) (threadTicks : Nat) : Sched :=
  { s with threadTicks }

@[simps -fullyApplied] def switchTo (s : Sched) (next : Nat) (wasEmpty : Bool) : Sched :=
  { s with current := next, dispatches := s.dispatches ++ [⟨next, wasEmpty⟩] }

@[simps -fullyApplied] def noteExit (s : Sched) : Sched :=
  { s with exited := s.exited ++ [s.current] }

@[simps -fullyApplied] def freePage (s : Sched) (t : Nat) : Sched :=
  { s with status := update s.status t none, frees := s.frees ++ [(t, s.current)] }

@[simps -fullyApplied] def newThread (s : Sched) : Sched :=
  { s with
    status := update s.status s.nextPage (some .blocked)
    nextPage := s.nextPage + 1 }

end Sched

def timeSlice : Nat := 4

def threadCurrent : SchedAction Nat := do
  let s ← Action.get
  require (s.status s.current ≠ none) (.assertion "is_thread (t)")
  require (s.status s.current = some .running) (.assertion "t->status == THREAD_RUNNING")
  return s.current

def nextThreadToRun : SchedAction (Option Nat) := do
  let s ← Action.get
  match s.readyList with
  | [] => return s.idleThread
  | t :: rest => do
    Action.modify (·.setReadyList rest)
    return some t

/-- The end of `thread_schedule_tail`; `prev` is empty when the thread goes on that ran before. -/
def destroyDying (prev : Option Nat) : SchedAction Unit := do
  let s ← Action.get
  match prev with
  | none => return ()
  | some prev =>
    if s.status prev = some .dying ∧ prev ≠ s.initialThread then do
      require (prev ≠ s.current) (.assertion "prev != cur")
      Action.modify (·.freePage prev)

def threadScheduleTail (prev : Option Nat) : SchedAction Unit := do
  Action.modify fun s => (s.setStatus s.current (some .running)).setTicks 0
  destroyDying prev

def schedule : SchedAction Unit := do
  let s ← Action.get
  let next ← nextThreadToRun
  require (s.status s.current ≠ some .running) (.assertion "cur->status != THREAD_RUNNING")
  match next with
  | none => stop (.assertion "is_thread (next)")
  | some next => do
    require (s.status next ≠ none) (.assertion "is_thread (next)")
    Action.modify (·.switchTo next s.readyList.isEmpty)
    threadScheduleTail (if s.current ≠ next then some s.current else none)

def threadBlock : SchedAction Unit := do
  let cur ← threadCurrent
  Action.modify (·.setStatus cur (some .blocked))
  schedule

def threadUnblock (t : Nat) : SchedAction Unit := do
  let s ← Action.get
  require (s.status t ≠ none) (.assertion "is_thread (t)")
  require (s.status t = some .blocked) (.assertion "t->status == THREAD_BLOCKED")
  Action.modify fun s => (s.pushReady t).setStatus t (some .ready)

def threadYield : SchedAction Unit := do
  let cur ← threadCurrent
  let s ← Action.get
  if s.idleThread ≠ some cur then Action.modify (·.pushReady cur)
  Action.modify (·.setStatus cur (some .ready))
  schedule

def threadExit : SchedAction Unit := do
  let cur ← threadCurrent
  Action.modify fun s => (s.setStatus cur (some .dying)).noteExit
  schedule

def threadTick : SchedAction Unit := do
  let _ ← threadCurrent
  Action.modify fun s => s.setTicks (s.threadTicks + 1)
  let s ← Action.get
  if s.threadTicks ≥ timeSlice then threadYield

def pushWaiter (queue : Nat) : SchedAction Unit := do
  let cur ← threadCurrent
  Action.modify fun s => s.setWaiters queue (s.waiters queue ++ [cur])

def wakeFirst (queue : Nat) : SchedAction Unit := do
  let s ← Action.get
  match s.waiters queue with
  | [] => return ()
  | t :: rest => do
    Action.modify (·.setWaiters queue rest)
    threadUnblock t

/-! ## Steps -/

inductive SchedEvent where
  /-- `thread_create` up to its `thread_unblock`, which is an event of its own. -/
  | create
  /-- `thread_block`, for a semaphore or without one. -/
  | block (queue : Option Nat)
  | unblock (t : Nat)
  | wake (queue : Nat)
  | yield
  | tick
  | exit
  deriving DecidableEq, Repr

def perform : SchedEvent → SchedAction Unit
  | .create => Action.modify Sched.newThread
  | .block none => threadBlock
  | .block (some queue) => do
    pushWaiter queue
    threadBlock
  | .unblock t => threadUnblock t
  | .wake queue => wakeFirst queue
  | .yield => threadYield
  | .tick => threadTick
  | .exit => threadExit

def schedStep (s : Sched) (event : SchedEvent) : Option Sched :=
  match perform event s with
  | .ok (_, t) => some t
  | .error _ => none

/-- The idle thread waits for nothing and does not exit, and `thread_unblock` is called for another
blocked thread whose `elem` is in no list. -/
def Allowed (s : Sched) : SchedEvent → Prop
  | .block (some _) | .exit => s.idleThread ≠ some s.current
  | .unblock t => s.status t = some .blocked ∧ s.idleThread ≠ some t ∧ ∀ queue, t ∉ s.waiters queue
  | _ => True

/-! ## The invariant -/

structure Consistent (s : Sched) : Prop where
  idle : ∃ i, s.idleThread = some i ∧ s.status i ≠ none ∧ s.status i ≠ some .dying
  ready : ∀ t, t ∈ s.readyList ↔ s.status t = some .ready ∧ s.idleThread ≠ some t
  nodup : s.readyList.Nodup
  waiting : ∀ queue, ∀ t ∈ s.waiters queue, s.status t = some .blocked ∧ s.idleThread ≠ some t
  waitersNodup : ∀ queue, (s.waiters queue).Nodup
  oneQueue : ∀ queue queue' t, t ∈ s.waiters queue → t ∈ s.waiters queue' → queue = queue'
  fresh : ∀ t, s.nextPage ≤ t → s.status t = none
  fifo : s.enqueued = (s.dispatches.filter (!·.wasEmpty)).map Dispatch.thread ++ s.readyList
  idleLast : ∀ d ∈ s.dispatches, s.idleThread = some d.thread ↔ d.wasEmpty = true
  freesNodup : (s.frees.map Prod.fst).Nodup
  freed : ∀ f ∈ s.frees, f.1 ≠ f.2 ∧ s.status f.1 = none ∧ f.1 ∈ s.exited
  dying : ∀ t, s.status t = some .dying → t ∈ s.exited
  exits : s.exited.Nodup
  exitedOld : ∀ t ∈ s.exited, t < s.nextPage

/-- A thread that has exited: its page was freed, unless it is not a page of the allocator. -/
def Gone (s : Sched) (t : Nat) : Prop :=
  if t = s.initialThread then s.status t = some .dying ∧ t ∉ s.frees.map Prod.fst
  else s.status t = none ∧ t ∈ s.frees.map Prod.fst

structure SchedOk (s : Sched) : Prop extends Consistent s where
  running : ∀ t, s.status t = some .running ↔ t = s.current
  gone : ∀ t ∈ s.exited, Gone s t

structure Switching (s : Sched) : Prop extends Consistent s where
  quiet : ∀ t, s.status t ≠ some .running
  alive : s.status s.current ≠ none
  others : ∀ t ∈ s.exited, t ≠ s.current → Gone s t
  leaving : s.current ∈ s.exited →
    s.status s.current = some .dying ∧ s.current ∉ s.frees.map Prod.fst

def Awake (s : Sched) (t : Nat) : Prop := s.status t = some .ready ∨ s.status t = some .running

/-- Threads wait where they did, and no thread but `gone` stops being ready or running. -/
structure Keeps (s u : Sched) (gone : Option Nat) : Prop where
  idleThread : u.idleThread = s.idleThread
  waiters : u.waiters = s.waiters
  awake : ∀ t, gone ≠ some t → Awake s t → Awake u t

section Schedule

variable {s : Sched} {next : Nat} {rest : List Nat} {wasEmpty : Bool}

def started (s : Sched) (next : Nat) (rest : List Nat) (wasEmpty : Bool) : Sched :=
  (((s.setReadyList rest).switchTo next wasEmpty).setStatus next (some .running)).setTicks 0

structure Chosen (s : Sched) (next : Nat) (rest : List Nat) (wasEmpty : Bool) : Prop where
  alive : s.status next ≠ none
  old : next ∉ s.exited
  idle : s.idleThread = some next ↔ wasEmpty = true
  list : s.readyList = (if wasEmpty then [] else [next]) ++ rest

lemma Consistent.alive_of_ready (h : Consistent s) {t : Nat} (ht : t ∈ s.readyList) :
    s.status t = some .ready := ((h.ready t).mp ht).1

lemma Switching.not_exited (h : Switching s) {t : Nat} (halive : s.status t ≠ none)
    (hdying : s.status t ≠ some .dying) : t ∉ s.exited := by
  intro hmem
  by_cases hcur : t = s.current
  · subst hcur
    exact hdying (h.leaving hmem).1
  have hgone := h.others t hmem hcur
  unfold Gone at hgone
  split at hgone
  · exact hdying hgone.1
  · exact halive hgone.1

lemma Chosen.consistent (h : Switching s) (hc : Chosen s next rest wasEmpty) :
    Consistent (started s next rest wasEmpty) := by
  have hrest : ∀ t, t ∈ rest ↔ t ∈ s.readyList ∧ t ≠ next := by
    intro t
    have hnodup := h.nodup
    have hlist := hc.list
    cases wasEmpty with
    | true =>
      have hempty : next ∉ s.readyList := fun hmem => ((h.ready next).mp hmem).2 (hc.idle.mpr rfl)
      simp only [if_true, nil_append] at hlist
      rw [hlist] at hempty ⊢
      grind
    | false =>
      simp only [Bool.false_eq_true, if_false] at hlist
      rw [hlist] at hnodup ⊢
      grind
  have hstat : ∀ t, (started s next rest wasEmpty).status t =
      if t = next then some .running else s.status t := fun t => update_apply _ _ _ _
  have hne : ∀ t, s.status t = none → t ≠ next := fun t ht heq => hc.alive (heq ▸ ht)
  constructor
  · obtain ⟨i, hi, halive, hdying⟩ := h.idle
    refine ⟨i, hi, ?_⟩
    rw [hstat]
    split
    · simp
    · exact ⟨halive, hdying⟩
  · intro t
    rw [hstat]
    change t ∈ rest ↔ _ ∧ s.idleThread ≠ some t
    rw [hrest, h.ready]
    by_cases hnext : t = next
    · simp [hnext]
    · simp [hnext]
  · have hnodup := h.nodup
    rw [hc.list] at hnodup
    exact (nodup_append.mp hnodup).2.1
  · intro queue t ht
    obtain ⟨hblocked, hidle⟩ := h.waiting queue t ht
    have hnext : t ≠ next := by
      rintro rfl
      -- a thread that was chosen and is not the idle thread was ready
      have hempty : wasEmpty = false := by
        rw [← Bool.not_eq_true, ← hc.idle]
        exact hidle
      have hready : t ∈ s.readyList := by simp [hc.list, hempty]
      simp [h.alive_of_ready hready] at hblocked
    rw [hstat, if_neg hnext]
    exact ⟨hblocked, hidle⟩
  · exact h.waitersNodup
  · exact h.oneQueue
  · intro t ht
    have hnone := h.fresh t ht
    rw [hstat, if_neg (hne t hnone), hnone]
  · change s.enqueued = ((s.dispatches ++ [Dispatch.mk next wasEmpty]).filter
      fun d => !d.wasEmpty).map Dispatch.thread ++ rest
    rw [h.fifo, hc.list]
    cases wasEmpty with
    | true => simp
    | false => simp
  · intro d hd
    rcases mem_append.mp hd with hold | hnew
    · exact h.idleLast d hold
    rw [mem_singleton.mp hnew]
    exact hc.idle
  · exact h.freesNodup
  · intro f hf
    obtain ⟨hother, hnone, hexited⟩ := h.freed f hf
    refine ⟨hother, ?_, hexited⟩
    rw [hstat, if_neg (hne f.1 hnone), hnone]
  · intro t ht
    rw [hstat] at ht
    split at ht
    · simp at ht
    · exact h.dying t ht
  · exact h.exits
  · exact h.exitedOld

lemma Consistent.freePage (h : Consistent s) {t : Nat} (hdying : s.status t = some .dying)
    (hother : t ≠ s.current) (hfirst : t ∉ s.frees.map Prod.fst) : Consistent (s.freePage t) := by
  have hstat : ∀ u, (s.freePage t).status u = if u = t then none else s.status u :=
    fun u => update_apply _ _ _ _
  have hne : ∀ u, s.status u ≠ some .dying → u ≠ t := fun u hu heq => hu (heq ▸ hdying)
  constructor
  · obtain ⟨i, hi, halive, hlive⟩ := h.idle
    refine ⟨i, hi, ?_⟩
    rw [hstat, if_neg (hne i hlive)]
    exact ⟨halive, hlive⟩
  · intro u
    rw [hstat]
    change u ∈ s.readyList ↔ _ ∧ s.idleThread ≠ some u
    rw [h.ready]
    by_cases hu : u = t
    · simp [hu, hdying]
    · simp [hu]
  · exact h.nodup
  · intro queue u hu
    obtain ⟨hblocked, hidle⟩ := h.waiting queue u hu
    rw [hstat, if_neg (hne u (by simp [hblocked]))]
    exact ⟨hblocked, hidle⟩
  · exact h.waitersNodup
  · exact h.oneQueue
  · intro u hu
    rw [hstat]
    split
    · rfl
    · exact h.fresh u hu
  · exact h.fifo
  · exact h.idleLast
  · rw [Sched.freePage_frees, map_append, nodup_append]
    refine ⟨h.freesNodup, by simp, ?_⟩
    rintro u hu _ hlast rfl
    simp only [map_cons, map_nil, mem_singleton] at hlast
    exact hfirst (hlast ▸ hu)
  · intro f hf
    rw [hstat]
    rcases mem_append.mp hf with hold | hnew
    · obtain ⟨hne', hnone, hexited⟩ := h.freed f hold
      exact ⟨hne', by split <;> simp_all, hexited⟩
    · rw [mem_singleton.mp hnew]
      exact ⟨hother, if_pos rfl, h.dying t hdying⟩
  · intro u hu
    rw [hstat] at hu
    split at hu
    · simp at hu
    · exact h.dying u hu
  · exact h.exits
  · exact h.exitedOld

lemma Chosen.tail (h : Switching s) (hc : Chosen s next rest wasEmpty) :
    wp (threadScheduleTail (if s.current ≠ next then some s.current else none))
      (fun _ u => SchedOk u ∧ Keeps s u none) ((s.setReadyList rest).switchTo next wasEmpty) := by
  have hcons := hc.consistent h
  have hstat : ∀ t, (started s next rest wasEmpty).status t =
      if t = next then some .running else s.status t := fun t => update_apply _ _ _ _
  have hrun : ∀ t, (started s next rest wasEmpty).status t = some .running ↔ t = next := by
    intro t
    rw [hstat]
    by_cases ht : t = next
    · simp [ht]
    · simp [ht, h.quiet t]
  have hgone : ∀ t ∈ s.exited, t ≠ s.current → Gone (started s next rest wasEmpty) t := by
    intro t ht hcur
    have hnext : t ≠ next := fun heq => hc.old (heq ▸ ht)
    have hold := h.others t ht hcur
    unfold Gone at hold ⊢
    rw [hstat, if_neg hnext]
    exact hold
  have hcurrent : (started s next rest wasEmpty).current = next := rfl
  have hinitial : (started s next rest wasEmpty).initialThread = s.initialThread := rfl
  have hexited : (started s next rest wasEmpty).exited = s.exited := rfl
  have hfrees : (started s next rest wasEmpty).frees = s.frees := rfl
  have hkeeps : Keeps s (started s next rest wasEmpty) none := by
    refine ⟨rfl, rfl, fun t _ ht => ?_⟩
    rw [Awake, hstat]
    split
    · exact .inr rfl
    · exact ht
  rw [threadScheduleTail, wp_bind, wp_modify]
  change wp _ _ (started s next rest wasEmpty)
  generalize started s next rest wasEmpty = u at *
  by_cases hsame : s.current = next
  · simp only [hsame, ne_eq, not_true_eq_false, if_false, destroyDying, wp_bind, wp_get, wp_pure]
    refine ⟨⟨hcons, by simpa [hcurrent] using hrun, fun t ht => ?_⟩, hkeeps⟩
    rw [hexited] at ht
    exact hgone t ht fun heq => hc.old (hsame ▸ heq ▸ ht)
  have hprev : u.status s.current = s.status s.current := by rw [hstat, if_neg hsame]
  simp only [ne_eq, hsame, not_false_eq_true, if_true, destroyDying, wp_bind,
    wp_get, wp_ite, wp_require, wp_modify, wp_pure, hprev, hinitial, hcurrent]
  split
  · next hdying =>
      have hfirst := (h.leaving (h.dying _ hdying.1)).2
      refine ⟨trivial, ⟨hcons.freePage (hprev.trans hdying.1) (hcurrent ▸ hsame)
        (hfrees ▸ hfirst), fun t => ?_, fun t ht => ?_⟩, hkeeps.idleThread, hkeeps.waiters,
        fun t _ ht => ?_⟩
      · rw [Sched.freePage_status, update_apply, Sched.freePage_current, hcurrent]
        split
        · next heq => simp [heq, hsame]
        · exact hrun t
      · by_cases hcur : t = s.current
        · subst hcur
          rw [Gone, Sched.freePage_initialThread, hinitial, if_neg hdying.2]
          simp
        have hold := hgone t (hexited ▸ ht) hcur
        unfold Gone at hold ⊢
        simpa [update_of_ne hcur, hcur] using hold
      · have hne : t ≠ s.current := by
          rintro rfl
          simp [Awake, hdying.1] at ht
        rw [Awake, Sched.freePage_status, update_of_ne hne]
        exact hkeeps.awake t (by simp) ht
  · next hstay =>
      refine ⟨⟨hcons, by simpa [hcurrent] using hrun, fun t ht => ?_⟩, hkeeps⟩
      rw [hexited] at ht
      by_cases hcur : t = s.current
      · subst hcur
        obtain ⟨hdying, hfirst⟩ := h.leaving ht
        have hspared : s.current = s.initialThread := by
          by_contra hother
          exact hstay ⟨hdying, hother⟩
        rw [Gone, hinitial, if_pos hspared, hfrees]
        exact ⟨hprev.trans hdying, hfirst⟩
      · exact hgone t ht hcur

lemma schedule_ok (h : Switching s) : wp schedule (fun _ u => SchedOk u ∧ Keeps s u none) s := by
  obtain ⟨i, hi, halive, hdying⟩ := h.idle
  simp only [schedule, nextThreadToRun, wp_bind, wp_get]
  cases hlist : s.readyList with
  | nil =>
    have hchosen : Chosen s i [] true := ⟨halive, h.not_exited halive hdying, by simp [hi], hlist⟩
    have hset : s.setReadyList [] = s := by rw [← hlist]; rfl
    simp only [wp_pure, hi, wp_bind, wp_require, wp_modify]
    refine ⟨h.quiet _, halive, ?_⟩
    have htail := hchosen.tail h
    rw [hset] at htail
    exact htail
  | cons next rest =>
    have hmem : next ∈ s.readyList := by simp [hlist]
    obtain ⟨hready, hidle⟩ := (h.ready next).mp hmem
    have hchosen : Chosen s next rest false :=
      ⟨by simp [hready], h.not_exited (by simp [hready]) (by simp [hready]), by simp [hidle],
        by simp [hlist]⟩
    simp only [wp_bind, wp_modify, wp_pure, wp_require]
    exact ⟨h.quiet _, by simp [hready], hchosen.tail h⟩

end Schedule

end Pintos.Threads
