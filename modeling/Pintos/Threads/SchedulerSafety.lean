import Pintos.Threads.Scheduler

/-!
# Safety of the scheduler

Every call into the scheduler keeps its queues in order: the current thread first
leaves a state in which nobody runs, and `schedule` hands the processor on.
-/

namespace Pintos.Threads

open Foundation

variable {t : Nat} {status : ThreadStatus} {event : SchedEvent} {s : Sched}

/-! ## The events -/

section Events

variable {u : Sched}

structure Leaves (s u : Sched) (status : ThreadStatus) : Prop where
  status_eq : u.status = update s.status s.current (some status)
  current : u.current = s.current
  idleThread : u.idleThread = s.idleThread
  initialThread : u.initialThread = s.initialThread
  nextPage : u.nextPage = s.nextPage
  dispatches : u.dispatches = s.dispatches
  frees : u.frees = s.frees
  pushed : ∃ new, u.readyList = s.readyList ++ new ∧ u.enqueued = s.enqueued ++ new ∧
    new = if status = .ready ∧ s.idleThread ≠ some s.current then [s.current] else []
  waiters : ∀ queue, u.waiters queue = s.waiters queue ∨
    u.waiters queue = s.waiters queue ++ [s.current] ∧ status = .blocked ∧
      s.idleThread ≠ some s.current
  oneQueue : ∀ queue queue', s.current ∈ u.waiters queue → s.current ∈ u.waiters queue' →
    queue = queue'
  exited : u.exited = s.exited ++ if status = .dying then [s.current] else []

section

variable (h : SchedOk s)

include h

lemma SchedOk.current_running : s.status s.current = some .running :=
  (h.running s.current).mpr rfl

lemma SchedOk.current_not_ready : s.current ∉ s.readyList := by
  intro hmem
  have := h.alive_of_ready hmem
  simp [h.current_running] at this

lemma SchedOk.current_not_waiting (queue : Nat) : s.current ∉ s.waiters queue := by
  intro hmem
  have := (h.waiting queue s.current hmem).1
  simp [h.current_running] at this

lemma SchedOk.not_exited (halive : s.status t ≠ none)
    (hdying : s.status t ≠ some .dying) : t ∉ s.exited := by
  intro hmem
  have hgone := h.gone t hmem
  unfold Gone at hgone
  split at hgone
  · exact hdying hgone.1
  · exact halive hgone.1

lemma Leaves.switching (hl : Leaves s u status) (hstat : status ≠ .running)
    (hidle : status = .dying → s.idleThread ≠ some s.current) : Switching u := by
  have hval : ∀ t, u.status t = if t = s.current then some status else s.status t := by
    intro t
    rw [hl.status_eq]
    exact update_apply _ _ _ _
  have hcur := h.current_running
  have hold : s.current ∉ s.exited := h.not_exited (by simp [hcur]) (by simp [hcur])
  obtain ⟨new, hready, henqueued, hnew⟩ := hl.pushed
  have hmemNew : ∀ t, t ∈ new ↔ t = s.current ∧ status = .ready ∧ s.idleThread ≠ some t := by
    intro t
    rw [hnew]
    split <;> grind
  have hwait : ∀ queue t, t ∈ u.waiters queue →
      t ∈ s.waiters queue ∨ t = s.current ∧ status = .blocked ∧ s.idleThread ≠ some t := by
    intro queue t ht
    rcases hl.waiters queue with hsame | ⟨hpushed, hblocked, hnot⟩
    · exact .inl (hsame ▸ ht)
    rw [hpushed] at ht
    grind
  have hfreed : ∀ f ∈ s.frees, f.1 ≠ s.current := by
    intro f hf heq
    have := (h.freed f hf).2.1
    simp [heq, hcur] at this
  have hexited : ∀ t ∈ u.exited, t ∈ s.exited ∨ t = s.current ∧ status = .dying := by
    intro t ht
    rw [hl.exited] at ht
    split at ht <;> grind
  constructor
  · constructor
    · obtain ⟨i, hi, halive, hdying⟩ := h.idle
      refine ⟨i, hl.idleThread ▸ hi, ?_⟩
      rw [hval]
      split
      · next heq =>
          refine ⟨by simp, fun hdie => ?_⟩
          exact hidle (some.inj hdie) (heq ▸ hi)
      · exact ⟨halive, hdying⟩
    · intro t
      rw [hready, mem_append, hmemNew, h.ready, hval, hl.idleThread]
      have hcur' := h.current_not_ready
      grind
    · rw [hready, nodup_append]
      refine ⟨h.nodup, ?_, ?_⟩
      · rw [hnew]
        split <;> simp
      · rintro t ht _ hlast rfl
        exact h.current_not_ready (((hmemNew t).mp hlast).1 ▸ ht)
    · intro queue t ht
      rw [hval, hl.idleThread]
      rcases hwait queue t ht with hold' | ⟨rfl, rfl, hnot⟩
      · have hne : t ≠ s.current := fun heq => h.current_not_waiting queue (heq ▸ hold')
        rw [if_neg hne]
        exact h.waiting queue t hold'
      · exact ⟨if_pos rfl, hnot⟩
    · intro queue
      rcases hl.waiters queue with hsame | ⟨hpushed, -, -⟩
      · rw [hsame]
        exact h.waitersNodup queue
      rw [hpushed, nodup_append]
      refine ⟨h.waitersNodup queue, by simp, ?_⟩
      rintro t ht _ hlast rfl
      exact h.current_not_waiting queue (mem_singleton.mp hlast ▸ ht)
    · intro queue queue' t ht ht'
      by_cases hc : t = s.current
      · subst hc
        exact hl.oneQueue queue queue' ht ht'
      refine h.oneQueue queue queue' t ?_ ?_
      · exact (hwait queue t ht).resolve_right fun hr => hc hr.1
      · exact (hwait queue' t ht').resolve_right fun hr => hc hr.1
    · intro t ht
      rw [hl.nextPage] at ht
      have hnone := h.fresh t ht
      rw [hval, if_neg, hnone]
      rintro rfl
      simp [hcur] at hnone
    · rw [henqueued, hready, hl.dispatches, h.fifo, append_assoc]
    · rw [hl.dispatches, hl.idleThread]
      exact h.idleLast
    · rw [hl.frees]
      exact h.freesNodup
    · intro f hf
      rw [hl.frees] at hf
      obtain ⟨hother, hnone, hmem⟩ := h.freed f hf
      rw [hval, if_neg (hfreed f hf), hl.exited]
      exact ⟨hother, hnone, mem_append_left _ hmem⟩
    · intro t ht
      rw [hval] at ht
      rw [hl.exited]
      split at ht
      · next heq =>
          cases ht
          simp [heq]
      · exact mem_append_left _ (h.dying t ht)
    · rw [hl.exited, nodup_append]
      refine ⟨h.exits, by split <;> simp, ?_⟩
      rintro t ht _ hlast rfl
      split at hlast
      · exact hold (mem_singleton.mp hlast ▸ ht)
      · simp at hlast
    · intro t ht
      rw [hl.nextPage]
      rcases hexited t ht with hmem | ⟨rfl, -⟩
      · exact h.exitedOld t hmem
      by_contra hge
      have := h.fresh s.current (by omega)
      simp [hcur] at this
  · intro t
    rw [hval]
    split
    · simpa using hstat
    · next hne => exact fun hrun => hne ((h.running t).mp hrun)
  · rw [hl.current, hval, if_pos rfl]
    simp
  · intro t ht hne
    rw [hl.current] at hne
    have hmem := (hexited t ht).resolve_right fun hr => hne hr.1
    have hgone := h.gone t hmem
    unfold Gone at hgone ⊢
    rw [hval, if_neg hne, hl.initialThread, hl.frees]
    exact hgone
  · intro hmem
    rw [hl.current] at hmem ⊢
    rcases hexited _ hmem with hmem' | ⟨-, rfl⟩
    · exact absurd hmem' hold
    refine ⟨by rw [hval, if_pos rfl], ?_⟩
    rw [hl.frees]
    intro hf
    obtain ⟨f, hf, heq⟩ := mem_map.mp hf
    exact hfreed f hf heq

lemma Leaves.schedule (hl : Leaves s u status)
    (hstat : status ≠ .running) (hidle : status = .dying → s.idleThread ≠ some s.current) :
    wp schedule (fun _ v => SchedOk v ∧ v.idleThread = s.idleThread ∧
      v.waiters = u.waiters ∧ ∀ t, (t = s.current → status = .ready) → Awake s t →
      Awake v t) u := by
  refine wp_mono (schedule_ok (hl.switching h hstat hidle)) ?_
  rintro _ v ⟨hv, hkeeps⟩
  refine ⟨hv, hkeeps.idleThread.trans hl.idleThread, hkeeps.waiters,
    fun t hleft ht => hkeeps.awake t (by simp) ?_⟩
  rw [Awake, hl.status_eq, update_apply]
  split
  · next heq => exact .inl (by rw [hleft heq])
  · exact ht

lemma wp_threadCurrent (Q : Nat → Sched → Prop) : wp threadCurrent Q s ↔ Q s.current s := by
  simp [threadCurrent, h.current_running]

lemma threadBlock_ok : wp threadBlock (fun _ u => SchedOk u ∧ Keeps s u (some s.current)) s := by
  have hl : Leaves s (s.setStatus s.current (some .blocked)) .blocked :=
    ⟨rfl, rfl, rfl, rfl, rfl, rfl, rfl, ⟨[], by simp⟩, fun _ => .inl rfl,
      fun queue _ hmem => absurd hmem (h.current_not_waiting queue), by simp⟩
  simp only [threadBlock, wp_bind, wp_threadCurrent h, wp_modify]
  refine wp_mono (hl.schedule h (by simp) (by simp)) ?_
  rintro _ u ⟨hu, hthread, hwait, hawake⟩
  exact ⟨hu, hthread, hwait, fun t ht => hawake t fun heq => absurd (heq ▸ rfl) ht⟩

lemma waitOn_ok (hidle : s.idleThread ≠ some s.current) (queue : Nat) :
    wp (do pushWaiter queue; threadBlock) (fun _ u => SchedOk u ∧
      Keeps (s.setWaiters queue (s.waiters queue ++ [s.current])) u (some s.current)) s := by
  have hcur := h.current_running
  have hcurrent : ∀ (Q : Nat → Sched → Prop),
      wp threadCurrent Q (s.setWaiters queue (s.waiters queue ++ [s.current])) ↔
        Q s.current (s.setWaiters queue (s.waiters queue ++ [s.current])) := by
    intro Q
    simp [threadCurrent, hcur]
  have hl : Leaves s ((s.setWaiters queue (s.waiters queue ++ [s.current])).setStatus s.current
      (some .blocked)) .blocked := by
    refine ⟨rfl, rfl, rfl, rfl, rfl, rfl, rfl, ⟨[], by simp⟩, fun other => ?_,
      fun first second hfirst hsecond => ?_, by simp⟩
    · by_cases heq : other = queue
      · subst heq
        exact .inr ⟨by simp, rfl, hidle⟩
      · exact .inl (by simp [heq])
    · have hone : ∀ other, s.current ∈ update s.waiters queue
          (s.waiters queue ++ [s.current]) other → other = queue := by
        intro other hother
        by_contra hne
        rw [update_of_ne hne] at hother
        exact h.current_not_waiting other hother
      exact (hone first hfirst).trans (hone second hsecond).symm
  simp only [pushWaiter, threadBlock, wp_bind, wp_threadCurrent h, wp_modify, hcurrent]
  refine wp_mono (hl.schedule h (by simp) (by simp)) ?_
  rintro _ u ⟨hu, hthread, hwait, hawake⟩
  exact ⟨hu, hthread, hwait, fun t ht => hawake t fun heq => absurd (heq ▸ rfl) ht⟩

lemma threadYield_ok : wp threadYield (fun _ u => SchedOk u ∧ Keeps s u none) s := by
  have hwaiting : ∀ queue queue', s.current ∈ s.waiters queue → s.current ∈ s.waiters queue' →
      queue = queue' := fun queue _ hmem => absurd hmem (h.current_not_waiting queue)
  simp only [threadYield, wp_bind, wp_threadCurrent h, wp_get, wp_ite, wp_modify]
  split
  · next hother =>
      have hl : Leaves s ((s.pushReady s.current).setStatus s.current (some .ready)) .ready :=
        ⟨rfl, rfl, rfl, rfl, rfl, rfl, rfl, ⟨[s.current], rfl, rfl, by simp [hother]⟩,
          fun _ => .inl rfl, hwaiting, by simp⟩
      refine wp_mono (hl.schedule h (by simp) (by simp)) ?_
      rintro _ u ⟨hu, hthread, hwait, hawake⟩
      exact ⟨hu, hthread, hwait, fun t _ => hawake t fun _ => rfl⟩
  · next hidle =>
      have hl : Leaves s (s.setStatus s.current (some .ready)) .ready :=
        ⟨rfl, rfl, rfl, rfl, rfl, rfl, rfl, ⟨[], by simp [hidle]⟩, fun _ => .inl rfl, hwaiting,
          by simp⟩
      refine wp_mono (hl.schedule h (by simp) (by simp)) ?_
      rintro _ u ⟨hu, hthread, hwait, hawake⟩
      exact ⟨hu, hthread, hwait, fun t _ => hawake t fun _ => rfl⟩

lemma threadExit_ok (hidle : s.idleThread ≠ some s.current) :
    wp threadExit (fun _ u => SchedOk u ∧ Keeps s u (some s.current)) s := by
  have hl : Leaves s (s.setStatus s.current (some .dying)).noteExit .dying :=
    ⟨rfl, rfl, rfl, rfl, rfl, rfl, rfl, ⟨[], by simp⟩, fun _ => .inl rfl,
      fun queue _ hmem => absurd hmem (h.current_not_waiting queue), by simp⟩
  simp only [threadExit, wp_bind, wp_threadCurrent h, wp_modify]
  refine wp_mono (hl.schedule h (by simp) fun _ => hidle) ?_
  rintro _ u ⟨hu, hthread, hwait, hawake⟩
  exact ⟨hu, hthread, hwait, fun t ht => hawake t fun heq => absurd (heq ▸ rfl) ht⟩

lemma SchedOk.setTicks (n : Nat) : SchedOk (s.setTicks n) :=
  ⟨⟨h.idle, h.ready, h.nodup, h.waiting, h.waitersNodup, h.oneQueue, h.fresh, h.fifo, h.idleLast,
    h.freesNodup, h.freed, h.dying, h.exits, h.exitedOld⟩, h.running, h.gone⟩

lemma threadTick_ok : wp threadTick (fun _ u => SchedOk u ∧ Keeps s u none) s := by
  simp only [threadTick, wp_bind, wp_threadCurrent h, wp_modify, wp_get, wp_ite, wp_pure]
  split
  · exact wp_mono (threadYield_ok (h.setTicks _)) fun _ u hu => ⟨hu.1, hu.2.1, hu.2.2, hu.2.3⟩
  · exact ⟨h.setTicks _, rfl, rfl, fun _ _ ht => ht⟩

lemma SchedOk.newThread : SchedOk s.newThread := by
  have hval : ∀ t, s.newThread.status t =
      if t = s.nextPage then some .blocked else s.status t := fun t => update_apply _ _ _ _
  have hnone := h.fresh s.nextPage (le_refl _)
  have hne : ∀ t, s.status t ≠ none → t ≠ s.nextPage := fun t ht heq => ht (heq ▸ hnone)
  have hexited : ∀ t ∈ s.exited, t ≠ s.nextPage := fun t ht heq =>
    absurd (h.exitedOld t ht) (by omega)
  refine ⟨⟨?_, ?_, h.nodup, ?_, h.waitersNodup, h.oneQueue, ?_, h.fifo, h.idleLast, h.freesNodup,
    ?_, ?_, h.exits, ?_⟩, ?_, ?_⟩
  · obtain ⟨i, hi, halive, hdying⟩ := h.idle
    exact ⟨i, hi, by rw [hval, if_neg (hne i halive)]; exact ⟨halive, hdying⟩⟩
  · intro t
    rw [hval]
    change t ∈ s.readyList ↔ _ ∧ s.idleThread ≠ some t
    rw [h.ready]
    by_cases ht : t = s.nextPage
    · simp [ht, hnone]
    · simp [ht]
  · intro queue t ht
    have hwait := h.waiting queue t ht
    rw [hval, if_neg (hne t (by simp [hwait.1]))]
    exact hwait
  · intro t ht
    have hge : s.nextPage + 1 ≤ t := ht
    rw [hval, if_neg (by omega)]
    exact h.fresh t (by omega)
  · intro f hf
    obtain ⟨hother, hfreed, hmem⟩ := h.freed f hf
    rw [hval, if_neg (hexited f.1 hmem)]
    exact ⟨hother, hfreed, hmem⟩
  · intro t ht
    rw [hval] at ht
    split at ht
    · simp at ht
    · exact h.dying t ht
  · intro t ht
    exact (h.exitedOld t ht).trans (Nat.lt_succ_self _)
  · intro t
    rw [hval]
    change _ ↔ t = s.current
    rw [← h.running]
    by_cases ht : t = s.nextPage
    · simp [ht, hnone]
    · simp [ht]
  · intro t ht
    have hgone := h.gone t ht
    unfold Gone at hgone ⊢
    rw [hval, if_neg (hexited t ht)]
    exact hgone

lemma threadUnblock_ok (hblocked : s.status t = some .blocked)
    (hidle : s.idleThread ≠ some t) (hqueue : ∀ queue, t ∉ s.waiters queue) :
    wp (threadUnblock t) (fun _ u => SchedOk u ∧ Keeps s u none ∧ Awake u t) s := by
  simp only [threadUnblock, wp_bind, wp_get, wp_require, wp_modify]
  refine ⟨by simp [hblocked], hblocked, ?_⟩
  have hval : ∀ r, ((s.pushReady t).setStatus t (some .ready)).status r =
      if r = t then some .ready else s.status r := fun r => update_apply _ _ _ _
  have hnot : t ∉ s.readyList := fun hmem => by simp [h.alive_of_ready hmem] at hblocked
  have hexited : ∀ r ∈ s.exited, r ≠ t := fun r hr heq =>
    h.not_exited (by simp [hblocked]) (by simp [hblocked]) (heq ▸ hr)
  refine ⟨⟨⟨?_, ?_, ?_, ?_, h.waitersNodup, h.oneQueue, ?_, ?_, h.idleLast, h.freesNodup,
    ?_, ?_, h.exits, h.exitedOld⟩, ?_, ?_⟩, ⟨rfl, rfl, fun r _ hr => ?_⟩, ?_⟩
  · obtain ⟨i, hi, halive, hdying⟩ := h.idle
    have hne : i ≠ t := fun heq => hidle (heq ▸ hi)
    exact ⟨i, hi, by rw [hval, if_neg hne]; exact ⟨halive, hdying⟩⟩
  · intro r
    rw [hval]
    change r ∈ s.readyList ++ [t] ↔ _ ∧ s.idleThread ≠ some r
    rw [mem_append, h.ready, mem_singleton]
    by_cases hr : r = t
    · simp [hr, hidle]
    · simp [hr]
  · change (s.readyList ++ [t]).Nodup
    rw [nodup_append]
    refine ⟨h.nodup, by simp, ?_⟩
    rintro r hr _ hlast rfl
    exact hnot (mem_singleton.mp hlast ▸ hr)
  · intro queue r hr
    have hne : r ≠ t := fun heq => hqueue queue (heq ▸ hr)
    rw [hval, if_neg hne]
    exact h.waiting queue r hr
  · intro r hr
    have hnone := h.fresh r hr
    rw [hval, if_neg, hnone]
    rintro rfl
    simp [hblocked] at hnone
  · change s.enqueued ++ [t] = _ ++ (s.readyList ++ [t])
    rw [h.fifo, append_assoc]
    rfl
  · intro f hf
    obtain ⟨hother, hfreed, hmem⟩ := h.freed f hf
    rw [hval, if_neg (hexited f.1 hmem)]
    exact ⟨hother, hfreed, hmem⟩
  · intro r hr
    rw [hval] at hr
    split at hr
    · simp at hr
    · exact h.dying r hr
  · intro r
    rw [hval]
    change _ ↔ r = s.current
    rw [← h.running]
    by_cases hr : r = t
    · simp [hr, hblocked]
    · simp [hr]
  · intro r hr
    have hgone := h.gone r hr
    unfold Gone at hgone ⊢
    rw [hval, if_neg (hexited r hr)]
    exact hgone
  · rw [Awake, hval]
    split
    · exact .inl rfl
    · exact hr
  · exact .inl (by rw [hval, if_pos rfl])

lemma SchedOk.popWaiter {queue : Nat} {rest : List Nat} (hqueue : s.waiters queue = t :: rest) :
    SchedOk (s.setWaiters queue rest) ∧ ∀ other, t ∉ (s.setWaiters queue rest).waiters other := by
  have hnodup := h.waitersNodup queue
  rw [hqueue, nodup_cons] at hnodup
  have hsub : ∀ other r, r ∈ (s.setWaiters queue rest).waiters other → r ∈ s.waiters other := by
    intro other r hr
    rw [Sched.setWaiters_waiters, update_apply] at hr
    split at hr
    · next heq => simp [heq, hqueue, hr]
    · exact hr
  refine ⟨⟨⟨h.idle, h.ready, h.nodup, ?_, ?_, ?_, h.fresh, h.fifo, h.idleLast, h.freesNodup,
    h.freed, h.dying, h.exits, h.exitedOld⟩, h.running, h.gone⟩, ?_⟩
  · intro other r hr
    exact h.waiting other r (hsub other r hr)
  · intro other
    rw [Sched.setWaiters_waiters, update_apply]
    split
    · exact hnodup.2
    · exact h.waitersNodup other
  · intro other other' r hr hr'
    exact h.oneQueue other other' r (hsub other r hr) (hsub other' r hr')
  intro other hmem
  have heq := h.oneQueue other queue t (hsub other t hmem) (by simp [hqueue])
  rw [Sched.setWaiters_waiters, heq, update_self] at hmem
  exact hnodup.1 hmem

lemma wakeFirst_ok (queue : Nat) : wp (wakeFirst queue) (fun _ u => SchedOk u ∧
      Keeps (s.setWaiters queue (s.waiters queue).tail) u none ∧
      ∀ t ∈ (s.waiters queue).head?, Awake u t) s := by
  simp only [wakeFirst, wp_bind, wp_get]
  cases hqueue : s.waiters queue with
  | nil =>
    have hsame : s.setWaiters queue [] = s := by
      rw [← hqueue, Sched.setWaiters, Function.update_eq_self]
    simp only [wp_pure, List.tail_nil, hsame]
    exact ⟨h, ⟨rfl, rfl, fun _ _ ht => ht⟩, by simp⟩
  | cons t rest =>
    obtain ⟨hblocked, hidle⟩ := h.waiting queue t (by simp [hqueue])
    obtain ⟨hpopped, hnowhere⟩ := h.popWaiter hqueue
    simp only [wp_bind, wp_modify]
    refine wp_mono (threadUnblock_ok hpopped hblocked hidle hnowhere) ?_
    rintro _ u ⟨hu, hkeeps, hawake⟩
    exact ⟨hu, hkeeps, by simpa using hawake⟩

lemma perform_ok (hallowed : Allowed s event) : wp (perform event) (fun _ => SchedOk) s := by
  cases event with
  | create => exact h.newThread
  | block queue =>
    cases queue with
    | none => exact wp_mono (threadBlock_ok h) fun _ _ hu => hu.1
    | some queue => exact wp_mono (waitOn_ok h hallowed queue) fun _ _ hu => hu.1
  | unblock t =>
    exact wp_mono (threadUnblock_ok h hallowed.1 hallowed.2.1 hallowed.2.2) fun _ _ hu => hu.1
  | wake queue => exact wp_mono (wakeFirst_ok h queue) fun _ _ hu => hu.1
  | yield => exact wp_mono (threadYield_ok h) fun _ _ hu => hu.1
  | tick => exact wp_mono (threadTick_ok h) fun _ _ hu => hu.1
  | exit => exact wp_mono (threadExit_ok h hallowed) fun _ _ hu => hu.1

lemma schedStep_ok (hallowed : Allowed s event) : ∃ t, schedStep s event = some t ∧ SchedOk t := by
  obtain ⟨_, t, hrun, ht⟩ := wp_iff.mp (perform_ok h hallowed)
  exact ⟨t, by simp [schedStep, hrun], ht⟩

end

end Events

/-! ## After `thread_start` -/

def threadInit : Sched where
  status t := if t = 0 then some .running else none
  current := 0
  readyList := []
  waiters _ := []
  idleThread := none
  initialThread := 0
  threadTicks := 0
  nextPage := 1
  enqueued := []
  dispatches := []
  exited := []
  frees := []

/-- `thread_start`: the idle thread is created, the initial thread goes down on `idle_started`, and
the idle thread sets `idle_thread`, raises the semaphore and gives up the processor, by itself or
because its time slice is over. -/
def threadStart (preempted : Bool) : SchedAction Unit := do
  Action.modify Sched.newThread
  threadUnblock 1
  pushWaiter 0
  threadBlock
  Action.modify fun s => { s with idleThread := some s.current }
  wakeFirst 0
  if preempted then threadYield else threadBlock

def Sched.forget (s : Sched) : Sched :=
  { s with enqueued := [], dispatches := [], exited := [], frees := [] }

lemma schedOk_of_idle (hother : status = .ready ∨ status = .blocked)
    (hstat : ∀ t, s.status t = if t = 0 then some .running else if t = 1 then some status else none)
    (hcur : s.current = 0) (hready : s.readyList = []) (hwaiters : ∀ queue, s.waiters queue = [])
    (hidle : s.idleThread = some 1) (hpage : s.nextPage = 2) : SchedOk s.forget := by
  have hval : ∀ t, s.forget.status t =
      if t = 0 then some .running else if t = 1 then some status else none := hstat
  have hwait : ∀ queue, s.forget.waiters queue = [] := hwaiters
  have hlist : s.forget.readyList = [] := hready
  have hone : s.forget.idleThread = some 1 := hidle
  refine ⟨⟨⟨1, hidle, ?_⟩, fun t => ?_, by simp [hlist], by simp [hwait], by simp [hwait],
    by simp [hwait], fun t ht => ?_, hready.symm, ?_, ?_, ?_, fun t ht => ?_, ?_, ?_⟩,
    fun t => ?_, ?_⟩
  · rw [hval]
    rcases hother with rfl | rfl <;> simp
  · rw [hlist, hval, hone]
    by_cases h0 : t = 0
    · simp [h0]
    · by_cases h1 : t = 1 <;> simp [h0, h1]
  · have hge : 2 ≤ t := hpage ▸ ht
    rw [hval, if_neg (by omega), if_neg (by omega)]
  · simp [Sched.forget]
  · simp [Sched.forget]
  · simp [Sched.forget]
  · rw [hval] at ht
    rcases hother with rfl | rfl <;> split_ifs at ht <;> simp at ht
  · simp [Sched.forget]
  · simp [Sched.forget]
  · rw [hval]
    change _ ↔ t = s.current
    rw [hcur]
    by_cases h0 : t = 0
    · simp [h0]
    by_cases h1 : t = 1
    · rcases hother with rfl | rfl <;> simp [h1]
    · simp [h0, h1]
  · simp [Sched.forget]

lemma threadStart_ok (preempted : Bool) : wp (threadStart preempted)
      (fun _ s => SchedOk s.forget ∧ ∀ queue, s.waiters queue = []) threadInit := by
  have hnobody : ∀ queue : Nat,
      update (update (fun _ => []) 0 [0]) 0 [] queue = ([] : List Nat) := by
    intro queue
    simp [update_apply]
  cases preempted with
  | false =>
    simp [threadStart, threadUnblock, pushWaiter, threadBlock, threadCurrent, schedule,
      nextThreadToRun, threadScheduleTail, destroyDying, wakeFirst, threadInit, update_apply]
    refine schedOk_of_idle (.inr rfl) (fun t => ?_) rfl rfl hnobody rfl rfl
    simp only [Sched.setTicks_status, Sched.setStatus_status, update_apply]
    by_cases h0 : t = 0
    · simp [h0]
    · by_cases h1 : t = 1 <;> simp [h0, h1]
  | true =>
    simp [threadStart, threadUnblock, pushWaiter, threadBlock, threadCurrent, schedule,
      nextThreadToRun, threadScheduleTail, destroyDying, wakeFirst, threadYield, threadInit,
      update_apply]
    refine schedOk_of_idle (.inl rfl) (fun t => ?_) rfl rfl hnobody rfl rfl
    simp only [Sched.setTicks_status, Sched.setStatus_status, update_apply]
    by_cases h0 : t = 0
    · simp [h0]
    · by_cases h1 : t = 1 <;> simp [h0, h1]

/-! ## What holds between scheduling steps -/

structure SchedulerSafe (s : Sched) (idle : Nat) : Prop where
  oneRunning : ∃! t, s.status t = some .running
  ready : ∀ t, t ≠ idle → (t ∈ s.readyList ↔ s.status t = some .ready)
  once : s.readyList.Nodup
  idleApart : idle ∉ s.readyList
  idleLast : ∀ d ∈ s.dispatches, d.thread = idle → d.wasEmpty = true
  waitersOnce : ∀ queue, (s.waiters queue).Nodup
  oneList : ∀ queue, ∀ t ∈ s.waiters queue,
    t ∉ s.readyList ∧ ∀ queue', t ∈ s.waiters queue' → queue' = queue
  dying : ∀ t, s.status t = some .dying → t ∈ s.exited
  neverAgain : ∀ t ∈ s.exited,
    s.current ≠ t ∧ t ∉ s.readyList ∧ t ≠ idle ∧ ∀ queue, t ∉ s.waiters queue
  freedOnce : ∀ t ∈ s.exited, t ≠ s.initialThread → (s.frees.map Prod.fst).count t = 1
  initialKept : s.initialThread ∉ s.frees.map Prod.fst
  freedByOther : ∀ f ∈ s.frees, f.1 ≠ f.2
  fifo : s.enqueued = (s.dispatches.filter (!·.wasEmpty)).map Dispatch.thread ++ s.readyList

lemma SchedOk.safe (h : SchedOk s) : ∃ idle, s.idleThread = some idle ∧ SchedulerSafe s idle := by
  obtain ⟨idle, hidle, halive, hlive⟩ := h.idle
  have hgone : ∀ t ∈ s.exited, s.status t = none ∨ s.status t = some .dying := by
    intro t ht
    have := h.gone t ht
    unfold Gone at this
    split at this
    · exact .inr this.1
    · exact .inl this.1
  refine ⟨idle, hidle, ⟨s.current, h.current_running, fun t ht => (h.running t).mp ht⟩,
    ?_, h.nodup, ?_,
    ?_, h.waitersNodup, ?_, h.dying, ?_, ?_, ?_, fun f hf => (h.freed f hf).1, h.fifo⟩
  · intro t ht
    rw [h.ready, hidle]
    simp [Ne.symm ht]
  · intro hmem
    exact ((h.ready idle).mp hmem).2 hidle
  · intro d hd heq
    exact (h.idleLast d hd).mp (heq ▸ hidle)
  · intro queue t ht
    refine ⟨fun hmem => ?_, fun queue' ht' => h.oneQueue queue' queue t ht' ht⟩
    have := (h.waiting queue t ht).1
    simp [h.alive_of_ready hmem] at this
  · intro t ht
    have hstat := hgone t ht
    refine ⟨?_, fun hmem => ?_, ?_, fun queue hmem => ?_⟩
    · rintro rfl
      simp [h.current_running] at hstat
    · simp [h.alive_of_ready hmem] at hstat
    · rintro rfl
      rcases hstat with hnone | hdying
      · exact halive hnone
      · exact hlive hdying
    · simp [(h.waiting queue t hmem).1] at hstat
  · intro t ht hinitial
    have := h.gone t ht
    rw [Gone, if_neg hinitial] at this
    exact List.count_eq_one_of_mem h.freesNodup this.2
  · intro hmem
    obtain ⟨f, hf, heq⟩ := mem_map.mp hmem
    have := h.gone s.initialThread (heq ▸ (h.freed f hf).2.2)
    rw [Gone, if_pos rfl] at this
    exact this.2 hmem

/-- After `thread_start`, whatever the threads do, no assertion of the scheduler fails and its
queues are as they should be. -/
theorem scheduler_safe_of_run {preempted : Bool} {s : Sched}
    (hstart : threadStart preempted threadInit = .ok ((), s)) {events : List SchedEvent}
    (hallowed : Meets schedStep Allowed s.forget events) :
    ∃ t idle, run schedStep s.forget events = some t ∧ t.idleThread = some idle ∧
      SchedulerSafe t idle := by
  have hok : SchedOk s.forget := ((wp_of_ok hstart).mp (threadStart_ok preempted)).1
  obtain ⟨t, hrun, ht⟩ := run_total (fun _ _ h hevent => schedStep_ok h hevent) hok hallowed
  obtain ⟨idle, hidle, hsafe⟩ := ht.safe
  exact ⟨t, idle, hrun, hidle, hsafe⟩

def afterStart : Sched :=
  match threadStart false threadInit with
  | .ok (_, s) => s
  | .error _ => threadInit

def secondThread : List SchedEvent := [.create, .unblock 2, .yield, .exit]

theorem scheduler_safe_second_thread : threadStart false threadInit = .ok ((), afterStart) ∧
    Meets schedStep Allowed afterStart.forget secondThread ∧
    ∃ t idle, run schedStep afterStart.forget secondThread = some t ∧ t.idleThread = some idle ∧
      SchedulerSafe t idle := by
  have hmeets : Meets schedStep Allowed afterStart.forget secondThread := by
    have hnobody : ∀ queue, afterStart.forget.newThread.waiters queue = [] := by
      intro queue
      change update (update (fun _ => []) 0 [0]) 0 [] queue = []
      simp [update_apply]
    refine .cons trivial rfl ?_
    refine .cons ⟨rfl, by decide, fun queue => by simp [hnobody]⟩ rfl ?_
    refine .cons trivial rfl ?_
    exact ⟨show some 1 ≠ some 2 by decide, fun _ _ => trivial⟩
  have hstart : threadStart false threadInit = .ok ((), afterStart) := rfl
  exact ⟨hstart, hmeets, scheduler_safe_of_run hstart hmeets⟩

/-- The page of the initial thread is not freed when it exits. -/
theorem initial_thread_not_freed : ∃ t, threadStart false threadInit = .ok ((), afterStart) ∧
    Meets schedStep Allowed afterStart.forget [.exit] ∧
    run schedStep afterStart.forget [.exit] = some t ∧ t.initialThread ∈ t.exited ∧
    t.status t.initialThread = some .dying ∧ (t.frees.map Prod.fst).count t.initialThread ≠ 1 := by
  have hallowed : Meets schedStep Allowed afterStart.forget [.exit] :=
    ⟨show some 1 ≠ some 0 by decide, fun _ _ => trivial⟩
  refine ⟨_, rfl, hallowed, rfl, ?_, rfl, ?_⟩
  · exact mem_singleton.mpr rfl
  · exact Nat.zero_ne_one

end Pintos.Threads
