import Pintos.Threads.SchedulerSafety

/-!
# Semaphores

`threads/synch.c` over the scheduler, for any number of semaphores.  Interrupts
are off from the start of a call to its end, so only a thread that blocks in
`sema_down` lets others in; when it runs again it tests the value once more
before anything else happens.  `downing` says in whose loop a thread is.
-/

namespace Pintos.Threads

open Foundation

structure Semas where
  sched : Sched
  value : Nat → Nat
  downing : Nat → Option Nat
  /-- How many calls have been completed. -/
  ups : Nat → Nat
  downs : Nat → Nat

abbrev SemaAction := Action Semas Fault

namespace Semas

@[simps -fullyApplied] def setSched (c : Semas) (sched : Sched) : Semas := { c with sched }

@[simps -fullyApplied] def setDowning (c : Semas) (t : Nat) (sema : Option Nat) : Semas :=
  { c with downing := update c.downing t sema }

/-- `sema->value--`, with which a `sema_down` or `sema_try_down` succeeds. -/
@[simps -fullyApplied] def take (c : Semas) (sema : Nat) : Semas :=
  { c with
    value := update c.value sema (c.value sema - 1)
    downs := update c.downs sema (c.downs sema + 1) }

/-- `sema->value++` in `unsigned` arithmetic. -/
@[simps -fullyApplied] def give (c : Semas) (sema : Nat) : Semas :=
  { c with
    value := update c.value sema ((c.value sema + 1) % 2 ^ 32)
    ups := update c.ups sema (c.ups sema + 1) }

end Semas

def onSched {α : Type} (x : SchedAction α) : SemaAction α := zoom Semas.sched Semas.setSched x

def downRound (sema : Nat) : SemaAction Bool := do
  let c ← Action.get
  if c.value sema = 0 then do
    Action.modify (·.setDowning c.sched.current (some sema))
    onSched (do
      pushWaiter sema
      threadBlock)
    return false
  else do
    Action.modify fun c => (c.take sema).setDowning c.sched.current none
    return true

def semaTryDown (sema : Nat) : SemaAction Bool := do
  let c ← Action.get
  if c.value sema > 0 then do
    Action.modify (·.take sema)
    return true
  else return false

def semaUp (sema : Nat) : SemaAction Unit := do
  onSched (wakeFirst sema)
  Action.modify (·.give sema)

/-! ## The invariant -/

structure SemaOk (c : Semas) : Prop where
  sched : SchedOk c.sched
  waiting : ∀ sema, ∀ t ∈ c.sched.waiters sema, c.downing t = some sema
  looping : ∀ t sema, c.downing t = some sema →
    c.sched.idleThread ≠ some t ∧ (t ∈ c.sched.waiters sema ∨ Awake c.sched t)
  /-- There are as many woken threads as permits, if anyone waits. -/
  woken : ∀ sema, c.sched.waiters sema ≠ [] → ∃ woken : List Nat, woken.Nodup ∧
    (∀ t ∈ woken, c.downing t = some sema ∧ t ∉ c.sched.waiters sema) ∧ c.value sema ≤ woken.length
  bound : ∀ sema, c.value sema < 2 ^ 32

section Operations

variable {c d : Semas} {sema : Nat}

lemma SemaOk.keeps (h : SemaOk c) {u : Sched} {gone : Option Nat} (hu : SchedOk u)
    (hkeeps : Keeps c.sched u gone) (hgone : ∀ t, gone = some t → c.downing t = none) :
    SemaOk (c.setSched u) where
  sched := hu
  waiting q t ht := h.waiting q t (hkeeps.waiters ▸ ht)
  looping t q ht := by
    obtain ⟨hidle, hwhere⟩ := h.looping t q ht
    refine ⟨hkeeps.idleThread ▸ hidle, ?_⟩
    rcases hwhere with hwait | hawake
    · exact .inl (hkeeps.waiters ▸ hwait)
    refine .inr (hkeeps.awake t (fun heq => ?_) hawake)
    have ht' : c.downing t = some q := ht
    simp [hgone t heq] at ht'
  woken q hq := by
    simp only [Semas.setSched_sched, hkeeps.waiters] at hq ⊢
    exact h.woken q hq
  bound := h.bound

lemma SemaOk.take (h : SemaOk c) (hpos : 0 < c.value sema)
    (hcur : ∀ q, c.downing c.sched.current = some q → q = sema) :
    SemaOk ((c.take sema).setDowning c.sched.current none) := by
  have hdowning : ∀ t q, ((c.take sema).setDowning c.sched.current none).downing t = some q ↔
      t ≠ c.sched.current ∧ c.downing t = some q := by
    intro t q
    rw [Semas.setDowning_downing, Semas.take_downing, update_apply]
    split
    · next heq => simp [heq]
    · next hne => simp [hne]
  refine ⟨h.sched, fun q t ht => ?_, fun t q ht => ?_, fun q hq => ?_, fun q => ?_⟩
  · refine (hdowning t q).mpr ⟨fun heq => ?_, h.waiting q t ht⟩
    exact h.sched.current_not_waiting q (heq ▸ ht)
  · exact h.looping t q ((hdowning t q).mp ht).2
  · -- the thread itself may be one of those that were woken
    obtain ⟨woken, hnodup, hin, hle⟩ := h.woken q hq
    refine ⟨woken.erase c.sched.current, hnodup.erase _, fun t ht => ?_, ?_⟩
    · obtain ⟨hne, hmem⟩ := hnodup.mem_erase_iff.mp ht
      exact ⟨(hdowning t q).mpr ⟨hne, (hin t hmem).1⟩, (hin t hmem).2⟩
    simp only [Semas.setDowning_value, Semas.take_value, update_apply, List.length_erase]
    by_cases heq : q = sema
    · subst heq
      rw [if_pos rfl]
      split <;> omega
    · have hnot : c.sched.current ∉ woken := fun hmem => heq (hcur q (hin _ hmem).1)
      simpa [heq, hnot] using hle
  · have hq := h.bound q
    simp only [Semas.setDowning_value, Semas.take_value, update_apply]
    split
    · next heq =>
        subst heq
        omega
    · exact hq

inductive Round (c d : Semas) (sema : Nat) : Bool → Prop
  | done (hpos : 0 < c.value sema) (hd : d = (c.take sema).setDowning c.sched.current none) :
      Round c d sema true
  | wait (hzero : c.value sema = 0) (hvalue : d.value = c.value) (hups : d.ups = c.ups)
      (hdowns : d.downs = c.downs)
      (hdowning : d.downing = update c.downing c.sched.current (some sema))
      (hkeeps : Keeps (c.sched.setWaiters sema (c.sched.waiters sema ++ [c.sched.current]))
        d.sched (some c.sched.current)) : Round c d sema false

lemma downRound_spec (h : SemaOk c) (hidle : c.sched.idleThread ≠ some c.sched.current)
    (hcur : ∀ q, c.downing c.sched.current = some q → q = sema) :
    wp (downRound sema) (fun done d => SemaOk d ∧ Round c d sema done) c := by
  simp only [downRound, wp_bind, wp_get, wp_ite, wp_modify, onSched, wp_zoom, wp_pure]
  by_cases hzero : c.value sema = 0
  · rw [if_pos hzero, ← wp_bind]
    refine wp_mono (waitOn_ok h.sched hidle sema) ?_
    rintro _ u ⟨hu, hkeeps⟩
    have hwait : ∀ q, u.waiters q =
        if q = sema then c.sched.waiters sema ++ [c.sched.current] else c.sched.waiters q := by
      intro q
      rw [hkeeps.waiters]
      exact update_apply _ _ _ _
    refine ⟨⟨hu, fun q t ht => ?_, fun t q ht => ?_, fun q hq => ?_, h.bound⟩,
      .wait hzero rfl rfl rfl rfl hkeeps⟩
    · rw [Semas.setSched_sched, hwait] at ht
      simp only [Semas.setSched_downing, Semas.setDowning_downing, update_apply]
      split at ht
      · next heq =>
          rcases mem_append.mp ht with hold | hnew
          · have hne : t ≠ c.sched.current := fun heq =>
              h.sched.current_not_waiting sema (heq ▸ hold)
            rw [if_neg hne, heq]
            exact h.waiting sema t hold
          · rw [if_pos (mem_singleton.mp hnew), heq]
      · have hne : t ≠ c.sched.current := fun heq => h.sched.current_not_waiting q (heq ▸ ht)
        rw [if_neg hne]
        exact h.waiting q t ht
    · simp only [Semas.setSched_downing, Semas.setDowning_downing, update_apply] at ht
      simp only [Semas.setSched_sched, hkeeps.idleThread, hwait, Sched.setWaiters_idleThread]
      split at ht
      · next heq =>
          obtain rfl := some.inj ht
          subst heq
          exact ⟨hidle, .inl (by simp)⟩
      · next hne =>
          obtain ⟨hother, hwhere⟩ := h.looping t q ht
          refine ⟨hother, hwhere.imp (fun hold => ?_) fun hawake => ?_⟩
          · split
            · next heq => exact mem_append_left _ (heq ▸ hold)
            · exact hold
          · exact hkeeps.awake t (by simpa using Ne.symm hne) hawake
    · simp only [Semas.setSched_sched, hwait] at hq ⊢
      simp only [Semas.setSched_value, Semas.setDowning_value, Semas.setSched_downing,
        Semas.setDowning_downing]
      by_cases heq : q = sema
      · exact ⟨[], nodup_nil, by simp, by simp [heq, hzero]⟩
      rw [if_neg heq] at hq ⊢
      obtain ⟨woken, hnodup, hin, hle⟩ := h.woken q hq
      refine ⟨woken, hnodup, fun t ht => ?_, hle⟩
      have hne : t ≠ c.sched.current := by
        rintro rfl
        exact heq (hcur q (hin _ ht).1)
      rw [update_of_ne hne]
      exact hin t ht
  · rw [if_neg hzero]
    exact ⟨h.take (by omega) hcur, .done (by omega) rfl⟩

lemma semaTryDown_spec (h : SemaOk c) (hcur : c.downing c.sched.current = none) :
    wp (semaTryDown sema) (fun done d => SemaOk d ∧
      (done = true ∧ 0 < c.value sema ∧ d = c.take sema ∨
        done = false ∧ c.value sema = 0 ∧ d = c)) c := by
  simp only [semaTryDown, wp_bind, wp_get, wp_ite, wp_modify, wp_pure]
  split
  · next hpos =>
      have hsame : (c.take sema).setDowning c.sched.current none = c.take sema := by
        simp only [Semas.setDowning, Semas.take_downing, ← hcur, Function.update_eq_self]
        rfl
      have htaken := h.take hpos (by simp [hcur])
      rw [hsame] at htaken
      exact ⟨htaken, .inl ⟨trivial, hpos, trivial⟩⟩
  · exact ⟨h, .inr ⟨trivial, by omega, trivial⟩⟩

structure Raises (c d : Semas) (sema : Nat) : Prop where
  value : d.value = update c.value sema ((c.value sema + 1) % 2 ^ 32)
  downing : d.downing = c.downing
  ups : d.ups = update c.ups sema (c.ups sema + 1)
  downs : d.downs = c.downs
  keeps : Keeps (c.sched.setWaiters sema (c.sched.waiters sema).tail) d.sched none

lemma semaUp_spec (h : SemaOk c) : wp (semaUp sema) (fun _ d => SemaOk d ∧ Raises c d sema) c := by
  simp only [semaUp, onSched, wp_bind, wp_zoom, wp_modify]
  refine wp_mono (wakeFirst_ok h.sched sema) ?_
  rintro _ u ⟨hu, hkeeps, hfirst⟩
  have hwaiters : ∀ q, u.waiters q =
      if q = sema then (c.sched.waiters sema).tail else c.sched.waiters q := by
    intro q
    rw [hkeeps.waiters]
    exact update_apply _ _ _ _
  have hsub : ∀ q t, t ∈ u.waiters q → t ∈ c.sched.waiters q := by
    intro q t ht
    rw [hwaiters] at ht
    split at ht
    · next heq => exact heq ▸ List.mem_of_mem_tail ht
    · exact ht
  refine ⟨⟨hu, fun q t ht => ?_, fun t q ht => ?_, fun q hq => ?_, fun q => ?_⟩,
    rfl, rfl, rfl, rfl, hkeeps⟩
  · exact h.waiting q t (hsub q t ht)
  · obtain ⟨hidle, hwhere⟩ := h.looping t q ht
    refine ⟨hkeeps.idleThread ▸ hidle, ?_⟩
    rcases hwhere with hwait | hawake
    · -- the first waiter is awake, the others still wait
      by_cases heq : q = sema
      · subst heq
        cases hlist : c.sched.waiters q with
        | nil => simp [hlist] at hwait
        | cons first rest =>
          rw [hlist] at hwait hfirst
          rcases mem_cons.mp hwait with rfl | hrest
          · exact .inr (hfirst t rfl)
          · exact .inl (by simpa [hwaiters, hlist] using hrest)
      · exact .inl (by simpa [hwaiters, heq] using hwait)
    · exact .inr (hkeeps.awake t (by simp) hawake)
  · simp only [Semas.give_sched, Semas.setSched_sched, hwaiters] at hq ⊢
    simp only [Semas.give_value, Semas.give_downing, Semas.setSched_value, Semas.setSched_downing,
      update_apply]
    by_cases heq : q = sema
    · subst heq
      simp only [if_true] at hq ⊢
      cases hlist : c.sched.waiters q with
      | nil => simp [hlist] at hq
      | cons first rest =>
        obtain ⟨woken, hnodup, hin, hle⟩ := h.woken q (by simp [hlist])
        have honce := h.sched.waitersNodup q
        rw [hlist, nodup_cons] at honce
        have hnew : first ∉ woken := fun hmem => (hin first hmem).2 (by simp [hlist])
        refine ⟨first :: woken, nodup_cons.mpr ⟨hnew, hnodup⟩, fun t ht => ?_, ?_⟩
        · rcases mem_cons.mp ht with rfl | hold
          · exact ⟨h.waiting q t (by simp [hlist]), honce.1⟩
          obtain ⟨hdown, hnot⟩ := hin t hold
          rw [hlist] at hnot
          exact ⟨hdown, fun hmem => hnot (mem_cons_of_mem _ hmem)⟩
        · rw [length_cons]
          exact (Nat.mod_le _ _).trans (by omega)
    · simp only [if_neg heq] at hq ⊢
      exact h.woken q hq
  · simp only [Semas.give_value, update_apply]
    split
    · exact Nat.mod_lt _ (by decide)
    · exact h.bound q

end Operations

/-! ## Runs -/

inductive SemaEvent where
  /-- The current thread calls `sema_down`. -/
  | down (sema : Nat)
  /-- The current thread, back from `thread_block` in `sema_down`, tests the value again. -/
  | test
  /-- The current thread or an interrupt handler. -/
  | tryDown (sema : Nat)
  | up (sema : Nat)
  /-- Anything else that involves the scheduler. -/
  | other (event : SchedEvent)
  deriving DecidableEq, Repr

def semaPerform : SemaEvent → SemaAction Unit
  | .down sema => do
    let _ ← downRound sema
  | .test => do
    let c ← Action.get
    match c.downing c.sched.current with
    | none => stop .misuse
    | some sema => do
      let _ ← downRound sema
  | .tryDown sema => do
    let _ ← semaTryDown sema
  | .up sema => semaUp sema
  | .other event => onSched (perform event)

def semaStep (c : Semas) (event : SemaEvent) : Option Semas :=
  match semaPerform event c with
  | .ok (_, d) => some d
  | .error _ => none

/-- A thread in the loop of `sema_down` has interrupts off, and the lists of waiters are changed by
these functions only. -/
def SemaAllowed (c : Semas) : SemaEvent → Prop
  | .down _ => c.downing c.sched.current = none ∧ c.sched.idleThread ≠ some c.sched.current
  | .test => c.downing c.sched.current ≠ none
  | .tryDown _ | .up _ => c.downing c.sched.current = none
  | .other (.block (some _)) | .other (.wake _) => False
  | .other event => c.downing c.sched.current = none ∧ Allowed c.sched event

def NoWrap (c : Semas) : SemaEvent → Prop
  | .up sema => c.value sema ≠ 2 ^ 32 - 1
  | _ => True

/-- The event completes a `sema_down`, or a `sema_try_down` that succeeds. -/
def SemaEvent.takes (c : Semas) (sema : Nat) : SemaEvent → Bool
  | .down q | .tryDown q => q = sema ∧ 0 < c.value q
  | .test => c.downing c.sched.current = some sema ∧ 0 < c.value sema
  | .up _ | .other _ => false

def completedUps (sema : Nat) (events : List SemaEvent) : Nat := events.count (.up sema)

def completedDowns (sema : Nat) : Semas → List SemaEvent → Nat
  | _, [] => 0
  | c, event :: events => (event.takes c sema).toNat +
      (semaStep c event).elim 0 (completedDowns sema · events)

structure Counts (c : Semas) (event : SemaEvent) (d : Semas) : Prop where
  ups : ∀ sema, d.ups sema = c.ups sema + completedUps sema [event]
  downs : ∀ sema, d.downs sema = c.downs sema + (event.takes c sema).toNat

def Balanced (initial : Nat → Nat) (c : Semas) : Prop :=
  ∀ sema, c.value sema + c.downs sema = initial sema + c.ups sema

section Runs

variable {c d : Semas} {initial : Nat → Nat}

lemma Round.balanced {sema : Nat} {done : Bool} (h : Round c d sema done)
    (hb : Balanced initial c) : Balanced initial d := by
  intro q
  have hq := hb q
  cases h with
  | done hpos hd =>
    subst hd
    simp only [Semas.setDowning_value, Semas.setDowning_downs, Semas.setDowning_ups,
      Semas.take_value, Semas.take_downs, Semas.take_ups, update_apply]
    by_cases heq : q = sema
    · subst heq
      simp only [if_true]
      omega
    · simpa [heq] using hq
  | wait hzero hval hups hdowns hdowning hkeeps =>
    rw [hval, hups, hdowns]
    exact hq

lemma Round.counts {q : Nat} {done : Bool} (h : Round c d q done) {event : SemaEvent}
    (hups : ∀ sema, event ≠ .up sema)
    (htakes : ∀ sema, event.takes c sema = decide (q = sema ∧ 0 < c.value q)) :
    Counts c event d := by
  refine ⟨fun sema => ?_, fun sema => ?_⟩
  · cases h with
    | done _ hd => simp [hd, completedUps, hups sema]
    | wait _ _ hsame => simp [hsame, completedUps, hups sema]
  · rw [htakes]
    cases h with
    | done hpos hd =>
      simp only [hd, Semas.setDowning_downs, Semas.take_downs, update_apply, hpos, and_true]
      by_cases heq : sema = q
      · simp [heq]
      · simp [heq, Ne.symm heq]
    | wait hzero _ _ hsame => simp [hsame, hzero]

lemma Raises.counts {q : Nat} (h : Raises c d q) : Counts c (.up q) d := by
  refine ⟨fun sema => ?_, fun sema => by simp [h.downs, SemaEvent.takes]⟩
  rw [h.ups, update_apply]
  by_cases heq : sema = q
  · simp [heq, completedUps]
  · simp [heq, Ne.symm heq, completedUps]

lemma Raises.balanced {sema : Nat} (h : Raises c d sema) (hok : SemaOk c)
    (hroom : c.value sema ≠ 2 ^ 32 - 1) (hb : Balanced initial c) : Balanced initial d := by
  intro q
  have hq := hb q
  have hbound := hok.bound sema
  rw [h.value, h.ups, h.downs]
  simp only [update_apply]
  by_cases heq : q = sema
  · subst heq
    rw [if_pos rfl, if_pos rfl, Nat.mod_eq_of_lt (by omega)]
    omega
  · simpa [heq] using hq

/-- A scheduler event that the semaphores do not take part in.  Only the current thread may stop
being ready or running. -/
lemma other_spec (h : SemaOk c) {event : SchedEvent} (hallowed : SemaAllowed c (.other event)) :
    wp (onSched (perform event)) (fun _ d => SemaOk d ∧ ∃ u gone, d = c.setSched u ∧
      Keeps c.sched u gone ∧
      (gone ≠ none → gone = some c.sched.current ∧ (event = .block none ∨ event = .exit))) c := by
  rw [onSched, wp_zoom]
  have hkept : ∀ (gone : Option Nat) {u : Sched}, SchedOk u ∧ Keeps c.sched u gone →
      (gone ≠ none → gone = some c.sched.current ∧ (event = .block none ∨ event = .exit)) →
      c.downing c.sched.current = none →
      SemaOk (c.setSched u) ∧ ∃ v gone, c.setSched u = c.setSched v ∧ Keeps c.sched v gone ∧
        (gone ≠ none → gone = some c.sched.current ∧ (event = .block none ∨ event = .exit)) := by
    intro gone u hu hgone hcur
    refine ⟨h.keeps hu.1 hu.2 fun t ht => ?_, u, gone, rfl, hu.2, hgone⟩
    obtain rfl := some.inj ((hgone (by simp [ht])).1.symm.trans ht)
    exact hcur
  cases event with
  | create =>
    refine hkept none ⟨h.sched.newThread, rfl, rfl, fun t _ ht => ?_⟩ (by simp) hallowed.1
    have hne : t ≠ c.sched.nextPage := by
      rintro rfl
      simp [Awake, h.sched.fresh _ (le_refl _)] at ht
    rw [Awake, Sched.newThread_status, update_of_ne hne]
    exact ht
  | block queue =>
    cases queue with
    | some queue => exact absurd hallowed id
    | none => exact wp_mono (threadBlock_ok h.sched) fun _ u hu => hkept _ hu (by simp) hallowed.1
  | unblock t =>
    obtain ⟨hcur, hblocked, hidle, hnowhere⟩ := hallowed
    exact wp_mono (threadUnblock_ok h.sched hblocked hidle hnowhere) fun _ u hu =>
      hkept none ⟨hu.1, hu.2.1⟩ (by simp) hcur
  | wake queue => exact absurd hallowed id
  | yield => exact wp_mono (threadYield_ok h.sched) fun _ u hu => hkept _ hu (by simp) hallowed.1
  | tick => exact wp_mono (threadTick_ok h.sched) fun _ u hu => hkept _ hu (by simp) hallowed.1
  | exit =>
    exact wp_mono (threadExit_ok h.sched hallowed.2) fun _ u hu => hkept _ hu (by simp) hallowed.1

lemma semaPerform_ok (h : SemaOk c) (hb : Balanced initial c) {event : SemaEvent}
    (hallowed : SemaAllowed c event) (hroom : NoWrap c event) :
    wp (semaPerform event) (fun _ d => SemaOk d ∧ Balanced initial d ∧ Counts c event d) c := by
  cases event with
  | down sema =>
    simp only [semaPerform, wp_bind, wp_pure]
    exact wp_mono (downRound_spec h hallowed.2 (by simp [hallowed.1])) fun _ d hd =>
      ⟨hd.1, hd.2.balanced hb, hd.2.counts (by simp) fun _ => rfl⟩
  | test =>
    obtain ⟨sema, hsema⟩ := Option.ne_none_iff_exists'.mp hallowed
    simp only [semaPerform, wp_bind, wp_get, hsema, wp_pure]
    refine wp_mono (downRound_spec h (h.looping _ sema hsema).1 fun q hq => ?_) fun _ d hd =>
      ⟨hd.1, hd.2.balanced hb, hd.2.counts (by simp) fun q => ?_⟩
    · exact (some.inj (hsema.symm.trans hq)).symm
    · simp only [SemaEvent.takes, hsema, some.injEq]
      exact decide_eq_decide.mpr (and_congr_right fun heq => by rw [heq])
  | tryDown sema =>
    simp only [semaPerform, wp_bind, wp_pure]
    refine wp_mono (semaTryDown_spec h hallowed) fun _ d hd => ⟨hd.1, ?_⟩
    rcases hd.2 with ⟨-, hpos, rfl⟩ | ⟨-, hzero, rfl⟩
    · have hround : Round c ((c.take sema).setDowning c.sched.current none) sema true :=
        .done hpos rfl
      have hcounts : Counts c (.tryDown sema) _ := hround.counts (by simp) fun _ => rfl
      exact ⟨hround.balanced hb, hcounts.ups, hcounts.downs⟩
    · exact ⟨hb, fun _ => by simp [completedUps], fun q => by simp [SemaEvent.takes, hzero]⟩
  | up sema =>
    exact wp_mono (semaUp_spec h) fun _ d hd =>
      ⟨hd.1, hd.2.balanced h hroom hb, hd.2.counts⟩
  | other event =>
    refine wp_mono (other_spec h hallowed) ?_
    rintro _ _ ⟨hd, u, -, rfl, -⟩
    exact ⟨hd, hb, fun _ => by simp [completedUps], fun _ => by simp [SemaEvent.takes]⟩

lemma semaStep_ok (h : SemaOk c ∧ Balanced initial c) {event : SemaEvent}
    (hevent : SemaAllowed c event ∧ NoWrap c event) :
    ∃ d, semaStep c event = some d ∧ (SemaOk d ∧ Balanced initial d) ∧ Counts c event d := by
  obtain ⟨_, d, hrun, hok, hb, hcounts⟩ :=
    wp_iff.mp (semaPerform_ok h.1 h.2 hevent.1 hevent.2)
  exact ⟨d, by simp [semaStep, hrun], ⟨hok, hb⟩, hcounts⟩

lemma run_counts (h : SemaOk c ∧ Balanced initial c) {events : List SemaEvent}
    (hevents : Meets semaStep (fun c event => SemaAllowed c event ∧ NoWrap c event) c events) :
    ∃ d, run semaStep c events = some d ∧ SemaOk d ∧ Balanced initial d ∧ ∀ sema,
      d.ups sema = c.ups sema + completedUps sema events ∧
      d.downs sema = c.downs sema + completedDowns sema c events := by
  induction events generalizing c with
  | nil => exact ⟨c, rfl, h.1, h.2, fun sema => ⟨rfl, rfl⟩⟩
  | cons event events ih =>
    obtain ⟨mid, hmid, hok, hcounts⟩ := semaStep_ok h hevents.1
    obtain ⟨d, hrun, hd, hb, hrest⟩ := ih hok (hevents.2 mid hmid)
    refine ⟨d, by simp [run, hmid, hrun], hd, hb, fun sema => ?_⟩
    obtain ⟨hups, hdowns⟩ := hrest sema
    rw [hcounts.ups] at hups
    rw [hcounts.downs] at hdowns
    simp only [completedUps, List.count_cons, List.count_nil, completedDowns, hmid,
      Option.elim_some] at hups hdowns ⊢
    omega

end Runs

def Semas.initially (sched : Sched) (initial : Nat → Nat) : Semas :=
  ⟨sched, initial, fun _ => none, fun _ => 0, fun _ => 0⟩

/-- In every run without overflow, the value of a semaphore accounts for all calls, and no permit
is left unused while every waiter sleeps. -/
theorem semaphores_of_run {preempted : Bool} {s : Sched}
    (hstart : threadStart preempted threadInit = .ok ((), s)) {initial : Nat → Nat}
    (hinitial : ∀ sema, initial sema < 2 ^ 32) {events : List SemaEvent}
    (hevents : Meets semaStep (fun c event => SemaAllowed c event ∧ NoWrap c event)
      (.initially s.forget initial) events) :
    ∃ c, run semaStep (.initially s.forget initial) events = some c ∧
      (∀ sema, c.ups sema = completedUps sema events ∧
        c.downs sema = completedDowns sema (.initially s.forget initial) events) ∧
      (∀ sema, (c.value sema : Int) = initial sema + c.ups sema - c.downs sema) ∧
      ∀ sema, 0 < c.value sema → c.sched.waiters sema ≠ [] → ∃ t, c.downing t = some sema ∧
        t ∉ c.sched.waiters sema ∧ Awake c.sched t := by
  obtain ⟨hsched, hnobody⟩ := (wp_of_ok hstart).mp (threadStart_ok preempted)
  have hnobody' : ∀ sema, s.forget.waiters sema = [] := hnobody
  have hok : SemaOk (.initially s.forget initial) :=
    ⟨hsched, fun q t ht => by simp [Semas.initially, hnobody'] at ht,
      fun t q ht => by simp [Semas.initially] at ht,
      fun q hq => by simp [Semas.initially, hnobody'] at hq, hinitial⟩
  have hb : Balanced initial (.initially s.forget initial) := fun _ => rfl
  obtain ⟨c, hrun, hc, hbalanced, hcounts⟩ := run_counts ⟨hok, hb⟩ hevents
  refine ⟨c, hrun, fun sema => ?_, fun sema => ?_, fun sema hpos hwaiting => ?_⟩
  · simpa [Semas.initially] using hcounts sema
  · have := hbalanced sema
    omega
  obtain ⟨woken, -, hin, hle⟩ := hc.woken sema hwaiting
  obtain ⟨t, ht⟩ := List.exists_mem_of_length_pos (hpos.trans_le hle)
  obtain ⟨hdowning, hnot⟩ := hin t ht
  exact ⟨t, hdowning, hnot, (hc.looping t sema hdowning).2.resolve_left hnot⟩

/-- The initial thread takes the permit and waits for another one, which an interrupt handler
gives while the idle thread runs. -/
def secondDown : List SemaEvent := [.down 0, .down 0, .up 0, .other .yield, .test]

theorem semaphores_second_down :
    Meets semaStep (fun c event => SemaAllowed c event ∧ NoWrap c event)
      (.initially afterStart.forget fun _ => 1) secondDown ∧
    ∃ c, run semaStep (.initially afterStart.forget fun _ => 1) secondDown = some c ∧
      c.ups 0 = 1 ∧ c.downs 0 = 2 ∧
      ∀ sema, (c.value sema : Int) = 1 + c.ups sema - c.downs sema := by
  have hmeets : Meets semaStep (fun c event => SemaAllowed c event ∧ NoWrap c event)
      (.initially afterStart.forget fun _ => 1) secondDown := by
    refine .cons ⟨⟨rfl, show some 1 ≠ some 0 by decide⟩, trivial⟩ rfl ?_
    refine .cons ⟨⟨rfl, show some 1 ≠ some 0 by decide⟩, trivial⟩ rfl ?_
    refine .cons ⟨rfl, show 0 ≠ 2 ^ 32 - 1 by decide⟩ rfl ?_
    refine .cons ⟨⟨rfl, trivial⟩, trivial⟩ rfl ?_
    exact ⟨⟨show some 0 ≠ none by decide, trivial⟩, fun _ _ => trivial⟩
  have hstart : threadStart false threadInit = .ok ((), afterStart) := rfl
  have hone : ∀ sema : Nat, (fun _ : Nat => 1) sema < 2 ^ 32 := fun _ => show 1 < 2 ^ 32 by decide
  obtain ⟨c, hrun, hcounts, hvalue, -⟩ := semaphores_of_run hstart hone hmeets
  exact ⟨hmeets, c, hrun, (hcounts 0).1, (hcounts 0).2, hvalue⟩

/-- A semaphore with the greatest value loses its permits with the next `sema_up`. -/
theorem sema_up_wraps : ∃ c,
    Meets semaStep SemaAllowed (.initially afterStart.forget fun _ => 2 ^ 32 - 1) [.up 0] ∧
    run semaStep (.initially afterStart.forget fun _ => 2 ^ 32 - 1) [.up 0] = some c ∧
    (c.value 0 : Int) ≠ (2 ^ 32 - 1 : Nat) + c.ups 0 - c.downs 0 := by
  refine ⟨_, ⟨rfl, fun _ _ => trivial⟩, rfl, ?_⟩
  decide

end Pintos.Threads
