import Pintos.Threads.Lock

/-!
# Locks exclude and signals are delivered

One thread at a time is between the decrement and the increment of the semaphore
of the lock, so everything that is recorded about the condition variable is
described from the place of that thread.
-/

namespace Pintos.Threads

open Foundation

variable {t waiter : Nat} {pc : Pc} {wait : Bool} {waiting : List Nat} {loop : Option BroadcastCall}
  {event : LockEvent} {b : BroadcastCall}

/-! ## The invariant -/

namespace Pc

def downs (t : Nat) : Pc → Option Nat
  | .acquireDown => some 0
  | .waitDown => some (t + 1)
  | _ => none

/-- Between joining `cond->waiters` and coming back from the semaphore. -/
def sleeps : Pc → Bool
  | .releaseAssert wait | .releaseClear wait | .releaseUp wait => wait
  | .waitDown => true
  | _ => false

/-- The waiter that was taken from `cond->waiters` and not yet signalled. -/
def popped : Pc → List Nat
  | .signalUp waiter _ _ => [waiter]
  | _ => []

/-- A thread that has entered `cond_wait` and is not in `cond->waiters` yet. -/
def arriving (t : Nat) : Pc → List Nat
  | .waitAssert | .waitInit | .waitPush => [t]
  | _ => []

end Pc

/-- `rest` is still to be released, and `k` statements of this round have been executed. -/
def InLoop (b : BroadcastCall) (rest : List Nat) (k : Nat) : Prop :=
  b.waiting = b.released ++ rest ∧ b.steps = 4 * b.released.length + k

def Knows (condWaiters : List Nat) (t : Nat) : Pc → Prop
  | .releaseAssert wait | .releaseClear wait | .releaseUp wait => wait = true → t ∈ condWaiters
  | .signalAssert waiting loop =>
    waiting = condWaiters ∧ ∀ b ∈ loop, condWaiters ≠ [] ∧ InLoop b condWaiters 1
  | .signalTest waiting loop =>
    waiting = condWaiters ∧ ∀ b ∈ loop, condWaiters ≠ [] ∧ InLoop b condWaiters 2
  | .signalUp waiter waiting loop =>
    waiting = waiter :: condWaiters ∧ ∀ b ∈ loop, InLoop b (waiter :: condWaiters) 3
  | .broadcastTest b => InLoop b condWaiters 0
  | _ => True

/-- The records of the condition variable, when the owner `t` of the lock is at `pc`. -/
structure CondOk (c : Locks) (t : Nat) (pc : Pc) : Prop where
  order : c.entered = c.signalled ++ (pc.popped ++ c.condWaiters) ++ pc.arriving t
  permits : ∀ u, c.semas.value (u + 1) + (pc.popped ++ c.condWaiters).count u =
    if (c.pc u).sleeps then 1 else 0
  leaves : ∀ u, c.left.count u + c.semas.value (u + 1) = c.signalled.count u
  signals : ∀ call ∈ c.signals, call.woken = call.waiting.head?
  broadcasts : ∀ b ∈ c.broadcasts, b.released = b.waiting ∧ b.steps = 4 * b.waiting.length + 1
  knows : Knows c.condWaiters t pc

structure Excludes (c : Locks) (owner : Option Nat) : Prop where
  semas : SemaOk c.semas
  owns : ∀ t, (c.pc t).owns = true ↔ owner = some t
  value : c.semas.value 0 = if owner = none then 1 else 0
  holder : ∀ t, c.holder = some t ↔ (c.pc t).holds = true
  idle : ∀ t, c.pc t ≠ .out → c.semas.sched.idleThread ≠ some t
  placed : ∀ t, (c.pc t).busy = true → c.semas.downing t = none → Awake c.semas.sched t
  downing : ∀ t sema, c.semas.downing t = some sema → (c.pc t).downs t = some sema

inductive LockOk (c : Locks) : Prop
  | free (hexcludes : Excludes c none) (hcond : ∀ t, CondOk c t .out)
  | owned (t : Nat) (hexcludes : Excludes c (some t)) (hcond : CondOk c t (c.pc t))

/-! ## What the semaphores do for a thread -/

structure Serves (c d : Semas) (cur : Nat) : Prop where
  ok : SemaOk d
  idleThread : d.sched.idleThread = c.sched.idleThread
  awake : ∀ t, t ≠ cur → Awake c.sched t → Awake d.sched t
  downing : ∀ t, t ≠ cur → d.downing t = c.downing t

section Serves

variable {c d : Semas} {sema : Nat}

lemma Serves.refl (h : SemaOk c) (cur : Nat) : Serves c c cur :=
  ⟨h, rfl, fun _ _ ht => ht, fun _ _ => rfl⟩

lemma Round.serves {done : Bool} (h : Round c d sema done) (hd : SemaOk d) :
    Serves c d c.sched.current := by
  cases h with
  | done hpos heq =>
    subst heq
    exact ⟨hd, rfl, fun _ _ ht => ht, fun t ht => update_of_ne ht _ _⟩
  | wait hzero hval hups hdowns hdowning hkeeps =>
    refine ⟨hd, hkeeps.idleThread, fun t ht hawake => ?_, fun t ht => ?_⟩
    · exact hkeeps.awake t (by simpa using Ne.symm ht) hawake
    · rw [hdowning, update_of_ne ht]

lemma Raises.serves (h : Raises c d sema) (hd : SemaOk d) (cur : Nat) : Serves c d cur :=
  ⟨hd, h.keeps.idleThread, fun t _ ht => h.keeps.awake t (by simp) ht, fun t _ => by rw [h.downing]⟩

end Serves

/-! ## Moves of the current thread -/

section Moves

variable {c d : Locks} {owner owner' : Option Nat} {old : Pc}

lemma Excludes.current_awake (h : Excludes c owner) : Awake c.semas.sched c.current :=
  .inr h.semas.sched.current_running

lemma Excludes.move (h : Excludes c owner) (hserves : Serves c.semas d.semas c.current)
    (hpc : d.pc = update c.pc c.current pc) (hidle : c.semas.sched.idleThread ≠ some c.current)
    (hself : pc.busy = true → d.semas.downing c.current = none → Awake d.semas.sched c.current)
    (hsleeps : ∀ sema, d.semas.downing c.current = some sema → pc.downs c.current = some sema)
    (howner : ∀ t, owner' = some t ↔ if t = c.current then pc.owns = true else owner = some t)
    (hval : d.semas.value 0 = if owner' = none then 1 else 0) (hholder : ∀ t, d.holder = some t ↔
      if t = c.current then pc.holds = true else c.holder = some t) : Excludes d owner' := by
  have hat : ∀ t, d.pc t = if t = c.current then pc else c.pc t := by
    intro t
    rw [hpc]
    exact update_apply _ _ _ _
  refine ⟨hserves.ok, fun t => ?_, hval, fun t => ?_, fun t ht => ?_, fun t hbusy hnot => ?_,
    fun t sema ht => ?_⟩
  · rw [howner, hat]
    by_cases heq : t = c.current
    · simp [heq]
    · simp [heq, h.owns t]
  · rw [hholder, hat]
    by_cases heq : t = c.current
    · simp [heq]
    · simp [heq, h.holder t]
  · rw [hserves.idleThread]
    rw [hat] at ht
    by_cases heq : t = c.current
    · exact heq ▸ hidle
    rw [if_neg heq] at ht
    exact h.idle t ht
  · rw [hat] at hbusy
    by_cases heq : t = c.current
    · subst heq
      rw [if_pos rfl] at hbusy
      exact hself hbusy hnot
    rw [if_neg heq] at hbusy
    rw [hserves.downing t heq] at hnot
    exact hserves.awake t heq (h.placed t hbusy hnot)
  · rw [hat]
    by_cases heq : t = c.current
    · subst heq
      rw [if_pos rfl]
      exact hsleeps sema ht
    rw [hserves.downing t heq] at ht
    rw [if_neg heq]
    exact h.downing t sema ht

lemma Pc.owns_of_holds {pc : Pc} (h : pc.holds = true) : pc.owns = true := by
  cases pc <;> simp_all [Pc.holds]

namespace Excludes

variable (h : Excludes c owner)

include h

lemma downing_none (hat : c.pc t = old) (ht : old.downs t = none) : c.semas.downing t = none := by
  subst hat
  cases hdown : c.semas.downing t with
  | none => rfl
  | some sema => simp [h.downing t sema hdown] at ht

lemma plain (hat : c.pc c.current = old)
    (hdowns : old.downs c.current = none) (hsemas : d.semas = c.semas)
    (hpc : d.pc = update c.pc c.current pc)
    (hidle : c.semas.sched.idleThread ≠ some c.current) (howns : pc.owns = old.owns)
    (hholder : ∀ t, d.holder = some t ↔
      if t = c.current then pc.holds = true else c.holder = some t) : Excludes d owner := by
  subst hat
  refine h.move (hsemas ▸ Serves.refl h.semas _) hpc hidle (fun _ _ => ?_) (fun sema hsema => ?_)
    (fun t => ?_) (hsemas ▸ h.value) hholder
  · exact hsemas ▸ h.current_awake
  · rw [hsemas, h.downing_none rfl hdowns] at hsema
    simp at hsema
  · split
    · next heq => rw [howns, heq, h.owns]
    · rfl

lemma holder_same (hat : c.pc c.current = old) (hpc : pc.holds = old.holds) (t : Nat) :
    c.holder = some t ↔ if t = c.current then pc.holds = true else c.holder = some t := by
  subst hat
  split
  · next heq => rw [hpc, heq, h.holder]
  · rfl

lemma holder_owner (ht : c.holder = some t) :
    owner = some t := (h.owns t).mp (Pc.owns_of_holds ((h.holder t).mp ht))

end Excludes

lemma sleeps_update {cur : Nat} (hpc : d.pc = update c.pc cur pc) (hat : c.pc cur = old)
    (hsame : pc.sleeps = old.sleeps) (u : Nat) : (d.pc u).sleeps = (c.pc u).sleeps := by
  subst hat
  rw [hpc, update_apply]
  split
  · next heq => rw [hsame, heq]
  · rfl

lemma CondOk.congr {t' : Nat} {pc' : Pc} (h : CondOk c t pc) (hentered : d.entered = c.entered)
    (hsignals : d.signals = c.signals) (hleft : d.left = c.left)
    (hbroadcasts : d.broadcasts = c.broadcasts) (hwait : d.condWaiters = c.condWaiters)
    (hval : ∀ u, d.semas.value (u + 1) = c.semas.value (u + 1))
    (hsleeps : ∀ u, (d.pc u).sleeps = (c.pc u).sleeps) (hpopped : pc'.popped = pc.popped)
    (harriving : pc'.arriving t' = pc.arriving t) (hknows : Knows c.condWaiters t' pc') :
    CondOk d t' pc' := by
  have hsig : d.signalled = c.signalled := by rw [Locks.signalled, hsignals]; rfl
  refine ⟨?_, fun u => ?_, fun u => ?_, ?_, ?_, ?_⟩
  · rw [hentered, hsig, hwait, hpopped, harriving]
    exact h.order
  · rw [hval, hsleeps, hwait, hpopped]
    exact h.permits u
  · rw [hleft, hval, hsig]
    exact h.leaves u
  · rw [hsignals]
    exact h.signals
  · rw [hbroadcasts]
    exact h.broadcasts
  · rw [hwait]
    exact hknows

lemma LockOk.owner_of_owns (h : LockOk c) (hat : c.pc t = old) (ht : old.owns = true) :
    Excludes c (some t) ∧ CondOk c t old := by
  subst hat
  cases h with
  | free hexcludes hcond =>
    have := (hexcludes.owns t).mp ht
    simp at this
  | owned u hexcludes hcond =>
    obtain rfl := some.inj ((hexcludes.owns t).mp ht)
    exact ⟨hexcludes, hcond⟩

lemma LockOk.excludes (h : LockOk c) : ∃ owner, Excludes c owner := by
  cases h with
  | free hexcludes hcond => exact ⟨none, hexcludes⟩
  | owned t hexcludes hcond => exact ⟨some t, hexcludes⟩

lemma LockOk.stays (h : LockOk c) (hexcludes : ∀ owner, Excludes c owner → Excludes d owner)
    (hcond : ∀ t pc, CondOk c t pc → CondOk d t pc)
    (hothers : ∀ t, (c.pc t).owns = true → d.pc t = c.pc t) : LockOk d := by
  cases h with
  | free hexcl hfree => exact .free (hexcludes _ hexcl) fun t => hcond t _ (hfree t)
  | owned t hexcl howned =>
    refine .owned t (hexcludes _ hexcl) ?_
    rw [hothers t ((hexcl.owns t).mpr rfl)]
    exact hcond t _ howned

lemma LockOk.goes (hexcludes : Excludes d (some c.current))
    (hpc : d.pc = update c.pc c.current pc) (hcond : CondOk d c.current pc) : LockOk d := by
  refine .owned c.current hexcludes ?_
  rw [hpc, update_self]
  exact hcond

end Moves

/-! ## The statements -/

section Statements

variable {c : Locks}

lemma wp_assertHeld (h : SemaOk c.semas) (expected : Bool) (text : String)
    (Q : Unit → Locks → Prop) : wp (assertHeld expected text) Q c ↔
      (decide (c.holder = some c.current) = expected) ∧ Q () c := by
  simp only [assertHeld, lockHeldByCurrentThread, onSemas, onSched, wp_bind, wp_zoom,
    wp_threadCurrent h.sched, wp_get, wp_pure, wp_require]
  exact Iff.rfl

lemma LockOk.outside (h : LockOk c) (hat : c.pc c.current = old)
    (hdowns : old.downs c.current = none) (hidle : c.semas.sched.idleThread ≠ some c.current)
    (hbefore : old.owns = false) (hafter : pc.owns = false) (hsleeps : pc.sleeps = old.sleeps) :
    LockOk (c.setPc c.current pc) := by
  subst hat
  have hnot : ∀ pc : Pc, pc.owns = false → pc.holds = false := by
    intro pc hpc
    rw [← Bool.not_eq_true] at hpc ⊢
    exact fun hholds => hpc (Pc.owns_of_holds hholds)
  refine h.stays (fun owner hexcl => ?_) (fun t pc' hcond => ?_) fun t ht => ?_
  · exact hexcl.plain rfl hdowns rfl rfl hidle (hafter.trans hbefore.symm)
      (hexcl.holder_same rfl ((hnot _ hafter).trans (hnot _ hbefore).symm))
  · exact hcond.congr rfl rfl rfl rfl rfl (fun _ => rfl) (sleeps_update rfl rfl hsleeps) rfl rfl
      hcond.knows
  · refine update_of_ne ?_ _ _
    rintro rfl
    simp [hbefore] at ht

lemma Pc.ne_out_of_owns (h : pc.owns = true) : pc ≠ .out := by
  rintro rfl
  simp [Pc.owns] at h

lemma LockOk.within (h : LockOk c) {d : Locks} (hat : c.pc c.current = old)
    (hdowns : old.downs c.current = none) (hbefore : old.owns = true) (hafter : pc.owns = true)
    (hsemas : d.semas = c.semas) (hpc : d.pc = update c.pc c.current pc)
    (hholder : Excludes c (some c.current) → ∀ t, d.holder = some t ↔
      if t = c.current then pc.holds = true else c.holder = some t)
    (hcond : CondOk c c.current old → CondOk d c.current pc) : LockOk d := by
  obtain ⟨hexcl, hcond'⟩ := h.owner_of_owns hat hbefore
  have hidle := hexcl.idle c.current (hat ▸ Pc.ne_out_of_owns hbefore)
  exact .goes (hexcl.plain hat hdowns hsemas hpc hidle (hafter.trans hbefore.symm)
    (hholder hexcl)) hpc (hcond hcond')

lemma LockOk.proceeds (h : LockOk c) (hat : c.pc c.current = old)
    (hdowns : old.downs c.current = none) (hbefore : old.owns = true) (hafter : pc.owns = true)
    (hholds : pc.holds = old.holds) (hsleeps : pc.sleeps = old.sleeps)
    (hpopped : pc.popped = old.popped) (harriving : pc.arriving c.current = old.arriving c.current)
    (hknows : CondOk c c.current old → Knows c.condWaiters c.current pc) :
    LockOk (c.setPc c.current pc) :=
  h.within hat hdowns hbefore hafter rfl rfl (fun hexcl => hexcl.holder_same hat hholds)
    fun hcond => hcond.congr rfl rfl rfl rfl rfl (fun _ => rfl) (sleeps_update rfl hat hsleeps)
      hpopped harriving (hknows hcond)

lemma LockOk.setsHolder (h : LockOk c)
    (hat : c.pc c.current = old) (hold : old = .acquireSet ∨ old = .trySet) :
    LockOk ((c.setHolder (some c.current)).setPc c.current .inside) := by
  refine h.within hat ?_ ?_ rfl rfl rfl (fun hexcl t => ?_) fun hcond => ?_
  · rcases hold with rfl | rfl <;> rfl
  · rcases hold with rfl | rfl <;> rfl
  · simp only [Locks.setPc_holder, Locks.setHolder_holder, some.injEq]
    split
    · next heq => simp [heq, Pc.holds, Pc.owns]
    · next hne =>
        refine ⟨fun heq => absurd heq.symm hne, fun hheld => ?_⟩
        exact absurd (some.inj (hexcl.holder_owner hheld)).symm hne
  · refine hcond.congr rfl rfl rfl rfl rfl (fun _ => rfl) (sleeps_update rfl hat ?_) ?_ ?_ trivial
    · rcases hold with rfl | rfl <;> rfl
    · rcases hold with rfl | rfl <;> rfl
    · rcases hold with rfl | rfl <;> rfl

lemma LockOk.clearsHolder (h : LockOk c) (hpc : c.pc c.current = .releaseClear wait) :
    LockOk ((c.setHolder none).setPc c.current (.releaseUp wait)) := by
  refine h.within hpc rfl rfl rfl rfl rfl (fun hexcl t => ?_) fun hcond => ?_
  · simp only [Locks.setPc_holder, Locks.setHolder_holder]
    split
    · simp [Pc.holds]
    · next hne =>
        refine ⟨fun hnone => by simp at hnone, fun hheld => ?_⟩
        exact absurd (some.inj (hexcl.holder_owner hheld)).symm hne
  · exact hcond.congr rfl rfl rfl rfl rfl (fun _ => rfl) (sleeps_update rfl hpc rfl) rfl rfl
      hcond.knows

end Statements

/-! ## The statements that use a semaphore -/

section Semaphores

variable {c : Locks} {semas : Semas}

lemma LockOk.sleeps (h : LockOk c) {sema : Nat} (hd : SemaOk semas)
    (hround : Round c.semas semas sema false) (hat : c.pc c.current = old)
    (hdowns : old.downs c.current = some sema) : LockOk (c.setSemas semas) := by
  subst hat
  have hserves := hround.serves hd
  cases hround with
  | wait hzero hval hups hdowning hdowning' hkeeps =>
    have hcur : semas.downing c.current = some sema := by
      rw [hdowning']
      exact update_self _ _ _
    refine h.stays (fun owner hexcl => ?_) (fun t pc hcond => ?_) fun _ _ => rfl
    · have hidle : c.semas.sched.idleThread ≠ some c.current := by
        refine hexcl.idle _ fun hout => ?_
        simp [hout, Pc.downs] at hdowns
      refine hexcl.move hserves (Function.update_eq_self _ _).symm hidle (fun _ hnone => ?_)
        (fun q hq => ?_) (fun t => ?_) ?_ (hexcl.holder_same rfl rfl)
      · exact absurd (hcur.symm.trans hnone) (by simp)
      · exact hdowns.trans (hcur.symm.trans hq)
      · split
        · next heq =>
            rw [heq, ← hexcl.owns]
            rfl
        · rfl
      · rw [Locks.setSemas_semas, hval]
        exact hexcl.value
    · exact hcond.congr rfl rfl rfl rfl rfl (fun u => by rw [Locks.setSemas_semas, hval])
        (fun _ => rfl) rfl rfl hcond.knows

lemma LockOk.takes (h : LockOk c) (hpos : 0 < c.semas.value 0)
    (hval : semas.value = update c.semas.value 0 (c.semas.value 0 - 1))
    (hserves : Serves c.semas semas c.current) (hcur : semas.downing c.current = none)
    (hawake : Awake semas.sched c.current) (hbusy : c.pc c.current ≠ .out)
    (hat : c.pc c.current = old) (hsleeps : old.sleeps = false)
    (hpc : pc = .acquireSet ∨ pc = .trySet) : LockOk ((c.setSemas semas).setPc c.current pc) := by
  have howns : pc.owns = true := by rcases hpc with rfl | rfl <;> rfl
  have hholds : pc.holds = false := by rcases hpc with rfl | rfl <;> rfl
  cases h with
  | owned t hexcl hcond =>
    have := hexcl.value
    simp only [reduceCtorEq, if_false] at this
    omega
  | free hexcl hcond =>
    have hone : c.semas.value 0 = 1 := hexcl.value
    refine .goes (hexcl.move hserves rfl (hexcl.idle _ hbusy) (fun _ _ => hawake)
      (fun sema hsema => ?_) (fun t => ?_) ?_ fun t => ?_) rfl ?_
    · exact absurd (hcur.symm.trans hsema) (by simp)
    · rw [howns]
      by_cases heq : t = c.current
      · simp [heq]
      · simp [heq, Ne.symm heq]
    · change semas.value 0 = _
      simp [hval, hone]
    · rw [hholds]
      have hfree : c.holder ≠ some t := fun hheld => by
        have := hexcl.holder_owner hheld
        simp at this
      simp [hfree]
    · refine (hcond c.current).congr rfl rfl rfl rfl rfl (fun u => ?_) (sleeps_update rfl hat ?_) ?_
        ?_ ?_
      · change semas.value (u + 1) = _
        rw [hval, update_of_ne (by omega)]
      · rw [hsleeps]
        rcases hpc with rfl | rfl <;> rfl
      · rcases hpc with rfl | rfl <;> rfl
      · rcases hpc with rfl | rfl <;> rfl
      · rcases hpc with rfl | rfl <;> trivial

lemma LockOk.leaves (h : LockOk c) (hpc : c.pc c.current = .waitDown)
    (hd : SemaOk semas) (hround : Round c.semas semas (c.current + 1) true) :
    LockOk (((c.setSemas semas).noteLeave c.current).setPc c.current .acquireAssert) := by
  have hserves := hround.serves hd
  cases hround with
  | done hpos heq =>
    have hval : semas.value =
        update c.semas.value (c.current + 1) (c.semas.value (c.current + 1) - 1) := by
      rw [heq]
      rfl
    refine h.stays (fun owner hexcl => ?_) (fun t pc hcond => ?_) fun t ht => ?_
    · refine hexcl.move hserves rfl (hexcl.idle _ (by simp [hpc])) (fun _ _ => ?_)
        (fun sema hsema => ?_) (fun t => ?_) ?_ (hexcl.holder_same hpc rfl)
      · rw [Locks.setPc_semas, Locks.noteLeave_semas, Locks.setSemas_semas, heq]
        exact hexcl.current_awake
      · have hnone : semas.downing c.current = none := by
          rw [heq]
          exact update_self _ _ _
        exact absurd (hnone.symm.trans hsema) (by simp)
      · split
        · next heq =>
            rw [heq, ← hexcl.owns, hpc]
            rfl
        · rfl
      · change semas.value 0 = _
        rw [hval, update_of_ne (by omega)]
        exact hexcl.value
    · have hcur := hcond.permits c.current
      rw [hpc] at hcur
      simp only [Pc.sleeps, if_true] at hcur
      refine ⟨hcond.order, fun u => ?_, fun u => ?_, hcond.signals, hcond.broadcasts, hcond.knows⟩
      · have hu := hcond.permits u
        change semas.value (u + 1) + _ = if (update c.pc c.current _ u).sleeps then 1 else 0
        rw [hval, update_apply, update_apply]
        by_cases heq : u = c.current
        · subst heq
          simp only [if_true, Pc.sleeps, Bool.false_eq_true, if_false]
          change c.semas.value (c.current + 1) - 1 +
            (pc.popped ++ c.condWaiters).count c.current = 0
          omega
        · rw [if_neg (by omega), if_neg heq]
          exact hu
      · have hu := hcond.leaves u
        change (c.left ++ [c.current]).count u + semas.value (u + 1) = c.signalled.count u
        rw [hval, update_apply, count_append, List.count_singleton]
        by_cases heq : u = c.current
        · subst heq
          simp only [if_true, beq_self_eq_true]
          omega
        · simpa [heq, Ne.symm heq] using hu
    · refine update_of_ne ?_ _ _
      rintro rfl
      simp [hpc, Pc.owns] at ht

lemma LockOk.releases (h : LockOk c) (hpc : c.pc c.current = .releaseUp wait)
    (hd : SemaOk semas) (hraises : Raises c.semas semas 0) :
    LockOk ((c.setSemas semas).setPc c.current (if wait then .waitDown else .out)) := by
  obtain ⟨hexcl, hcond⟩ := h.owner_of_owns hpc rfl
  have hzero : c.semas.value 0 = 0 := hexcl.value
  have hnone : semas.downing c.current = none := by
    rw [hraises.downing]
    exact hexcl.downing_none hpc rfl
  have howns : (if wait then Pc.waitDown else .out).owns = false := by cases wait <;> rfl
  have hholds : (if wait then Pc.waitDown else .out).holds = false := by cases wait <;> rfl
  refine .free (hexcl.move (hraises.serves hd _) rfl (hexcl.idle _ (by simp [hpc]))
    (fun _ _ => ?_) (fun sema hsema => ?_) (fun t => ?_) ?_ fun t => ?_) fun t => ?_
  · exact hraises.keeps.awake _ (by simp) hexcl.current_awake
  · exact absurd (hnone.symm.trans hsema) (by simp)
  · rw [howns]
    by_cases heq : t = c.current
    · simp [heq]
    · simp [heq, Ne.symm heq]
  · change semas.value 0 = _
    rw [hraises.value, update_self, hzero]
    rfl
  · rw [hholds]
    by_cases heq : t = c.current
    · simp [heq, hexcl.holder, hpc, Pc.holds]
    · simp [heq]
  · refine hcond.congr rfl rfl rfl rfl rfl (fun u => ?_) (sleeps_update rfl hpc ?_) rfl rfl trivial
    · change semas.value (u + 1) = _
      rw [hraises.value, update_of_ne (by omega)]
    · cases wait <;> rfl

lemma afterSignal_owns (loop : Option BroadcastCall) :
    (afterSignal loop).owns = true ∧ (afterSignal loop).holds = true ∧
      (afterSignal loop).sleeps = false ∧ (afterSignal loop).popped = [] ∧
      (∀ t, (afterSignal loop).arriving t = []) ∧ ∀ t, (afterSignal loop).downs t = none := by
  cases loop <;> exact ⟨rfl, rfl, rfl, rfl, fun _ => rfl, fun _ => rfl⟩

lemma LockOk.wakes (h : LockOk c) (hpc : c.pc c.current = .signalUp waiter waiting loop)
    (hd : SemaOk semas) (hraises : Raises c.semas semas (waiter + 1)) :
    LockOk (((c.setSemas semas).noteSignal ⟨waiting, some waiter⟩).setPc c.current
      (afterSignal (loop.map fun b => b.tick.wake waiter))) := by
  obtain ⟨hexcl, hcond⟩ := h.owner_of_owns hpc rfl
  obtain ⟨howns, hholds, hsleeps, hpopped, harriving, hdowns⟩ :=
    afterSignal_owns (loop.map fun b => b.tick.wake waiter)
  have hnone : semas.downing c.current = none := by
    rw [hraises.downing]
    exact hexcl.downing_none hpc rfl
  have hval : ∀ u, semas.value (u + 1) = c.semas.value (u + 1) + [waiter].count u := by
    intro u
    have hroom := hcond.permits waiter
    simp only [Pc.popped, List.singleton_append, List.count_cons_self] at hroom
    rw [hraises.value, update_apply, List.count_singleton]
    by_cases heq : u = waiter
    · subst heq
      have hempty : c.semas.value (u + 1) = 0 := by split at hroom <;> omega
      simp [hempty]
    · rw [if_neg (by omega)]
      simp [Ne.symm heq]
  have hsig : ((c.setSemas semas).noteSignal ⟨waiting, some waiter⟩).signalled =
      c.signalled ++ [waiter] := by
    simp [Locks.signalled, List.filterMap_append]
  obtain ⟨hwaiting, hloop⟩ := hcond.knows
  refine .goes (hexcl.move (hraises.serves hd _) rfl (hexcl.idle _ (by simp [hpc]))
    (fun _ _ => ?_) (fun sema hsema => ?_) (fun t => ?_) ?_ fun t => ?_) rfl
    ⟨?_, fun u => ?_, fun u => ?_, ?_, hcond.broadcasts, ?_⟩
  · exact hraises.keeps.awake _ (by simp) hexcl.current_awake
  · exact absurd (hnone.symm.trans hsema) (by simp)
  · rw [howns]
    by_cases heq : t = c.current
    · simp [heq]
    · simp [heq]
  · change semas.value 0 = _
    rw [hraises.value, update_of_ne (by omega)]
    exact hexcl.value
  · rw [hholds]
    split
    · next heq => simp [heq, hexcl.holder, hpc, Pc.holds, Pc.owns]
    · rfl
  · rw [hpopped, harriving]
    have horder := hcond.order
    change c.entered = ((c.setSemas semas).noteSignal ⟨waiting, some waiter⟩).signalled ++
      ([] ++ c.condWaiters) ++ []
    rw [horder, hsig]
    simp [Pc.popped, Pc.arriving]
  · have hu := hcond.permits u
    have hsame := sleeps_update (c := c) (d := ((c.setSemas semas).noteSignal
      ⟨waiting, some waiter⟩).setPc c.current _) rfl hpc hsleeps u
    rw [hpopped, hsame, ← hu]
    change semas.value (u + 1) + ([] ++ c.condWaiters).count u = _
    rw [hval, nil_append, count_append]
    simp only [Pc.popped]
    omega
  · have hu := hcond.leaves u
    change c.left.count u + semas.value (u + 1) =
      ((c.setSemas semas).noteSignal ⟨waiting, some waiter⟩).signalled.count u
    rw [hsig, hval, count_append]
    omega
  · intro call hcall
    rcases mem_append.mp hcall with hold | hnew
    · exact hcond.signals call hold
    rw [mem_singleton.mp hnew, hwaiting]
    rfl
  cases loop with
  | none => trivial
  | some b =>
    obtain ⟨hall, hsteps⟩ := hloop b rfl
    refine ⟨?_, ?_⟩
    · change b.waiting = b.released ++ [waiter] ++ c.condWaiters
      rw [hall]
      simp
    · change b.steps + 1 = 4 * (b.released ++ [waiter]).length + 0
      rw [length_append, length_singleton]
      omega

end Semaphores

section Statements

variable {c : Locks}

lemma wp_semaInit (h : LockOk c) (hpc : c.pc c.current = .waitInit) (Q : Unit → Locks → Prop) :
    wp (onSemas (semaInit (c.current + 1) 0)) Q c ↔ Q () c := by
  obtain ⟨hexcl, hcond⟩ := h.owner_of_owns hpc rfl
  have hzero : c.semas.value (c.current + 1) = 0 := by
    have := hcond.permits c.current
    simp only [hpc, Pc.sleeps, Bool.false_eq_true, if_false] at this
    omega
  have hempty : c.semas.sched.waiters (c.current + 1) = [] := by
    refine List.eq_nil_iff_forall_not_mem.mpr fun t ht => ?_
    have hdowns := hexcl.downing t _ (hexcl.semas.waiting _ t ht)
    have hat : c.pc t = .waitDown ∧ t = c.current := by cases hat : c.pc t <;> simp_all [Pc.downs]
    obtain ⟨hat, rfl⟩ := hat
    simp [hpc] at hat
  simp only [onSemas, semaInit, wp_zoom, wp_modify]
  rw [← hzero, ← hempty, Function.update_eq_self, Sched.setWaiters, Function.update_eq_self]
  exact Iff.rfl

lemma CondOk.unsignalled (h : CondOk c t pc) (hpopped : pc.popped = [])
    (harriving : pc.arriving t = []) : c.unsignalled = c.condWaiters := by
  have horder := h.order
  rw [hpopped, harriving, nil_append, append_nil] at horder
  rw [Locks.unsignalled, horder, List.drop_left]

section

variable (h : LockOk c)

include h

lemma LockOk.signalsNobody (hpc : c.pc c.current = .signalTest waiting loop)
    (hempty : c.condWaiters = []) : LockOk ((c.noteSignal ⟨waiting, none⟩).setPc c.current
      (afterSignal (loop.map BroadcastCall.tick))) := by
  obtain ⟨-, hcond⟩ := h.owner_of_owns hpc rfl
  obtain ⟨hwaiting, hloop⟩ := hcond.knows
  cases loop with
  | some b => exact absurd hempty (hloop b rfl).1
  | none =>
    have hsig : (c.noteSignal ⟨waiting, none⟩).signalled = c.signalled := by
      simp [Locks.signalled, List.filterMap_append]
    refine h.within hpc rfl rfl rfl rfl rfl
      (fun hexcl => hexcl.holder_same hpc rfl) fun _ => ⟨?_, fun u => ?_, fun u => ?_, ?_,
        hcond.broadcasts, trivial⟩
    · change c.entered = (c.noteSignal ⟨waiting, none⟩).signalled ++ ([] ++ c.condWaiters) ++ []
      rw [hsig]
      exact hcond.order
    · rw [sleeps_update (c := c) rfl hpc (by rfl) u]
      exact hcond.permits u
    · change c.left.count u + c.semas.value (u + 1) =
        (c.noteSignal ⟨waiting, none⟩).signalled.count u
      rw [hsig]
      exact hcond.leaves u
    · intro call hcall
      rcases mem_append.mp hcall with hold | hnew
      · exact hcond.signals call hold
      rw [mem_singleton.mp hnew, hwaiting, hempty]
      rfl

lemma LockOk.pops {rest : List Nat} (hpc : c.pc c.current = .signalTest waiting loop)
    (hlist : c.condWaiters = waiter :: rest) : LockOk ((c.setCondWaiters rest).setPc c.current
      (.signalUp waiter waiting (loop.map BroadcastCall.tick))) := by
  refine h.within hpc rfl rfl rfl rfl rfl (fun hexcl => hexcl.holder_same hpc rfl) fun hcond => ?_
  obtain ⟨hwaiting, hloop⟩ := hcond.knows
  refine ⟨?_, fun u => ?_, hcond.leaves, hcond.signals, hcond.broadcasts, ?_⟩
  · have horder := hcond.order
    rw [hlist] at horder
    exact horder
  · have hu := hcond.permits u
    rw [sleeps_update (c := c) rfl hpc (by rfl) u]
    rw [hlist] at hu
    exact hu
  · refine ⟨hwaiting.trans hlist, fun b hb => ?_⟩
    cases loop with
    | none => simp at hb
    | some old =>
      obtain rfl := some.inj hb
      obtain ⟨-, hall, hsteps⟩ := hloop old rfl
      exact ⟨hall.trans (by rw [hlist]; rfl), congrArg (· + 1) hsteps⟩

lemma LockOk.joins (hpc : c.pc c.current = .waitPush) : LockOk
    ((c.setCondWaiters (c.condWaiters ++ [c.current])).setPc c.current (.releaseAssert true)) := by
  refine h.within hpc rfl rfl rfl rfl rfl (fun hexcl => hexcl.holder_same hpc rfl) fun hcond => ?_
  have hcur := hcond.permits c.current
  simp only [hpc, Pc.sleeps, Pc.popped, Bool.false_eq_true, if_false, nil_append] at hcur
  refine ⟨?_, fun u => ?_, hcond.leaves, hcond.signals, hcond.broadcasts, ?_⟩
  · change c.entered = c.signalled ++ ([] ++ (c.condWaiters ++ [c.current])) ++ []
    simpa [Pc.popped, Pc.arriving] using hcond.order
  · have hu := hcond.permits u
    change c.semas.value (u + 1) + ([] ++ (c.condWaiters ++ [c.current])).count u =
      if (update c.pc c.current _ u).sleeps then 1 else 0
    rw [nil_append, count_append, List.count_singleton, update_apply]
    by_cases heq : u = c.current
    · subst heq
      simp only [beq_self_eq_true, if_true, Pc.sleeps]
      omega
    · simpa [heq, Ne.symm heq, Pc.popped] using hu
  · intro _
    change c.current ∈ c.condWaiters ++ [c.current]
    simp

lemma LockOk.endsBroadcast {loop : BroadcastCall}
    (hpc : c.pc c.current = .broadcastTest loop) (hempty : c.condWaiters = []) :
    LockOk ((c.noteBroadcast loop.tick).setPc c.current .inside) := by
  refine h.within hpc rfl rfl rfl rfl rfl (fun hexcl => hexcl.holder_same hpc rfl) fun hcond => ?_
  obtain ⟨hall, hsteps⟩ := hcond.knows
  rw [hempty, append_nil] at hall
  refine ⟨hcond.order, fun u => ?_, hcond.leaves, hcond.signals, ?_, trivial⟩
  · rw [sleeps_update (c := c) rfl hpc (by rfl) u]
    exact hcond.permits u
  intro b hb
  rcases mem_append.mp hb with hold | hnew
  · exact hcond.broadcasts b hold
  rw [mem_singleton.mp hnew]
  refine ⟨hall.symm, ?_⟩
  change loop.steps + 1 = 4 * loop.waiting.length + 1
  rw [hsteps, hall]

lemma statement_ok (hbusy : (c.pc c.current).busy = true) :
    wp (statement c.current (c.pc c.current)) (fun _ => LockOk) c := by
  obtain ⟨owner, hexcl⟩ := h.excludes
  have hidle : c.semas.sched.idleThread ≠ some c.current := by
    refine hexcl.idle _ fun hout => ?_
    simp [hout, Pc.busy] at hbusy
  have hheld : decide (c.holder = some c.current) = (c.pc c.current).holds := by
    rw [Bool.eq_iff_iff, decide_eq_true_iff]
    exact hexcl.holder c.current
  have hround : ∀ sema, (c.pc c.current).downs c.current = some sema →
      ∀ q, c.semas.downing c.current = some q → q = sema := fun sema hsema q hq =>
    some.inj ((hexcl.downing _ q hq).symm.trans hsema)
  cases hpc : c.pc c.current with
  | out => simp [hpc, Pc.busy] at hbusy
  | inside => simp [hpc, Pc.busy] at hbusy
  | acquireAssert =>
    simp only [statement, wp_bind, wp_assertHeld hexcl.semas, goTo, wp_modify]
    exact ⟨by rw [hheld, hpc]; rfl, h.outside hpc rfl hidle rfl rfl rfl⟩
  | acquireDown =>
    simp only [statement, onSemas, wp_bind, wp_zoom, goTo]
    refine wp_mono (downRound_spec hexcl.semas hidle (hround 0 (by rw [hpc]; rfl))) ?_
    rintro done d ⟨hd, hr⟩
    cases done with
    | false => exact h.sleeps hd hr hpc rfl
    | true =>
      have hserves := hr.serves hd
      cases hr with
      | done hpos heq =>
        refine h.takes hpos ?_ hserves ?_ ?_ (by simp [hpc]) hpc rfl (.inl rfl)
        · rw [heq]
          rfl
        · rw [heq]
          exact update_self _ _ _
        · rw [heq]
          exact hexcl.current_awake
  | acquireSet =>
    simp only [statement, onSemas, onSched, wp_bind, wp_zoom,
      wp_threadCurrent hexcl.semas.sched, wp_modify, goTo]
    exact h.setsHolder hpc (.inl rfl)
  | tryAssert =>
    simp only [statement, wp_bind, wp_assertHeld hexcl.semas, goTo, wp_modify]
    exact ⟨by rw [hheld, hpc]; rfl, h.outside hpc rfl hidle rfl rfl rfl⟩
  | tryDown =>
    have hnone := hexcl.downing_none hpc rfl
    simp only [statement, onSemas, wp_bind, wp_zoom, goTo, wp_modify]
    refine wp_mono (semaTryDown_spec hexcl.semas hnone) ?_
    rintro _ d ⟨hd, ⟨rfl, hpos, rfl⟩ | ⟨rfl, -, rfl⟩⟩
    · exact h.takes hpos rfl ⟨hd, rfl, fun _ _ ht => ht, fun _ _ => rfl⟩ hnone
        hexcl.current_awake (by simp [hpc]) hpc rfl (.inr rfl)
    · exact h.outside hpc rfl hidle rfl rfl rfl
  | trySet =>
    simp only [statement, onSemas, onSched, wp_bind, wp_zoom,
      wp_threadCurrent hexcl.semas.sched, wp_modify, goTo]
    exact h.setsHolder hpc (.inr rfl)
  | releaseAssert wait =>
    simp only [statement, wp_bind, wp_assertHeld hexcl.semas, goTo, wp_modify]
    refine ⟨by rw [hheld, hpc]; rfl, h.proceeds hpc rfl rfl rfl rfl rfl rfl rfl fun hcond => ?_⟩
    exact hcond.knows
  | releaseClear wait =>
    simp only [statement, wp_bind, wp_modify, goTo]
    exact h.clearsHolder hpc
  | releaseUp wait =>
    simp only [statement, onSemas, wp_bind, wp_zoom, goTo, wp_modify]
    refine wp_mono (semaUp_spec hexcl.semas) ?_
    rintro _ d ⟨hd, hraises⟩
    exact h.releases hpc hd hraises
  | waitAssert =>
    simp only [statement, wp_bind, wp_assertHeld hexcl.semas, goTo, wp_modify]
    exact ⟨by rw [hheld, hpc]; rfl, h.proceeds hpc rfl rfl rfl rfl rfl rfl rfl fun _ => trivial⟩
  | waitInit =>
    simp only [statement, wp_bind, wp_semaInit h hpc, goTo, wp_modify]
    exact h.proceeds hpc rfl rfl rfl rfl rfl rfl rfl fun _ => trivial
  | waitPush =>
    simp only [statement, wp_bind, wp_modify, goTo]
    exact h.joins hpc
  | waitDown =>
    simp only [statement, onSemas, wp_bind, wp_zoom, goTo]
    refine wp_mono (downRound_spec hexcl.semas hidle (hround _ (by rw [hpc]; rfl))) ?_
    rintro done d ⟨hd, hr⟩
    cases done with
    | false => exact h.sleeps hd hr hpc rfl
    | true => exact h.leaves hpc hd hr
  | signalAssert waiting loop =>
    simp only [statement, wp_bind, wp_assertHeld hexcl.semas, goTo, wp_modify]
    refine ⟨by rw [hheld, hpc]; rfl, h.proceeds hpc rfl rfl rfl rfl rfl rfl rfl fun hcond => ?_⟩
    obtain ⟨hwaiting, hloop⟩ := hcond.knows
    refine ⟨hwaiting, fun b hb => ?_⟩
    cases loop with
    | none => simp at hb
    | some old =>
      obtain rfl := some.inj hb
      obtain ⟨hsome, hall, hsteps⟩ := hloop old rfl
      exact ⟨hsome, hall, congrArg (· + 1) hsteps⟩
  | signalTest waiting loop =>
    simp only [statement, wp_bind, wp_get]
    cases hlist : c.condWaiters with
    | nil => exact h.signalsNobody hpc hlist
    | cons waiter rest => exact h.pops hpc hlist
  | signalUp waiter waiting loop =>
    simp only [statement, onSemas, wp_bind, wp_zoom, goTo, wp_modify]
    refine wp_mono (semaUp_spec hexcl.semas) ?_
    rintro _ d ⟨hd, hraises⟩
    exact h.wakes hpc hd hraises
  | broadcastTest loop =>
    simp only [statement, wp_bind, wp_get, wp_ite, wp_modify, goTo]
    split
    · next hempty => exact h.endsBroadcast hpc (List.isEmpty_iff.mp hempty)
    · next hsome =>
        refine h.proceeds hpc rfl rfl rfl rfl rfl rfl rfl fun hcond => ?_
        obtain ⟨hall, hsteps⟩ := hcond.knows
        refine ⟨hcond.unsignalled rfl rfl, fun b hb => ?_⟩
        obtain rfl := some.inj hb
        exact ⟨fun hnil => hsome (by simp [hnil]), hall, congrArg (· + 1) hsteps⟩

end

end Statements

/-! ## Runs -/

section Runs

variable {c : Locks}

lemma LockOk.other (h : LockOk c) {event : SchedEvent} (hallowed : LockAllowed c (.other event)) :
    wp (lockPerform (.other event)) (fun _ => LockOk) c := by
  obtain ⟨owner, hexcl⟩ := h.excludes
  simp only [lockPerform, onSemas, wp_zoom]
  refine wp_mono (other_spec hexcl.semas hallowed.1) ?_
  rintro _ _ ⟨hd, u, gone, rfl, hkeeps, hgone⟩
  refine h.stays (fun owner hexcl => ?_) (fun t pc hcond => ?_) fun _ _ => rfl
  · refine ⟨hd, hexcl.owns, hexcl.value, hexcl.holder, fun t ht => ?_, fun t hbusy hnone => ?_,
      hexcl.downing⟩
    · exact hkeeps.idleThread ▸ hexcl.idle t ht
    refine hkeeps.awake t (fun heq => ?_) (hexcl.placed t hbusy hnone)
    obtain ⟨hcur, hevent⟩ := hgone (by simp [heq])
    obtain rfl := some.inj (hcur.symm.trans heq)
    have hidle := hallowed.2 hevent
    rw [Locks.setSemas_pc] at hbusy
    exact absurd (hbusy.symm.trans hidle) (by simp)
  · exact hcond.congr rfl rfl rfl rfl rfl (fun _ => rfl) (fun _ => rfl) rfl rfl hcond.knows

lemma lockPerform_ok (h : LockOk c) (hallowed : LockAllowed c event) :
    wp (lockPerform event) (fun _ => LockOk) c := by
  cases event with
  | acquire =>
    obtain ⟨hpc, hidle⟩ := hallowed
    exact h.outside hpc rfl hidle rfl rfl rfl
  | tryAcquire =>
    obtain ⟨hpc, hidle⟩ := hallowed
    exact h.outside hpc rfl hidle rfl rfl rfl
  | release =>
    have hpc : c.pc c.current = .inside := hallowed
    exact h.proceeds hpc rfl rfl rfl rfl rfl rfl rfl fun _ => by simp [Knows]
  | wait =>
    have hpc : c.pc c.current = .inside := hallowed
    simp only [lockPerform, goTo, wp_bind, wp_get, wp_modify]
    refine h.within hpc rfl rfl rfl rfl rfl (fun hexcl => hexcl.holder_same hpc rfl) fun hcond => ?_
    refine ⟨?_, fun u => ?_, hcond.leaves, hcond.signals, hcond.broadcasts, trivial⟩
    · have horder := hcond.order
      simp only [Pc.arriving, append_nil] at horder
      exact congrArg (· ++ [c.current]) horder
    · rw [sleeps_update (c := c) rfl hpc (by rfl) u]
      exact hcond.permits u
  | signal =>
    have hpc : c.pc c.current = .inside := hallowed
    refine h.proceeds hpc rfl rfl rfl rfl rfl rfl rfl fun hcond => ?_
    exact ⟨hcond.unsignalled rfl rfl, by simp⟩
  | broadcast =>
    have hpc : c.pc c.current = .inside := hallowed
    refine h.proceeds hpc rfl rfl rfl rfl rfl rfl rfl fun hcond => ?_
    exact ⟨hcond.unsignalled rfl rfl, rfl⟩
  | execute => exact statement_ok h hallowed
  | other event => exact h.other hallowed

lemma lockStep_ok (h : LockOk c) (hallowed : LockAllowed c event) :
    ∃ d, lockStep c event = some d ∧ LockOk d := by
  obtain ⟨_, d, hrun, hd⟩ := wp_iff.mp (lockPerform_ok h hallowed)
  exact ⟨d, by simp [lockStep, hrun], hd⟩

lemma LockOk.initially {s : Sched} (hsched : SchedOk s) (hnobody : ∀ sema, s.waiters sema = []) :
    LockOk (.initially s) := by
  have hsemas : SemaOk (Locks.initially s).semas :=
    ⟨hsched, fun q t ht => by simp [Locks.initially, Semas.initially, hnobody] at ht,
      fun t q ht => by simp [Locks.initially, Semas.initially] at ht,
      fun q hq => by simp [Locks.initially, Semas.initially, hnobody] at hq, fun sema => by
        simp only [Locks.initially, Semas.initially]
        split <;> decide⟩
  refine .free ⟨hsemas, fun t => ?_, rfl, fun t => ?_, fun t ht => ?_, fun t ht => ?_,
    fun t sema ht => ?_⟩ fun t => ⟨rfl, fun u => ?_, fun u => ?_, ?_, ?_, trivial⟩
  · simp [Locks.initially, Pc.owns]
  · simp [Locks.initially, Pc.holds, Pc.owns]
  · exact absurd rfl ht
  · simp [Locks.initially, Pc.busy] at ht
  · simp [Locks.initially, Semas.initially] at ht
  · simp [Locks.initially, Semas.initially, Pc.popped, Pc.sleeps]
  · simp [Locks.initially, Semas.initially, Locks.signalled]
  · simp [Locks.initially]
  · simp [Locks.initially]

lemma LockOk.cond (h : LockOk c) : ∃ t pc, CondOk c t pc ∧ ∀ u, (c.pc u).owns = true →
    t = u ∧ pc = c.pc u := by
  cases h with
  | free hexcl hcond =>
    refine ⟨0, .out, hcond 0, fun u hu => ?_⟩
    have := (hexcl.owns u).mp hu
    simp at this
  | owned t hexcl hcond =>
    refine ⟨t, c.pc t, hcond, fun u hu => ?_⟩
    obtain rfl := some.inj ((hexcl.owns u).mp hu)
    exact ⟨rfl, rfl⟩

lemma CondOk.waitDown_of_value (h : CondOk c t pc)
    (howner : ∀ u, (c.pc u).owns = true → t = u ∧ pc = c.pc u) {u : Nat}
    (hpos : 0 < c.semas.value (u + 1)) : c.pc u = .waitDown := by
  have hpermits := h.permits u
  have hsleeps : (c.pc u).sleeps = true := by
    by_contra hnot
    rw [if_neg hnot] at hpermits
    omega
  have hcnt : u ∉ c.condWaiters := by
    intro hmem
    rw [if_pos hsleeps, count_append] at hpermits
    have := List.count_pos_iff.mpr hmem
    omega
  by_contra hne
  -- a thread that has not released the lock yet is still in the list
  have howns : (c.pc u).owns = true := by cases hpc : c.pc u <;> simp_all [Pc.sleeps, Pc.owns]
  obtain ⟨rfl, rfl⟩ := howner u howns
  have hknows := h.knows
  cases hpc : c.pc t <;> simp_all [Pc.sleeps, Knows]

lemma Excludes.awake_of_value {owner : Option Nat} (h : Excludes c owner)
    (hpc : c.pc t = .waitDown) (hpos : 0 < c.semas.value (t + 1)) : Awake c.semas.sched t := by
  cases hdown : c.semas.downing t with
  | none => exact h.placed t (by rw [hpc]; rfl) hdown
  | some sema =>
    have hsema := h.downing t sema hdown
    rw [hpc] at hsema
    obtain rfl := some.inj hsema
    refine (h.semas.looping t _ hdown).2.resolve_left fun hwait => ?_
    -- a permit is there, so somebody was woken, and nobody else uses this semaphore
    obtain ⟨woken, -, hin, hle⟩ := h.semas.woken _ (List.ne_nil_of_mem hwait)
    obtain ⟨u, hu⟩ := List.exists_mem_of_length_pos (hpos.trans_le hle)
    obtain ⟨hloop, hnot⟩ := hin u hu
    have hdowns := h.downing u _ hloop
    have heq : u = t := by cases hat : c.pc u <;> simp_all [Pc.downs]
    exact hnot (heq ▸ hwait)

lemma Knows.inBroadcast {condWaiters : List Nat} (h : Knows condWaiters t pc)
    (hb : b ∈ pc.inBroadcast) :
    b.steps ≤ 4 * b.waiting.length ∧ pc.owns = true ∧ pc.busy = true ∧ pc.downs t = none := by
  have hbound : ∀ {rest : List Nat} {k : Nat}, InLoop b rest k → k ≤ 4 * rest.length →
      b.steps ≤ 4 * b.waiting.length := by
    rintro rest k ⟨hall, hsteps⟩ hk
    rw [hall, hsteps, length_append]
    omega
  have hsome : condWaiters ≠ [] → 1 ≤ condWaiters.length := List.length_pos_of_ne_nil
  cases pc with
  | signalAssert waiting loop =>
    obtain ⟨hne, hloop⟩ := h.2 b hb
    have := hsome hne
    exact ⟨hbound hloop (by omega), rfl, rfl, rfl⟩
  | signalTest waiting loop =>
    obtain ⟨hne, hloop⟩ := h.2 b hb
    have := hsome hne
    exact ⟨hbound hloop (by omega), rfl, rfl, rfl⟩
  | signalUp waiter waiting loop =>
    refine ⟨hbound (h.2 b hb) ?_, rfl, rfl, rfl⟩
    rw [length_cons]
    omega
  | broadcastTest loop =>
    obtain rfl := some.inj hb
    exact ⟨hbound h (by omega), rfl, rfl, rfl⟩
  | _ => simp [Pc.inBroadcast] at hb

lemma Pc.owns_of_inBroadcast (hb : b ∈ pc.inBroadcast) : pc.owns = true := by
  cases pc <;> simp_all [Pc.inBroadcast, Pc.owns]

lemma LockOk.safe (h : LockOk c) : LockSafe c := by
  obtain ⟨owner, hexcl⟩ := h.excludes
  obtain ⟨o, pc, hcond, howner⟩ := h.cond
  refine ⟨fun t u ht hu => ?_, fun t ht => ?_, hcond.signals, ?_, fun t => ?_, fun t ht => ?_,
    fun t b hb => ?_, hcond.broadcasts⟩
  · exact some.inj (((hexcl.owns t).mp ht).symm.trans ((hexcl.owns u).mp hu))
  · exact Pc.owns_of_holds ((hexcl.holder t).mp ht)
  · refine ⟨pc.popped ++ c.condWaiters ++ pc.arriving o, ?_⟩
    simp only [hcond.order, append_assoc]
  · have := hcond.leaves t
    omega
  · have hleaves := hcond.leaves t
    have hpos : 0 < c.semas.value (t + 1) := by omega
    have hpc := hcond.waitDown_of_value howner hpos
    exact ⟨hpc, hpos, hexcl.awake_of_value hpc hpos⟩
  · obtain ⟨rfl, rfl⟩ := howner t (Pc.owns_of_inBroadcast hb)
    obtain ⟨hsteps, -, hbusy, hdowns⟩ := hcond.knows.inBroadcast hb
    exact ⟨hsteps, hexcl.placed o hbusy (hexcl.downing_none rfl hdowns)⟩

end Runs

/-- `LockAllowed` for the calls and their statements, which can be evaluated. -/
def callAllowed (c : Locks) : LockEvent → Bool
  | .acquire | .tryAcquire => c.pc c.current = .out ∧ c.semas.sched.idleThread ≠ some c.current
  | .release | .wait | .signal | .broadcast => c.pc c.current = .inside
  | .execute => (c.pc c.current).busy
  | .other _ => false

lemma lockAllowed_of_callAllowed {c : Locks} {event : LockEvent} (h : callAllowed c event = true) :
    LockAllowed c event := by
  cases event with
  | other event => exact absurd h Bool.false_ne_true
  | _ => simpa [callAllowed, LockAllowed] using h

/-- The initial thread waits, and a second one wakes it with a broadcast. -/
def waitAndBroadcast : List LockEvent :=
  .other .create :: .other (.unblock 2) :: .acquire :: List.replicate 3 .execute ++
    .wait :: List.replicate 7 .execute ++ .acquire :: List.replicate 3 .execute ++
    .broadcast :: List.replicate 5 .execute

end Pintos.Threads
