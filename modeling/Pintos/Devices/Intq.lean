import Pintos.Foundation.Memory
import Pintos.Foundation.Ring
import Pintos.Foundation.Transition
import Pintos.Lib.Debug

/-!
# Interrupt queues

`devices/intq.c`, with the lock of `threads/synch.c` that a queue has.  A thread
calls the functions with interrupts off, so nothing happens between one place
where it may block and the next.  `threads` says where the threads are that are
in a call and do not run: asleep in `sema_down` or in `wait`, or unblocked there
and not scheduled yet.
-/

namespace Pintos.Devices

open Foundation

variable {t : Nat}

def intqBufsize : Nat := 64

inductive IntqCall where
  | getc
  | putc (byte : Byte)
  deriving DecidableEq, Repr

inductive Condition where
  | notEmpty
  | notFull
  deriving DecidableEq, Repr

inductive Place where
  | outside
  | sleeping (call : IntqCall)
  | retrying (call : IntqCall)
  | waiting (call : IntqCall)
  | woken (call : IntqCall)
  deriving DecidableEq, Repr

structure Intq where
  ring : RingBuffer Byte
  notFull : Option Nat
  notEmpty : Option Nat
  value : Nat
  waiters : List Nat
  holder : Option Nat
  threads : Nat → Place

abbrev IntqAction := Action Intq Fault

namespace IntqCall

def needs : IntqCall → Condition
  | .getc => .notEmpty
  | .putc _ => .notFull

end IntqCall

namespace Condition

def Holds (r : RingBuffer Byte) : Condition → Prop
  | .notEmpty => r.isEmpty = false
  | .notFull => r.isFull intqBufsize = false

instance (r : RingBuffer Byte) (c : Condition) : Decidable (c.Holds r) := by
  cases c <;> exact inferInstanceAs (Decidable (_ = false))

end Condition

namespace Intq

def waiter (q : Intq) : Condition → Option Nat
  | .notEmpty => q.notEmpty
  | .notFull => q.notFull

def setWaiter (q : Intq) (t : Option Nat) : Condition → Intq
  | .notEmpty => { q with notEmpty := t }
  | .notFull => { q with notFull := t }

def setPlace (q : Intq) (t : Nat) (place : Place) : Intq :=
  { q with threads := update q.threads t place }

end Intq

/-! ## The functions -/

def threadUnblock (t : Nat) : IntqAction Unit := do
  let q ← Action.get
  match q.threads t with
  | .sleeping call => Action.modify fun q => q.setPlace t (.retrying call)
  | .waiting call => Action.modify fun q => q.setPlace t (.woken call)
  | _ => stop (.assertion "t->status == THREAD_BLOCKED")

def signal (c : Condition) : IntqAction Unit := do
  let q ← Action.get
  require (c.Holds q.ring)
    (.assertion
      "waiter == &q->not_empty && !intq_empty (q) || waiter == &q->not_full && !intq_full (q)")
  match q.waiter c with
  | none => return ()
  | some t => do
    threadUnblock t
    Action.modify fun q => q.setWaiter none c

def wait (t : Nat) (call : IntqCall) : IntqAction Unit := do
  let q ← Action.get
  require (¬ call.needs.Holds q.ring)
    (.assertion
      "waiter == &q->not_empty && intq_empty (q) || waiter == &q->not_full && intq_full (q)")
  Action.modify fun q => (q.setWaiter (some t) call.needs).setPlace t (.waiting call)

/-- A round of `sema_down` in `lock_acquire`; the result says whether the lock was taken. -/
def lockRound (t : Nat) (call : IntqCall) : IntqAction Bool := do
  let q ← Action.get
  if q.value = 0 then do
    Action.modify fun q => { q with waiters := q.waiters ++ [t] }
    Action.modify fun q => q.setPlace t (.sleeping call)
    return false
  else do
    Action.modify fun q => { q with value := q.value - 1, holder := some t }
    return true

def lockAndWait (t : Nat) (call : IntqCall) : IntqAction Unit := do
  if ← lockRound t call then wait t call

def lockRelease (t : Nat) : IntqAction Unit := do
  let q ← Action.get
  require (q.holder = some t) (.assertion "lock_held_by_current_thread (lock)")
  Action.modify fun q => { q with holder := none }
  match q.waiters with
  | [] => pure ()
  | first :: rest => do
    Action.modify fun q => { q with waiters := rest }
    threadUnblock first
  Action.modify fun q => { q with value := q.value + 1 }

def transfer : IntqCall → IntqAction Byte
  | .getc => do
    let q ← Action.get
    Action.modify fun q => { q with ring := q.ring.drop intqBufsize }
    signal .notFull
    return q.ring.first
  | .putc byte => do
    Action.modify fun q => { q with ring := q.ring.put intqBufsize byte }
    signal .notEmpty
    return byte

def enter (t : Nat) (call : IntqCall) : IntqAction (Option Byte) := do
  let q ← Action.get
  if call.needs.Holds q.ring then do
    let byte ← transfer call
    return some byte
  else do
    require (q.holder ≠ some t) (.assertion "!lock_held_by_current_thread (lock)")
    lockAndWait t call
    return none

def resume (t : Nat) : IntqAction (Option Byte) := do
  let q ← Action.get
  match q.threads t with
  | .retrying call => do
    Action.modify fun q => q.setPlace t .outside
    lockAndWait t call
    return none
  | .woken call => do
    Action.modify fun q => q.setPlace t .outside
    lockRelease t
    enter t call
  | _ => stop .misuse

def fromHandler (call : IntqCall) : IntqAction Byte := do
  let q ← Action.get
  require (call.needs.Holds q.ring) (.assertion "!intr_context ()")
  transfer call

/-! ## Interleavings -/

inductive IntqEvent where
  | call (t : Nat) (call : IntqCall)
  | resume (t : Nat)
  | interrupt (call : IntqCall)
  deriving DecidableEq, Repr

variable {c : Condition} {call : IntqCall} {event : IntqEvent}

def intqPerform : IntqEvent → IntqAction Unit
  | .call t call => do
    let _ ← enter t call
  | .resume t => do
    let _ ← resume t
  | .interrupt call => do
    let _ ← fromHandler call

def intqStep (q : Intq) (event : IntqEvent) : Option Intq :=
  match intqPerform event q with
  | .ok (_, q') => some q'
  | .error _ => none

/-- What can happen: a thread starts a call, a thread that was unblocked goes on, and a handler
calls for a queue that is not empty or not full. -/
def IntqEnabled (q : Intq) : IntqEvent → Prop
  | .call t _ => q.threads t = .outside
  | .resume t => ∃ call, q.threads t = .retrying call ∨ q.threads t = .woken call
  | .interrupt call => call.needs.Holds q.ring

def LockIsFree (q : Intq) : IntqEvent → Prop
  | .call _ call => call.needs.Holds q.ring ∨ q.holder = none
  | _ => True

def intqInit (buf : Nat → Byte) : Intq := ⟨⟨buf, 0, 0⟩, none, none, 1, [], none, fun _ => .outside⟩

/-! ## One thread at a time -/

inductive Occupant where
  | nobody
  | waiting (t : Nat) (call : IntqCall)
  | woken (t : Nat) (call : IntqCall)
  deriving DecidableEq, Repr

namespace Occupant

def holder : Occupant → Option Nat
  | .nobody => none
  | .waiting t _ | .woken t _ => some t

def waiter : Occupant → Condition → Option Nat
  | .waiting t call, c => if call.needs = c then some t else none
  | _, _ => none

def threads : Occupant → Nat → Place
  | .nobody => fun _ => .outside
  | .waiting t call => update (fun _ => .outside) t (.waiting call)
  | .woken t call => update (fun _ => .outside) t (.woken call)

def wake : Occupant → Condition → Occupant
  | .waiting t call, c => if call.needs = c then .woken t call else .waiting t call
  | occupant, _ => occupant

def Waits (r : RingBuffer Byte) : Occupant → Prop
  | .waiting _ call => ¬ call.needs.Holds r
  | _ => True

end Occupant

def Intq.guarded (r : RingBuffer Byte) (occupant : Occupant) : Intq where
  ring := r
  notFull := occupant.waiter .notFull
  notEmpty := occupant.waiter .notEmpty
  value := if occupant = .nobody then 1 else 0
  waiters := []
  holder := occupant.holder
  threads := occupant.threads

section Guarded

variable {r : RingBuffer Byte} {occupant : Occupant} {items : List Byte}

lemma guarded_waiter (c : Condition) : (Intq.guarded r occupant).waiter c = occupant.waiter c := by
  cases c <;> rfl

lemma signal_guarded (hc : c.Holds r) :
    wp (signal c) (fun _ q => q = .guarded r (occupant.wake c)) (.guarded r occupant) := by
  simp only [signal, wp_bind, wp_get, wp_require]
  refine ⟨hc, ?_⟩
  rw [guarded_waiter]
  cases occupant with
  | nobody => exact rfl
  | woken t call => exact rfl
  | waiting t call =>
    by_cases hneeds : call.needs = c
    · have hplace : (Intq.guarded r (.waiting t call)).threads t = .waiting call := by
        simp [Intq.guarded, Occupant.threads]
      simp only [Occupant.waiter, Occupant.wake, if_pos hneeds, threadUnblock, wp_bind,
        wp_get, hplace, wp_modify]
      subst hneeds
      cases call <;> simp [Intq.guarded, Intq.setPlace, Intq.setWaiter, Occupant.threads,
        Occupant.waiter, Occupant.holder, IntqCall.needs]
    · simp only [Occupant.waiter, Occupant.wake, if_neg hneeds]
      exact rfl

def IntqCall.after (r : RingBuffer Byte) : IntqCall → RingBuffer Byte
  | .getc => r.drop intqBufsize
  | .putc byte => r.put intqBufsize byte

def IntqCall.gives : IntqCall → Condition
  | .getc => .notFull
  | .putc _ => .notEmpty

def IntqCall.byte (r : RingBuffer Byte) : IntqCall → Byte
  | .getc => r.first
  | .putc byte => byte

lemma transfer_guarded (hgives : call.gives.Holds (call.after r)) :
    wp (transfer call) (fun byte q =>
      byte = call.byte r ∧ q = .guarded (call.after r) (occupant.wake call.gives))
      (.guarded r occupant) := by
  cases call with
  | getc =>
    simp only [transfer, wp_bind, wp_get, wp_modify, wp_pure]
    refine wp_mono (signal_guarded (r := r.drop intqBufsize) hgives) ?_
    rintro _ q rfl
    exact ⟨rfl, rfl⟩
  | putc byte =>
    simp only [transfer, wp_bind, wp_modify, wp_pure]
    refine wp_mono (signal_guarded (r := r.put intqBufsize byte) hgives) ?_
    rintro _ q rfl
    exact ⟨rfl, rfl⟩

lemma lockAndWait_guarded (hwaits : ¬ call.needs.Holds r) :
    wp (lockAndWait t call) (fun _ q => q = .guarded r (.waiting t call)) (.guarded r .nobody) := by
  have hval : (Intq.guarded r .nobody).value ≠ 0 := Nat.one_ne_zero
  simp only [lockAndWait, lockRound, wp_bind, wp_get, if_neg hval,
    wp_modify, wp_pure, if_true, wait, wp_require]
  refine ⟨hwaits, ?_⟩
  cases call <;> simp [Intq.guarded, Intq.setPlace, Intq.setWaiter, Occupant.threads,
    Occupant.waiter, Occupant.holder, IntqCall.needs]

lemma lockRelease_guarded : wp (lockRelease t) (fun _ q => q = .guarded r .nobody)
      ((Intq.guarded r (.woken t call)).setPlace t .outside) := by
  simp only [lockRelease, wp_bind, wp_get, wp_require]
  refine ⟨rfl, ?_⟩
  have hback : update (update (fun _ => Place.outside) t (.woken call)) t
      .outside = fun _ => .outside := by
    rw [Function.update_idem]
    exact Function.update_eq_self t _
  simp [Intq.guarded, Intq.setPlace, Occupant.threads, Occupant.waiter, Occupant.holder, hback]

/-! ## The queue as a list -/

/-- The queue holds a list of bytes, and at most one thread is in the guarded part of a call. -/
def IntqOk (q : Intq) (items : List Byte) (occupant : Occupant) : Prop :=
  ∃ r, q = .guarded r occupant ∧ r.Fifo intqBufsize items ∧ occupant.Waits r

def IntqCall.Moves (byte : Byte) (items after : List Byte) : IntqCall → Prop
  | .getc => items = byte :: after
  | .putc b => byte = b ∧ after = items ++ [b]

lemma IntqCall.after_fifo (hfifo : r.Fifo intqBufsize items)
    (hneeds : call.needs.Holds r) : call.gives.Holds (call.after r) ∧ ∃ after,
      (call.after r).Fifo intqBufsize after ∧ call.Moves (call.byte r) items after := by
  cases call with
  | getc =>
    cases items with
    | nil =>
      have hempty := hfifo.isEmpty_iff.mpr rfl
      exact absurd (hneeds.symm.trans hempty) Bool.false_ne_true
    | cons b rest =>
      have hdrop := hfifo.drop
      refine ⟨?_, rest, hdrop, by rw [IntqCall.Moves, IntqCall.byte, hfifo.first_eq]⟩
      have hroom := hfifo.room
      rw [length_cons] at hroom
      exact Bool.eq_false_iff.mpr fun hfull => by
        have := hdrop.isFull_iff.mp hfull
        omega
  | putc b =>
    have hput := hfifo.put hneeds b
    refine ⟨?_, items ++ [b], hput, rfl, rfl⟩
    exact Bool.eq_false_iff.mpr fun hempty => by simpa using hput.isEmpty_iff.mp hempty

/-- Whoever still waits after a signal does not wait for what the call made true, so that the call
itself would have had to wait. -/
lemma Occupant.Waits.wake (hwaits : occupant.Waits r)
    (hneeds : call.needs.Holds r) : (occupant.wake call.gives).Waits (call.after r) := by
  cases occupant with
  | nobody => trivial
  | woken t other => trivial
  | waiting t other =>
    by_cases hgives : other.needs = call.gives
    · simp [Occupant.wake, hgives, Occupant.Waits]
    have hsame : other.needs = call.needs := by
      cases other <;> cases call <;> simp_all [IntqCall.needs, IntqCall.gives]
    exact absurd (hsame ▸ hneeds) hwaits

variable {q : Intq}

lemma transfer_spec (hq : IntqOk q items occupant) (hneeds : call.needs.Holds q.ring) :
    wp (transfer call) (fun byte q' => ∃ after, call.Moves byte items after ∧
      IntqOk q' after (occupant.wake call.gives)) q := by
  obtain ⟨r, rfl, hfifo, hwaits⟩ := hq
  obtain ⟨hgives, after, hafter, hmoves⟩ := IntqCall.after_fifo hfifo hneeds
  refine wp_mono (transfer_guarded hgives) ?_
  rintro byte q' ⟨rfl, rfl⟩
  exact ⟨after, hmoves, _, rfl, hafter, hwaits.wake hneeds⟩

def Entered (items : List Byte) (occupant : Occupant) (t : Nat) (call : IntqCall) (q : Intq) :
    Option Byte → Prop
  | some byte => ∃ after, call.Moves byte items after ∧ IntqOk q after (occupant.wake call.gives)
  | none => occupant = .nobody ∧ IntqOk q items (.waiting t call)

lemma enter_spec (hq : IntqOk q items occupant)
    (hfree : call.needs.Holds q.ring ∨ occupant = .nobody) :
    wp (enter t call) (fun result q' => Entered items occupant t call q' result) q := by
  simp only [enter, wp_bind, wp_get]
  by_cases hneeds : call.needs.Holds q.ring
  · rw [if_pos hneeds]
    simp only [wp_bind, wp_pure]
    exact transfer_spec hq hneeds
  obtain rfl := hfree.resolve_left hneeds
  obtain ⟨r, rfl, hfifo, -⟩ := hq
  rw [if_neg hneeds]
  simp only [wp_bind, wp_require, wp_pure]
  refine ⟨fun hholder => absurd hholder (Option.some_ne_none t).symm,
    wp_mono (lockAndWait_guarded hneeds) ?_⟩
  rintro _ q' rfl
  exact ⟨rfl, r, rfl, hfifo, hneeds⟩

lemma resume_spec (hq : IntqOk q items (.woken t call)) :
    wp (resume t) (fun result q' => Entered items .nobody t call q' result) q := by
  obtain ⟨r, rfl, hfifo, -⟩ := hq
  have hplace : (Intq.guarded r (.woken t call)).threads t = .woken call := by
    simp [Intq.guarded, Occupant.threads]
  simp only [resume, wp_bind, wp_get, hplace, wp_modify]
  refine wp_mono lockRelease_guarded ?_
  rintro _ q' rfl
  exact enter_spec ⟨r, rfl, hfifo, trivial⟩ (Or.inr rfl)

lemma fromHandler_spec (hq : IntqOk q items occupant) (hneeds : call.needs.Holds q.ring) :
    wp (fromHandler call) (fun byte q' => ∃ after, call.Moves byte items after ∧
      IntqOk q' after (occupant.wake call.gives)) q := by
  simp only [fromHandler, wp_bind, wp_get, wp_require]
  exact ⟨hneeds, transfer_spec hq hneeds⟩

lemma intqInit_ok (buf : Nat → Byte) : IntqOk (intqInit buf) [] .nobody :=
  ⟨⟨buf, 0, 0⟩, rfl, RingBuffer.fifo_nil buf (by decide), trivial⟩

end Guarded

/-! ## Runs -/

def KeepsWaiters (q q' : Intq) : Prop :=
  ∀ c t t', q.waiter c = some t → q'.waiter c = some t' → t' = t

/-- Every thread that is blocked in `wait` is recorded and waits for what is not the case, so that
the next signal for it wakes it up. -/
def NoLostWakeup (q : Intq) : Prop :=
  ∀ t call, q.threads t = .waiting call → q.waiter call.needs = some t ∧ ¬ call.needs.Holds q.ring

section Runs

variable {q q' : Intq} {items after : List Byte} {occupant : Occupant}

namespace IntqOk

variable (hq : IntqOk q items occupant)

include hq

lemma waiter_eq (c : Condition) : q.waiter c = occupant.waiter c := by
  obtain ⟨r, rfl, -, -⟩ := hq
  exact guarded_waiter c

lemma holder_eq : q.holder = occupant.holder := by
  obtain ⟨r, rfl, -, -⟩ := hq
  rfl

lemma threads_eq : q.threads = occupant.threads := by
  obtain ⟨r, rfl, -, -⟩ := hq
  rfl

lemma noLostWakeup : NoLostWakeup q := by
  intro t call ht
  rw [hq.waiter_eq]
  rw [hq.threads_eq] at ht
  obtain ⟨r, rfl, -, hwaits⟩ := hq
  cases occupant with
  | nobody => simp [Occupant.threads] at ht
  | woken u other =>
    by_cases hu : t = u
    · simp [Occupant.threads, hu] at ht
    · simp [Occupant.threads, hu] at ht
  | waiting u other =>
    by_cases hu : t = u
    · obtain rfl : other = call := by simpa [Occupant.threads, hu] using ht
      exact ⟨by simp [Occupant.waiter, hu], hwaits⟩
    · simp [Occupant.threads, hu] at ht

end IntqOk

lemma wake_waiter {gives : Condition}
    (h : (occupant.wake gives).waiter c = some t) : occupant.waiter c = some t := by
  cases occupant with
  | nobody => exact h
  | woken u other => exact h
  | waiting u other =>
    by_cases hgives : other.needs = gives
    · simp [Occupant.wake, hgives, Occupant.waiter] at h
    · simpa [Occupant.wake, hgives] using h

lemma KeepsWaiters.of_wake {gives : Condition} (hq : IntqOk q items occupant)
    (hq' : IntqOk q' after (occupant.wake gives)) : KeepsWaiters q q' := by
  intro c t t' ht ht'
  rw [hq.waiter_eq] at ht
  rw [hq'.waiter_eq] at ht'
  exact some.inj ((wake_waiter ht').symm.trans ht)

lemma KeepsWaiters.of_none (h : ∀ c, q.waiter c = none) : KeepsWaiters q q' := by
  intro c t t' ht
  simp [h c] at ht

section

variable (hq : IntqOk q items occupant)

include hq

lemma Entered.keeps {result : Option Byte} (h : Entered items occupant t call q' result) :
    KeepsWaiters q q' ∧ ∃ after occupant', IntqOk q' after occupant' := by
  cases result with
  | some byte =>
    obtain ⟨after, -, hq'⟩ := h
    exact ⟨.of_wake hq hq', after, _, hq'⟩
  | none =>
    obtain ⟨rfl, hq'⟩ := h
    exact ⟨.of_none hq.waiter_eq, items, _, hq'⟩

lemma IntqOk.occupant_of_enabled
    (h : IntqEnabled q (.resume t)) : ∃ call, occupant = .woken t call := by
  obtain ⟨call, h⟩ := h
  rw [hq.threads_eq] at h
  cases occupant with
  | nobody => simp [Occupant.threads] at h
  | waiting u other => by_cases hu : t = u <;> simp [Occupant.threads, hu] at h
  | woken u other =>
    by_cases hu : t = u
    · exact ⟨other, by rw [hu]⟩
    · simp [Occupant.threads, hu] at h

lemma intqPerform_ok
    (henabled : IntqEnabled q event) (hfree : LockIsFree q event) : wp (intqPerform event)
    (fun _ q' => KeepsWaiters q q' ∧ ∃ after occupant', IntqOk q' after occupant') q := by
  cases event with
  | call t call =>
    have hnobody : call.needs.Holds q.ring ∨ occupant = .nobody := by
      refine hfree.imp_right fun hholder => ?_
      rw [hq.holder_eq] at hholder
      cases occupant with
      | nobody => rfl
      | waiting u other => simp [Occupant.holder] at hholder
      | woken u other => simp [Occupant.holder] at hholder
    simp only [intqPerform, wp_bind, wp_pure]
    exact wp_mono (enter_spec hq hnobody) fun _ _ h => h.keeps hq
  | resume t =>
    obtain ⟨call, rfl⟩ := hq.occupant_of_enabled henabled
    simp only [intqPerform, wp_bind, wp_pure]
    refine wp_mono (resume_spec hq) fun result q' h => ?_
    have hnone : KeepsWaiters q q' := .of_none hq.waiter_eq
    cases result with
    | some byte =>
      obtain ⟨after, -, hq'⟩ := h
      exact ⟨hnone, after, _, hq'⟩
    | none => exact ⟨hnone, items, _, h.2⟩
  | interrupt call =>
    simp only [intqPerform, wp_bind, wp_pure]
    refine wp_mono (fromHandler_spec hq henabled) ?_
    rintro byte q' ⟨after, -, hq'⟩
    exact ⟨.of_wake hq hq', after, _, hq'⟩

end

lemma intqStep_ok (h : ∃ items occupant, IntqOk q items occupant)
    (hevent : IntqEnabled q event ∧ LockIsFree q event) :
    ∃ q', intqStep q event = some q' ∧ ∃ items occupant, IntqOk q' items occupant := by
  obtain ⟨items, occupant, hq⟩ := h
  obtain ⟨_, q', hrun, -, hq'⟩ := wp_iff.mp (intqPerform_ok hq hevent.1 hevent.2)
  exact ⟨q', by simp [intqStep, hrun], hq'⟩

/-- In every run in which whoever has to wait finds the lock free, no assertion fails, no waiter is
overwritten and no thread sleeps on after it was signalled. -/
theorem intq_safe_of_lockIsFree (buf : Nat → Byte) {events : List IntqEvent}
    (hevents : Meets intqStep (fun q event => IntqEnabled q event ∧ LockIsFree q event)
      (intqInit buf) events) : ∃ q, run intqStep (intqInit buf) events = some q ∧ NoLostWakeup q ∧
      ∀ event, IntqEnabled q event → LockIsFree q event →
        wp (intqPerform event) (fun _ q' => KeepsWaiters q q' ∧ NoLostWakeup q') q := by
  obtain ⟨q, hrun, items, occupant, hq⟩ := run_total
    (fun _ _ h hevent => intqStep_ok h hevent) ⟨[], .nobody, intqInit_ok buf⟩ hevents
  refine ⟨q, hrun, hq.noLostWakeup, fun event henabled hfree => ?_⟩
  refine wp_mono (intqPerform_ok hq henabled hfree) ?_
  rintro _ q' ⟨hkeeps, after, occupant', hq'⟩
  exact ⟨hkeeps, hq'.noLostWakeup⟩

end Runs

/-- A reader waits, and a handler wakes it with a byte. -/
theorem intq_safe_one_reader : ∃ q, run intqStep (intqInit fun _ => 0)
    [.call 1 .getc, .interrupt (.putc 7), .resume 1] = some q ∧ NoLostWakeup q := by
  have hmeets : Meets intqStep (fun q event => IntqEnabled q event ∧ LockIsFree q event)
      (intqInit fun _ => 0) [.call 1 .getc, .interrupt (.putc 7), .resume 1] := by
    refine .cons ⟨rfl, Or.inr rfl⟩ rfl ?_
    refine .cons ⟨rfl, trivial⟩ rfl ?_
    exact ⟨⟨⟨.getc, Or.inr rfl⟩, trivial⟩, fun _ _ => trivial⟩
  obtain ⟨q, hrun, hq, -⟩ := intq_safe_of_lockIsFree (fun _ => 0) hmeets
  exact ⟨q, hrun, hq⟩

/-- Two readers find the queue empty, and the second one sleeps on the lock.  A handler stores two
bytes, the first reader takes one of them, and the second one has the lock but nothing to wait
for. -/
theorem intq_second_reader : ∃ q, Meets intqStep IntqEnabled (intqInit fun _ => 0)
      [.call 1 .getc, .call 2 .getc, .interrupt (.putc 7), .interrupt (.putc 8), .resume 1] ∧
    run intqStep (intqInit fun _ => 0)
      [.call 1 .getc, .call 2 .getc, .interrupt (.putc 7), .interrupt (.putc 8), .resume 1] =
      some q ∧
    IntqEnabled q (.resume 2) ∧ intqPerform (.resume 2) q = .error (.assertion
      "waiter == &q->not_empty && intq_empty (q) || waiter == &q->not_full && intq_full (q)") := by
  refine ⟨_, ?_, rfl, ⟨.getc, Or.inl rfl⟩, rfl⟩
  refine .cons rfl rfl ?_
  refine .cons rfl rfl ?_
  refine .cons rfl rfl ?_
  refine .cons rfl rfl ?_
  exact ⟨⟨.getc, Or.inr rfl⟩, fun _ _ => trivial⟩

end Pintos.Devices
