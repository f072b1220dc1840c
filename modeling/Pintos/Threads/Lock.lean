import Pintos.Threads.Semaphore

/-!
# Locks and condition variables

`threads/synch.c`: a lock and its condition variable, used by any number of
threads.  Only the calls of the semaphore functions keep interrupts off, so the
unit of execution is a statement of `lock_acquire`, `lock_try_acquire`,
`lock_release`, `cond_wait`, `cond_signal` or `cond_broadcast`.  `Pc` says which
statement a thread executes next.

The semaphore of the lock has number 0, and the semaphore that a thread has on
its stack while it is in `cond_wait` has the number after that of the thread.
-/

namespace Pintos.Threads

open Foundation

/-- A call of `cond_signal`: the threads that had entered `cond_wait` and had not been signalled
when it was made, the one that has waited longest first, and the thread whose semaphore it
raised. -/
structure SignalCall where
  waiting : List Nat
  woken : Option Nat
  deriving DecidableEq, Repr

structure BroadcastCall where
  waiting : List Nat
  released : List Nat
  steps : Nat
  deriving DecidableEq, Repr

namespace BroadcastCall

@[simps] def tick (b : BroadcastCall) : BroadcastCall := { b with steps := b.steps + 1 }

@[simps] def wake (b : BroadcastCall) (t : Nat) : BroadcastCall :=
  { b with released := b.released ++ [t] }

end BroadcastCall

/-- The argument of the statements of `lock_release` says whether `cond_wait` made the call, that of
the statements of `cond_signal` starts with the threads that waited when the call was made and
ends with the `cond_broadcast` that made it. -/
inductive Pc where
  | out
  | inside
  | acquireAssert
  | acquireDown
  | acquireSet
  | tryAssert
  | tryDown
  | trySet
  | releaseAssert (wait : Bool)
  | releaseClear (wait : Bool)
  | releaseUp (wait : Bool)
  | waitAssert
  | waitInit
  | waitPush
  | waitDown
  | signalAssert (waiting : List Nat) (loop : Option BroadcastCall)
  | signalTest (waiting : List Nat) (loop : Option BroadcastCall)
  | signalUp (waiter : Nat) (waiting : List Nat) (loop : Option BroadcastCall)
  | broadcastTest (loop : BroadcastCall)
  deriving DecidableEq, Repr

structure Locks where
  semas : Semas
  holder : Option Nat
  /-- `cond->waiters`. -/
  condWaiters : List Nat
  pc : Nat → Pc
  /-- The calls of `cond_wait`, and those that have come back from their semaphore. -/
  entered : List Nat
  left : List Nat
  /-- The calls that are over. -/
  signals : List SignalCall
  broadcasts : List BroadcastCall

abbrev LockAction := Action Locks Fault

namespace Locks

@[simps -fullyApplied] def setSemas (c : Locks) (semas : Semas) : Locks := { c with semas }

@[simps -fullyApplied] def setHolder (c : Locks) (holder : Option Nat) : Locks := { c with holder }

@[simps -fullyApplied] def setCondWaiters (c : Locks) (condWaiters : List Nat) : Locks :=
  { c with condWaiters }

@[simps -fullyApplied] def setPc (c : Locks) (t : Nat) (pc : Pc) : Locks :=
  { c with pc := update c.pc t pc }

@[simps -fullyApplied] def noteEntry (c : Locks) (t : Nat) : Locks :=
  { c with entered := c.entered ++ [t] }

@[simps -fullyApplied] def noteLeave (c : Locks) (t : Nat) : Locks :=
  { c with left := c.left ++ [t] }

@[simps -fullyApplied] def noteSignal (c : Locks) (call : SignalCall) : Locks :=
  { c with signals := c.signals ++ [call] }

@[simps -fullyApplied] def noteBroadcast (c : Locks) (call : BroadcastCall) : Locks :=
  { c with broadcasts := c.broadcasts ++ [call] }

def current (c : Locks) : Nat := c.semas.sched.current

def signalled (c : Locks) : List Nat := c.signals.filterMap SignalCall.woken

def unsignalled (c : Locks) : List Nat := c.entered.drop c.signalled.length

end Locks

def onSemas {α : Type} (x : SemaAction α) : LockAction α := zoom Locks.semas Locks.setSemas x

def goTo (t : Nat) (pc : Pc) : LockAction Unit := Action.modify (·.setPc t pc)

def lockHeldByCurrentThread : LockAction Bool := do
  let cur ← onSemas (onSched threadCurrent)
  let c ← Action.get
  return decide (c.holder = some cur)

/-- `sema_init (&waiter.semaphore, 0)`. -/
def semaInit (sema value : Nat) : SemaAction Unit :=
  Action.modify fun c =>
    { c with
      value := update c.value sema value
      sched := c.sched.setWaiters sema [] }

def afterSignal : Option BroadcastCall → Pc
  | none => .inside
  | some loop => .broadcastTest loop

def assertHeld (expected : Bool) (text : String) : LockAction Unit := do
  let held ← lockHeldByCurrentThread
  require (held = expected) (.assertion text)

def statement (cur : Nat) : Pc → LockAction Unit
  | .out | .inside => stop .misuse
  | .acquireAssert => do
    assertHeld false "!lock_held_by_current_thread (lock)"
    goTo cur .acquireDown
  | .acquireDown => do
    let done ← onSemas (downRound 0)
    if done then goTo cur .acquireSet
  | .acquireSet => do
    let holder ← onSemas (onSched threadCurrent)
    Action.modify (·.setHolder (some holder))
    goTo cur .inside
  | .tryAssert => do
    assertHeld false "!lock_held_by_current_thread (lock)"
    goTo cur .tryDown
  | .tryDown => do
    let success ← onSemas (semaTryDown 0)
    goTo cur (if success then .trySet else .out)
  | .trySet => do
    let holder ← onSemas (onSched threadCurrent)
    Action.modify (·.setHolder (some holder))
    goTo cur .inside
  | .releaseAssert wait => do
    assertHeld true "lock_held_by_current_thread (lock)"
    goTo cur (.releaseClear wait)
  | .releaseClear wait => do
    Action.modify (·.setHolder none)
    goTo cur (.releaseUp wait)
  | .releaseUp wait => do
    onSemas (semaUp 0)
    goTo cur (if wait then .waitDown else .out)
  | .waitAssert => do
    assertHeld true "lock_held_by_current_thread (lock)"
    goTo cur .waitInit
  | .waitInit => do
    onSemas (semaInit (cur + 1) 0)
    goTo cur .waitPush
  | .waitPush => do
    Action.modify fun c => c.setCondWaiters (c.condWaiters ++ [cur])
    goTo cur (.releaseAssert true)
  | .waitDown => do
    let done ← onSemas (downRound (cur + 1))
    if done then do
      Action.modify (·.noteLeave cur)
      goTo cur .acquireAssert
  | .signalAssert waiting loop => do
    assertHeld true "lock_held_by_current_thread (lock)"
    goTo cur (.signalTest waiting (loop.map BroadcastCall.tick))
  | .signalTest waiting loop => do
    let c ← Action.get
    match c.condWaiters with
    | [] => do
      Action.modify (·.noteSignal ⟨waiting, none⟩)
      goTo cur (afterSignal (loop.map BroadcastCall.tick))
    | waiter :: rest => do
      Action.modify (·.setCondWaiters rest)
      goTo cur (.signalUp waiter waiting (loop.map BroadcastCall.tick))
  | .signalUp waiter waiting loop => do
    onSemas (semaUp (waiter + 1))
    Action.modify (·.noteSignal ⟨waiting, some waiter⟩)
    goTo cur (afterSignal (loop.map fun b => b.tick.wake waiter))
  | .broadcastTest loop => do
    let c ← Action.get
    if c.condWaiters.isEmpty then do
      Action.modify (·.noteBroadcast loop.tick)
      goTo cur .inside
    else goTo cur (.signalAssert c.unsignalled (some loop.tick))

/-! ## Steps -/

inductive LockEvent where
  /-- The current thread makes a call. -/
  | acquire
  | tryAcquire
  | release
  | wait
  | signal
  | broadcast
  /-- The current thread executes a statement of the call it is in. -/
  | execute
  /-- Anything else that involves the scheduler, preemption for one. -/
  | other (event : SchedEvent)
  deriving DecidableEq, Repr

def lockPerform : LockEvent → LockAction Unit
  | .acquire => do
    let c ← Action.get
    goTo c.current .acquireAssert
  | .tryAcquire => do
    let c ← Action.get
    goTo c.current .tryAssert
  | .release => do
    let c ← Action.get
    goTo c.current (.releaseAssert false)
  | .wait => do
    let c ← Action.get
    Action.modify (·.noteEntry c.current)
    goTo c.current .waitAssert
  | .signal => do
    let c ← Action.get
    goTo c.current (.signalAssert c.unsignalled none)
  | .broadcast => do
    let c ← Action.get
    goTo c.current (.broadcastTest ⟨c.unsignalled, [], 0⟩)
  | .execute => do
    let c ← Action.get
    statement c.current (c.pc c.current)
  | .other event => onSemas (onSched (perform event))

def lockStep (c : Locks) (event : LockEvent) : Option Locks :=
  match lockPerform event c with
  | .ok (_, d) => some d
  | .error _ => none

def Pc.busy : Pc → Bool
  | .out | .inside => false
  | _ => true

/-- The preconditions of the functions: a thread that acquires the lock does not have it, and the
other calls are made by the thread that has it.  A thread in the middle of a call does nothing else,
and the idle thread makes no calls. -/
def LockAllowed (c : Locks) : LockEvent → Prop
  | .acquire | .tryAcquire => c.pc c.current = .out ∧ c.semas.sched.idleThread ≠ some c.current
  | .release | .wait | .signal | .broadcast => c.pc c.current = .inside
  | .execute => (c.pc c.current).busy = true
  | .other event => SemaAllowed c.semas (.other event) ∧
      (event = .block none ∨ event = .exit → (c.pc c.current).busy = false)

def Locks.initially (sched : Sched) : Locks where
  semas := .initially sched fun sema => if sema = 0 then 1 else 0
  holder := none
  condWaiters := []
  pc _ := .out
  entered := []
  left := []
  signals := []
  broadcasts := []

/-! ## What holds between steps -/

/-- Between acquiring and releasing: from the decrement of the semaphore to its increment. -/
def Pc.owns : Pc → Bool
  | .out | .acquireAssert | .acquireDown | .tryAssert | .tryDown | .waitDown => false
  | _ => true

def Pc.holds : Pc → Bool
  | .acquireSet | .trySet | .releaseUp _ => false
  | pc => pc.owns

def Pc.inBroadcast : Pc → Option BroadcastCall
  | .signalAssert _ loop | .signalTest _ loop | .signalUp _ _ loop => loop
  | .broadcastTest loop => some loop
  | _ => none

structure LockSafe (c : Locks) : Prop where
  exclusive : ∀ t u, (c.pc t).owns = true → (c.pc u).owns = true → t = u
  holder : ∀ t, c.holder = some t → (c.pc t).owns = true
  /-- Each `cond_signal` wakes the thread that has waited longest. -/
  longest : ∀ call ∈ c.signals, call.woken = call.waiting.head?
  inOrder : c.signalled <+: c.entered
  /-- No thread leaves its wait without a signal, and a signalled thread can do so. -/
  noOther : ∀ t, c.left.count t ≤ c.signalled.count t
  delivered : ∀ t, c.left.count t < c.signalled.count t →
    c.pc t = .waitDown ∧ 0 < c.semas.value (t + 1) ∧ Awake c.semas.sched t
  /-- A `cond_broadcast` is over after so many statements, none of which blocks. -/
  terminates : ∀ t, ∀ b ∈ (c.pc t).inBroadcast,
    b.steps ≤ 4 * b.waiting.length ∧ Awake c.semas.sched t
  released : ∀ b ∈ c.broadcasts, b.released = b.waiting ∧ b.steps = 4 * b.waiting.length + 1

end Pintos.Threads
