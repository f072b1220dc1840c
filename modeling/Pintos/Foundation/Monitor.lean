import Mathlib.Tactic

/-!
# Monitors

A lock with one condition variable.  A thread that waits on the condition queues
a semaphore of its own in `waiters`, lets go of the lock and goes down on the
semaphore; a signal takes the first semaphore off the queue and raises it, which
puts its owner in `woken`.

`Exclusive m inside` says that the threads inside their critical section are the
holder of the lock and nobody else.  A thread that moves keeps it in one of three
ways: it takes the lock, it lets go of it, or it stays where it is.
-/

namespace Pintos.Foundation

structure Monitor (ι : Type) where
  holder : Option ι
  waiters : List ι
  woken : List ι

namespace Monitor

variable {ι : Type}

def free : Monitor ι := ⟨none, [], []⟩

def acquire (m : Monitor ι) (i : ι) : Option (Monitor ι) :=
  if m.holder = none then some { m with holder := some i } else none

def release (m : Monitor ι) : Monitor ι := { m with holder := none }

def enqueue (m : Monitor ι) (i : ι) : Monitor ι := { m with waiters := m.waiters ++ [i] }

def signal (m : Monitor ι) : Monitor ι :=
  match m.waiters with
  | [] => m
  | i :: rest => { m with waiters := rest, woken := i :: m.woken }

def down [DecidableEq ι] (m : Monitor ι) (i : ι) : Option (Monitor ι) :=
  if i ∈ m.woken then some { m with woken := m.woken.erase i } else none

attribute [grind] acquire release enqueue signal down

/-! ## Mutual exclusion -/

def Exclusive (m : Monitor ι) (inside : ι → Bool) : Prop := ∀ i, m.holder = some i ↔ inside i = true

/-- What a step of thread `i` does to the lock, if it was inside its critical section
`before` the step and is inside one `after` it. -/
inductive Moves (m m' : Monitor ι) (i : ι) (before after : Bool) : Prop
  | acquire (h : m.acquire i = some m') (hafter : after = true)
  | release (hbefore : before = true) (h : m' = m.release) (hafter : after = false)
  | stay (h : m'.holder = m.holder) (hsame : after = before)

namespace Exclusive

variable {m m' : Monitor ι} {inside inside' : ι → Bool} {i j : ι}

lemma unique (h : m.Exclusive inside) (hi : inside i = true) (hj : inside j = true) : i = j := by
  have hholder := (h i).mpr hi
  rw [(h j).mpr hj] at hholder
  exact (Option.some.inj hholder).symm

lemma moves (h : m.Exclusive inside) (hmove : Moves m m' i (inside i) (inside' i))
    (hothers : ∀ j, j ≠ i → inside' j = inside j) : m'.Exclusive inside' := by
  intro j
  cases hmove with
  | acquire hacquire hafter =>
    have hfree : m.holder = none := by grind
    by_cases hj : j = i
    · grind
    have hout : ¬ inside j = true := fun hj' => by simp [(h j).mpr hj'] at hfree
    grind
  | release hbefore hrelease hafter =>
    by_cases hj : j = i
    · grind
    have hout : ¬ inside j = true := fun hj' => hj (h.unique hj' hbefore)
    grind
  | stay hholder hsame =>
    by_cases hj : j = i
    · rw [hj, hholder, hsame]
      exact h i
    · rw [hholder, hothers j hj]
      exact h j

end Exclusive

end Monitor

end Pintos.Foundation
