import Pintos.Foundation.Memory
import Pintos.Lib.Debug

/-!
# Doubly linked lists in memory

The lists of `lib/kernel/list.c`: an element is a pair of pointers, `prev` and
then `next`, and a list is a head element followed by a tail element.  A null
pointer is 0.
-/

namespace Pintos.KernelList

open Foundation

variable {m : Memory} {elem first last : Nat} {elems : List Nat}

def prev (m : Memory) (elem : Nat) : Nat := word32 m elem

def next (m : Memory) (elem : Nat) : Nat := word32 m (elem + 4)

def IsHead (m : Memory) (elem : Nat) : Prop := elem ≠ 0 ∧ prev m elem = 0 ∧ next m elem ≠ 0

def IsInterior (m : Memory) (elem : Nat) : Prop := elem ≠ 0 ∧ prev m elem ≠ 0 ∧ next m elem ≠ 0

instance (m : Memory) (elem : Nat) : Decidable (IsHead m elem) :=
  inferInstanceAs (Decidable (_ ∧ _))

instance (m : Memory) (elem : Nat) : Decidable (IsInterior m elem) :=
  inferInstanceAs (Decidable (_ ∧ _))

def IsTail (m : Memory) (elem : Nat) : Prop := elem ≠ 0 ∧ prev m elem ≠ 0 ∧ next m elem = 0

instance (m : Memory) (elem : Nat) : Decidable (IsTail m elem) :=
  inferInstanceAs (Decidable (_ ∧ _))

def listNext (m : Memory) (elem : Nat) : Except Fault Nat := do
  assertThat (IsHead m elem ∨ IsInterior m elem) "is_head (elem) || is_interior (elem)"
  return next m elem

def listPrev (m : Memory) (elem : Nat) : Except Fault Nat := do
  assertThat (IsInterior m elem ∨ IsTail m elem) "is_interior (elem) || is_tail (elem)"
  return prev m elem

def listHead (list : Nat) : Nat := list

def listTail (list : Nat) : Nat := list + 8

def Linked (m : Memory) (last : Nat) : Nat → List Nat → Prop
  | elem, [] => next m elem = last ∧ prev m last = elem
  | elem, following :: rest =>
    next m elem = following ∧ prev m following = elem ∧ Linked m last following rest

structure IsList (m : Memory) (list : Nat) (elems : List Nat) : Prop where
  head : prev m (listHead list) = 0
  tail : next m (listTail list) = 0
  linked : Linked m (listTail list) (listHead list) elems
  nonnull : ∀ elem ∈ listHead list :: (elems ++ [listTail list]), elem ≠ 0
  nodup : (listHead list :: (elems ++ [listTail list])).Nodup

lemma listNext_of_linked
    (h : Linked m last elem elems) (hnonnull : ∀ e ∈ elem :: (elems ++ [last]), e ≠ 0) :
    listNext m elem = .ok ((elems ++ [last]).headD 0) := by
  have helem := hnonnull elem mem_cons_self
  have hnext : next m elem = (elems ++ [last]).headD 0 ∧ next m elem ≠ 0 := by
    cases elems with
    | nil => exact ⟨h.1, by rw [h.1]; exact hnonnull last (by simp)⟩
    | cons following rest => exact ⟨h.1, by rw [h.1]; exact hnonnull following (by simp)⟩
  have hassert : IsHead m elem ∨ IsInterior m elem := by
    by_cases hprev : prev m elem = 0
    · exact .inl ⟨helem, hprev, hnext.2⟩
    · exact .inr ⟨helem, hprev, hnext.2⟩
  rw [listNext, assertThat_of_true _ hassert, ← hnext.1]
  rfl

/-! ## From the back to the front -/

def LinkedBack (m : Memory) (first : Nat) : Nat → List Nat → Prop
  | elem, [] => prev m elem = first
  | elem, preceding :: rest => prev m elem = preceding ∧ LinkedBack m first preceding rest

lemma LinkedBack.concat {before : Nat} (h : LinkedBack m first elem elems)
    (hprev : prev m first = before) : LinkedBack m before elem (elems ++ [first]) := by
  induction elems generalizing elem with
  | nil => exact ⟨h, hprev⟩
  | cons preceding rest ih => exact ⟨h.1, ih h.2⟩

lemma Linked.back (h : Linked m last elem elems) : LinkedBack m elem last elems.reverse := by
  induction elems generalizing elem with
  | nil => exact h.2
  | cons following rest ih =>
    rw [reverse_cons]
    exact (ih h.2.2).concat h.2.1

lemma listPrev_of_linkedBack
    (h : LinkedBack m first elem elems) (hnonnull : ∀ e ∈ elem :: (elems ++ [first]), e ≠ 0) :
    listPrev m elem = .ok ((elems ++ [first]).headD 0) := by
  have helem := hnonnull elem mem_cons_self
  have hprev : prev m elem = (elems ++ [first]).headD 0 ∧ prev m elem ≠ 0 := by
    cases elems with
    | nil => exact ⟨h, by rw [h]; exact hnonnull first (by simp)⟩
    | cons preceding rest => exact ⟨h.1, by rw [h.1]; exact hnonnull preceding (by simp)⟩
  have hassert : IsInterior m elem ∨ IsTail m elem := by
    by_cases hnext : next m elem = 0
    · exact .inr ⟨helem, hprev.2, hnext⟩
    · exact .inl ⟨helem, hprev.2, hnext⟩
  rw [listPrev, assertThat_of_true _ hassert, ← hprev.1]
  rfl

end Pintos.KernelList
