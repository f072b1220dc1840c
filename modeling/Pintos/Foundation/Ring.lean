import Mathlib.Tactic

/-!
# Ring buffers

Items are put at `head` and taken at `tail`, and both run through the places
below a size.  One place stays free, so that an empty ring can be told from a
full one.  `Fifo` relates a ring to the list of the items in it.
-/

namespace Pintos.Foundation

variable {α : Type}

structure RingBuffer (α : Type) where
  buf : Nat → α
  head : Nat
  tail : Nat

namespace RingBuffer

def next (size pos : Nat) : Nat := (pos + 1) % size

def isEmpty (r : RingBuffer α) : Bool := r.head = r.tail

def isFull (size : Nat) (r : RingBuffer α) : Bool := next size r.head = r.tail

def put (size : Nat) (r : RingBuffer α) (a : α) : RingBuffer α :=
  { r with buf := Function.update r.buf r.head a, head := next size r.head }

def first (r : RingBuffer α) : α := r.buf r.tail

def drop (size : Nat) (r : RingBuffer α) : RingBuffer α := { r with tail := next size r.tail }

structure Fifo (size : Nat) (r : RingBuffer α) (items : List α) : Prop where
  tail_lt : r.tail < size
  room : items.length < size
  head_eq : r.head = (r.tail + items.length) % size
  item : ∀ i a, items[i]? = some a → r.buf ((r.tail + i) % size) = a

lemma mod_of_lt_two_mul {a n : Nat} (h : a < 2 * n) : a % n = if a < n then a else a - n := by
  split
  · exact Nat.mod_eq_of_lt ‹_›
  · rw [Nat.mod_eq_sub_mod (by omega), Nat.mod_eq_of_lt (by omega)]

section Fifo

variable {size : Nat} {r : RingBuffer α} {items : List α}

lemma fifo_nil (buf : Nat → α) {pos : Nat} (hpos : pos < size) : Fifo size ⟨buf, pos, pos⟩ [] where
  tail_lt := hpos
  room := Nat.lt_of_le_of_lt (Nat.zero_le _) hpos
  head_eq := (Nat.mod_eq_of_lt hpos).symm
  item := by simp

lemma Fifo.isEmpty_iff (h : Fifo size r items) : r.isEmpty = true ↔ items = [] := by
  have htail := h.tail_lt
  have hroom := h.room
  rw [isEmpty, decide_eq_true_eq, h.head_eq, mod_of_lt_two_mul (by omega),
    ← List.length_eq_zero_iff]
  split <;> omega

lemma Fifo.isFull_iff (h : Fifo size r items) : r.isFull size = true ↔ items.length + 1 = size := by
  have htail := h.tail_lt
  have hroom := h.room
  rw [isFull, decide_eq_true_eq, next, h.head_eq, Nat.mod_add_mod, mod_of_lt_two_mul (by omega)]
  split <;> omega

lemma Fifo.put (h : Fifo size r items) (hfull : r.isFull size = false) (a : α) :
    Fifo size (r.put size a) (items ++ [a]) := by
  have htail := h.tail_lt
  have hroom := h.room
  have hspace : items.length + 1 < size := by
    have hne : ¬ items.length + 1 = size := fun heq => by simp [h.isFull_iff.mpr heq] at hfull
    omega
  refine ⟨h.tail_lt, by simpa using hspace, ?_, ?_⟩
  · rw [List.length_append, List.length_singleton]
    change next size r.head = _
    rw [next, h.head_eq, Nat.mod_add_mod, Nat.add_assoc]
    rfl
  intro i b hb
  change Function.update r.buf r.head a ((r.tail + i) % size) = b
  rcases Nat.lt_or_ge i items.length with hi | hi
  · rw [List.getElem?_append_left hi] at hb
    have hne : (r.tail + i) % size ≠ r.head := by
      rw [h.head_eq, mod_of_lt_two_mul (by omega), mod_of_lt_two_mul (by omega)]
      split <;> split <;> omega
    rw [Function.update_of_ne hne, h.item i b hb]
  rw [List.getElem?_append_right hi] at hb
  obtain ⟨hzero, rfl⟩ : i - items.length = 0 ∧ a = b := by
    cases hk : i - items.length with
    | zero => simpa [hk] using hb
    | succ k => simp [hk] at hb
  obtain rfl : i = items.length := by omega
  rw [h.head_eq, Function.update_self]

lemma Fifo.first_eq {a : α} {rest : List α} (h : Fifo size r (a :: rest)) : r.first = a := by
  have hitem := h.item 0 a rfl
  rwa [Nat.add_zero, Nat.mod_eq_of_lt h.tail_lt] at hitem

lemma Fifo.drop {a : α} {rest : List α} (h : Fifo size r (a :: rest)) :
    Fifo size (r.drop size) rest := by
  have htail := h.tail_lt
  have hroom := h.room
  rw [List.length_cons] at hroom
  refine ⟨Nat.mod_lt _ (by omega), by omega, ?_, ?_⟩
  · change r.head = ((r.tail + 1) % size + rest.length) % size
    rw [Nat.mod_add_mod, h.head_eq, List.length_cons]
    congr 1
    omega
  · intro i b hb
    change r.buf (((r.tail + 1) % size + i) % size) = b
    rw [Nat.mod_add_mod, ← h.item (i + 1) b (by simpa using hb)]
    congr 2
    omega

end Fifo

end RingBuffer

end Pintos.Foundation
