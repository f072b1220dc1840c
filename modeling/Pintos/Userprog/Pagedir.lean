import Pintos.Foundation.Memory
import Pintos.Lib.Debug

/-!
# User virtual memory

`threads/vaddr.h`, and `userprog/pagedir.c` as its callers see it: a page
directory gives, for a page below `PHYS_BASE`, the frame it is mapped to.
Addresses are natural numbers below `2 ^ 32`; a page is named by its number.
-/

namespace Pintos.Userprog

open Foundation

def physBase : Nat := 0xC0000000

def pgSize : Nat := 4096

/-- Pointer arithmetic.  Unfolding a remainder by `2 ^ 32` in unification is hopeless. -/
@[irreducible] def ptrAdd (address bytes : Nat) : Nat := (address + bytes) % 2 ^ 32

lemma ptrAdd_eq {address bytes : Nat} (h : address + bytes < 2 ^ 32) :
    ptrAdd address bytes = address + bytes := by
  unfold ptrAdd
  exact Nat.mod_eq_of_lt h

def pgNo (address : Nat) : Nat := address / pgSize

def pgOfs (address : Nat) : Nat := address % pgSize

def pgRoundDown (address : Nat) : Nat := address - pgOfs address

structure Pte where
  frame : Nat
  writable : Bool
  accessed : Bool
  dirty : Bool
  deriving DecidableEq, Repr

def Pagedir : Type := Nat → Option Pte

namespace Pagedir

def Maps (pd : Pagedir) (address : Nat) : Prop := address < physBase ∧ (pd (pgNo address)).isSome

instance (pd : Pagedir) (address : Nat) : Decidable (pd.Maps address) :=
  inferInstanceAs (Decidable (_ ∧ _))

def getPage (pd : Pagedir) (uaddr : Nat) : Except Fault (Option Pte) := do
  assertThat (uaddr < physBase) "is_user_vaddr (uaddr)"
  return pd (pgNo uaddr)

end Pagedir

def isValidPtr (pd : Pagedir) (userPtr : Nat) : Except Fault Bool :=
  if userPtr ≠ 0 ∧ userPtr < physBase then (pd.getPage userPtr).map Option.isSome
  else .ok false

def ValidPtr (pd : Pagedir) (userPtr : Nat) : Prop := userPtr ≠ 0 ∧ pd.Maps userPtr

instance (pd : Pagedir) (userPtr : Nat) : Decidable (ValidPtr pd userPtr) :=
  inferInstanceAs (Decidable (_ ∧ _))

lemma isValidPtr_eq (pd : Pagedir) (userPtr : Nat) :
    isValidPtr pd userPtr = .ok (decide (ValidPtr pd userPtr)) := by
  by_cases h : userPtr ≠ 0 ∧ userPtr < physBase
  · simp [isValidPtr, h, Pagedir.getPage, ValidPtr, Pagedir.Maps, Except.map, bind, Except.bind,
      pure, Except.pure]
  · have : ¬ ValidPtr pd userPtr := fun hv => h ⟨hv.1, hv.2.1⟩
    simp [isValidPtr, h, this]

end Pintos.Userprog
