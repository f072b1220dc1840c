import Pintos.Foundation.Action

/-!
# How kernel code stops

`ASSERT` and `PANIC` halt the machine with a message.  Following a pointer that
designates no object is kept apart from both, and so is a request that breaks
the interface the caller promised to respect.  A load through a null pointer
enters the page fault handler.
-/

namespace Pintos

open Foundation

inductive Fault where
  | assertion (condition : String)
  | panic (message : String)
  | wildAccess
  | nullAccess
  | misuse
  deriving DecidableEq, Repr

def assertThat (condition : Prop) [Decidable condition] (text : String) : Except Fault Unit :=
  if condition then .ok () else .error (.assertion text)

@[simp] lemma assertThat_of_true {condition : Prop} [Decidable condition]
    (text : String) (h : condition) : assertThat condition text = .ok () :=
  if_pos h

end Pintos
