import Pintos.Filesys.Operations

/-!
# What the file system is for

In the abstract file system a file is an array of bytes whose length never
changes.  A name is bound to at most one file, and so is a handle, which has a
position besides.  Removing a name leaves the file to the handles that are open
on it.  The model knows no sectors: it does not say when a creation fails, but a
creation that fails changes nothing.
-/

namespace Pintos.Filesys

open Foundation

structure Model where
  next : Nat
  names : CString → Option Nat
  bytes : Nat → List Byte
  handles : Nat → Option (Nat × Int)

namespace Model

def empty : Model := ⟨0, fun _ => none, fun _ => [], fun _ => none⟩

def Live (a : Model) (file : Nat) : Prop :=
  (∃ name, a.names name = some file) ∨ ∃ handle pos, a.handles handle = some (file, pos)

def image (bytes : List Byte) : Memory := fun i => bytes.getD i 0

def count (bytes : List Byte) (size pos : Int) : Nat := (min size (bytes.length - pos)).toNat

def overwrite (bytes : List Byte) (pos : Nat) (buffer : Memory) (n : Nat) : List Byte :=
  bytes.mapIdx fun i b => if pos ≤ i ∧ i < pos + n then buffer (i - pos) else b

def create (a : Model) (name : CString) (length : Nat) : Model where
  next := a.next + 1
  names := update a.names name (some a.next)
  bytes := update a.bytes a.next (replicate length 0)
  handles := a.handles

def setHandle (a : Model) (handle : Nat) (target : Option (Nat × Int)) : Model :=
  { a with handles := update a.handles handle target }

def setBytes (a : Model) (file : Nat) (bytes : List Byte) : Model :=
  { a with bytes := update a.bytes file bytes }

def unbind (a : Model) (name : CString) : Model := { a with names := update a.names name none }

inductive Step (a : Model) : Op → Result → Model → Prop
  | create {name : CString} {initialSize : OffT} (unbound : a.names name = none)
      (nonneg : 0 ≤ initialSize.1) :
      Step a (.create name initialSize) (.created true) (a.create name initialSize.1.toNat)
  | createFailed {name : CString} {initialSize : OffT} :
      Step a (.create name initialSize) (.created false) a
  | open {name : CString} {file handle : Nat} (bound : a.names name = some file)
      (fresh : a.handles handle = none) :
      Step a (.open name) (.opened (some handle)) (a.setHandle handle (some (file, 0)))
  | openFailed {name : CString} (unbound : a.names name = none) :
      Step a (.open name) (.opened none) a
  | reopen {handle file handle' : Nat} {pos : Int} (opened : a.handles handle = some (file, pos))
      (fresh : a.handles handle' = none) :
      Step a (.reopen handle) (.opened (some handle')) (a.setHandle handle' (some (file, 0)))
  | read {handle file n : Nat} {pos : Int} {buffer : Memory} {size : OffT}
      (opened : a.handles handle = some (file, pos)) (all : n = count (a.bytes file) size pos) :
      Step a (.read handle buffer size) (.read n (copy buffer 0 (image (a.bytes file)) pos.toNat n))
        (a.setHandle handle (some (file, pos + n)))
  | write {handle file n : Nat} {pos : Int} {buffer : Memory} {size : OffT}
      (opened : a.handles handle = some (file, pos)) (all : n = count (a.bytes file) size pos) :
      Step a (.write handle buffer size) (.written n)
        ((a.setBytes file (overwrite (a.bytes file) pos.toNat buffer n)).setHandle handle
          (some (file, pos + n)))
  | seek {handle file : Nat} {pos : Int} {newPos : OffT}
      (opened : a.handles handle = some (file, pos)) (nonneg : 0 ≤ newPos.1) :
      Step a (.seek handle newPos) .done (a.setHandle handle (some (file, newPos)))
  | remove {name : CString} {file : Nat} (bound : a.names name = some file) :
      Step a (.remove name) (.removed true) (a.unbind name)
  | removeFailed {name : CString} (unbound : a.names name = none) :
      Step a (.remove name) (.removed false) a
  | close {handle file : Nat} {pos : Int} (opened : a.handles handle = some (file, pos)) :
      Step a (.close handle) .done (a.setHandle handle none)

def Illegal (a : Model) : Op → Prop
  | .create _ initialSize => initialSize.1 < 0
  | .open _ => False
  | .reopen handle => a.handles handle = none
  | .read handle _ _ => a.handles handle = none
  | .write handle _ _ => a.handles handle = none
  | .seek handle pos => a.handles handle = none ∨ pos.1 < 0
  | .remove _ => False
  | .close handle => a.handles handle = none

section Live

variable {a b : Model} {file : Nat}

lemma Live.mono (h : b.Live file) (hnames : ∀ name f, b.names name = some f → a.Live f)
    (hhandles : ∀ handle f pos, b.handles handle = some (f, pos) → a.Live f) : a.Live file := by
  rcases h with ⟨name, hname⟩ | ⟨handle, pos, hhandle⟩
  · exact hnames name file hname
  · exact hhandles handle file pos hhandle

lemma live_setHandle {handle : Nat} {target : Option (Nat × Int)}
    (htarget : ∀ f pos, target = some (f, pos) → a.Live f)
    (h : (a.setHandle handle target).Live file) : a.Live file := by
  refine h.mono (fun name f hname => .inl ⟨name, hname⟩) fun handle' f pos hhandle => ?_
  by_cases hsame : handle' = handle
  · subst hsame
    exact htarget f pos (by simpa [setHandle] using hhandle)
  · exact .inr ⟨handle', pos, by simpa [setHandle, hsame] using hhandle⟩

lemma live_unbind {name : CString} (h : (a.unbind name).Live file) : a.Live file := by
  refine h.mono (fun name' f hname => .inl ⟨name', ?_⟩) fun handle f pos hhandle =>
    .inr ⟨handle, pos, hhandle⟩
  by_cases hsame : name' = name
  · simp [unbind, hsame] at hname
  · simpa [unbind, hsame] using hname

lemma live_create {name : CString} {length : Nat} (h : (a.create name length).Live file) :
    file = a.next ∨ a.Live file := by
  rcases h with ⟨name', hname⟩ | ⟨handle, pos, hhandle⟩
  · by_cases hsame : name' = name
    · subst hsame
      exact .inl (by simpa [create, eq_comm] using hname)
    · exact .inr (.inl ⟨name', by simpa [create, hsame] using hname⟩)
  · exact .inr (.inr ⟨handle, pos, hhandle⟩)

end Live

end Model

end Pintos.Filesys
