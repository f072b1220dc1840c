import Pintos.Filesys.File
import Pintos.Lib.CString

/-!
# Directories

`filesys/directory.c`.  A directory is an inode whose data is an array of
20-byte entries: the sector of the file's header, its name in 15 bytes, and the
`in_use` flag.  `struct dir_entry` variables are kept as their byte image.
-/

namespace Pintos.Filesys

open Foundation

def nameMax : Nat := 14

def dirEntrySize : Nat := 20

-- `pos` serves `dir_readdir` only, which is given it as an argument.
structure Dir where
  inode : Nat
  deriving DecidableEq, Repr

/-! ## Directory entries -/

def entrySector (m : Memory) (a : Nat) : Nat := word32 m a

def entryInUse (m : Memory) (a : Nat) : Bool := m (a + 19) ≠ 0

def entryHasName (m : Memory) (a : Nat) (name : CString) : Bool := name.sameAs m (a + 4)

def entryName (m : Memory) (a : Nat) : CString := CString.stringAt m (a + 4) nameMax

def fillEntry (e : Memory) (name : CString) (inodeSector : Nat) : Memory :=
  copy (CString.strlcpy (fill e 19 1 1) 4 name (nameMax + 1)) 0 (wordByte inodeSector) 0 4

def clearEntry (e : Memory) : Memory := fill e 19 0 1

/-! ## Opening and closing -/

def dirCreate (sector entryCnt : Nat) : FsAction Bool :=
  inodeCreate sector (toSigned32 (entryCnt * dirEntrySize))

def dirOpen (inode : Option Nat) : FsAction (Option Dir) := do
  let allocated ← malloc
  match inode, allocated with
  | some inode, true => return some { inode }
  | inode, _ => do
    inodeClose inode
    return none

def dirOpenRoot : FsAction (Option Dir) := do
  let inode ← inodeOpen rootDirSector
  dirOpen inode

def dirClose : Option Dir → FsAction Unit
  | none => pure ()
  | some dir => inodeClose (some dir.inode)

/-! ## Searching and changing -/

def lookupLoop (inode : Inode) (name : CString) :
    Nat → Memory → Nat → FsAction (Option (Memory × Nat))
  | 0, _, _ => pure none
  | fuel + 1, e, ofs => do
    let (bytesRead, e) ← inodeReadAt inode e dirEntrySize ofs
    if bytesRead = dirEntrySize then
      if entryInUse e 0 ∧ entryHasName e 0 name then return some (e, ofs)
      else lookupLoop inode name fuel e (ofs + dirEntrySize)
    else return none

-- The loop ends at the first offset with no complete entry.
def entryFuel (inode : Inode) : Nat := inode.data.length.toNat / dirEntrySize + 1

def requireName (name : Option CString) : FsAction CString :=
  match name with
  | some name => pure name
  | none => stop (.assertion "name != NULL")

def uninitialised : FsAction Memory := do
  let s ← Action.get
  return s.garbage s.allocations

def lookup (dir : Dir) (name : Option CString) : FsAction (Option (Memory × Nat)) := do
  let name ← requireName name
  let inode ← getInode dir.inode
  let e ← uninitialised
  lookupLoop inode name (entryFuel inode) e 0

def dirLookup (dir : Dir) (name : Option CString) : FsAction (Option Nat) := do
  match ← lookup dir name with
  | some (e, _) => inodeOpen (entrySector e 0)
  | none => return none

def freeSlotLoop (inode : Inode) : Nat → Memory → Nat → FsAction (Memory × Nat)
  | 0, e, ofs => pure (e, ofs)
  | fuel + 1, e, ofs => do
    let (bytesRead, e) ← inodeReadAt inode e dirEntrySize ofs
    if bytesRead = dirEntrySize then
      if entryInUse e 0 then freeSlotLoop inode fuel e (ofs + dirEntrySize)
      else return (e, ofs)
    else return (e, ofs)

def dirAdd (dir : Dir) (name : Option CString) (inodeSector : Nat) : FsAction Bool := do
  let name ← requireName name
  if name.strlen = 0 ∨ name.strlen > nameMax then return false
  else
    match ← lookup dir (some name) with
    | some _ => return false
    | none => do
      let inode ← getInode dir.inode
      let e ← uninitialised
      let (e, ofs) ← freeSlotLoop inode (entryFuel inode) e 0
      let written ← inodeWriteAt inode (fillEntry e name inodeSector) dirEntrySize ofs
      return written = dirEntrySize

def dirRemove (dir : Dir) (name : Option CString) : FsAction Bool := do
  match ← lookup dir name with
  | none => return false
  | some (e, ofs) => do
    match ← inodeOpen (entrySector e 0) with
    | none => return false
    | some inode => do
      let directory ← getInode dir.inode
      let written ← inodeWriteAt directory (clearEntry e) dirEntrySize ofs
      if written ≠ dirEntrySize then
        inodeClose (some inode)
        return false
      else
        inodeRemove inode
        inodeClose (some inode)
        return true

def readdirLoop (inode : Inode) : Nat → Memory → Nat → FsAction (Option CString × Nat)
  | 0, _, pos => pure (none, pos)
  | fuel + 1, e, pos => do
    let (bytesRead, e) ← inodeReadAt inode e dirEntrySize pos
    if bytesRead = dirEntrySize then
      if entryInUse e 0 then return (some (entryName e 0), pos + dirEntrySize)
      else readdirLoop inode fuel e (pos + dirEntrySize)
    else return (none, pos)

def dirReaddir (dir : Dir) (pos : Nat) : FsAction (Option CString × Nat) := do
  let inode ← getInode dir.inode
  let e ← uninitialised
  readdirLoop inode (entryFuel inode) e pos

end Pintos.Filesys
