import Pintos.Filesys.Inode

/-!
# Open files

`filesys/file.c`.  A `struct file` is a position in an open inode.  File
operations take the address of the file; an address at which no file is open
stands for a pointer the caller no longer owns.
-/

namespace Pintos.Filesys

open Foundation

def fileOpen (inode : Option Nat) : FsAction (Option Nat) := do
  let allocated ← malloc
  match inode, allocated with
  | some inode, true => do
    let addr ← newAddress
    Action.modify fun s => s.setFiles ({ addr, inode, pos := 0, denyWrite := false } :: s.files)
    return some addr
  | inode, _ => do
    inodeClose inode
    return none

def fileReopen (file : Nat) : FsAction (Option Nat) := do
  let file ← getFile file
  let inode ← inodeReopen file.inode
  fileOpen (some inode)

def updateFile (file : Nat) (f : File → File) : FsAction Unit :=
  Action.modify fun s => s.setFiles (updateAt File.addr s.files file f)

def fileDenyWrite (addr : Nat) : FsAction Unit := do
  let file ← getFile addr
  if !file.denyWrite then do
    updateFile addr ({ · with denyWrite := true })
    inodeDenyWrite file.inode

def fileAllowWrite (addr : Nat) : FsAction Unit := do
  let file ← getFile addr
  if file.denyWrite then do
    updateFile addr ({ · with denyWrite := false })
    inodeAllowWrite file.inode

def fileClose : Option Nat → FsAction Unit
  | none => pure ()
  | some addr => do
    let file ← getFile addr
    fileAllowWrite addr
    -- `free (file)` comes last in the source, but nothing below reads the file
    Action.modify fun s => s.setFiles (removeAt File.addr s.files addr)
    inodeClose (some file.inode)

def fileRead (addr : Nat) (buffer : Memory) (size : Int) : FsAction (Int × Memory) := do
  let file ← getFile addr
  let inode ← getInode file.inode
  let (bytesRead, buffer) ← inodeReadAt inode buffer size file.pos
  updateFile addr fun f => { f with pos := f.pos + bytesRead }
  return (bytesRead, buffer)

def fileWrite (addr : Nat) (buffer : Memory) (size : Int) : FsAction Int := do
  let file ← getFile addr
  let inode ← getInode file.inode
  let bytesWritten ← inodeWriteAt inode buffer size file.pos
  updateFile addr fun f => { f with pos := f.pos + bytesWritten }
  return bytesWritten

def fileLength (addr : Nat) : FsAction Int := do
  let file ← getFile addr
  let inode ← getInode file.inode
  return inode.data.length

def fileSeek (addr : Nat) (newPos : Int) : FsAction Unit := do
  require (newPos ≥ 0) (.assertion "new_pos >= 0")
  let _ ← getFile addr
  updateFile addr ({ · with pos := newPos })

end Pintos.Filesys
