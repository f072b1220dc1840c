import Pintos.Filesys.Directory

/-!
# The file system interface

`filesys/filesys.c`, and the part of `filesys/free-map.c` that runs when the
file system is formatted and started.
-/

namespace Pintos.Filesys

open Foundation

/-- The conjunction that computes `success`, and the value left in `inode_sector`. -/
def createIn (dir : Option Dir) (name : Option CString) (initialSize : Int) :
    FsAction (Bool × Nat) :=
  match dir with
  | none => pure (false, 0)
  | some dir => do
    match ← freeMapAllocate 1 with
    | none => pure (false, 0)
    | some inodeSector => do
      if ← inodeCreate inodeSector initialSize then
        let added ← dirAdd dir name inodeSector
        pure (added, inodeSector)
      else pure (false, inodeSector)

def filesysCreate (name : Option CString) (initialSize : Int) : FsAction Bool := do
  let dir ← dirOpenRoot
  let (success, inodeSector) ← createIn dir name initialSize
  if ¬ success ∧ inodeSector ≠ 0 then freeMapRelease inodeSector 1
  dirClose dir
  return success

def filesysOpen (name : Option CString) : FsAction (Option Nat) := do
  let dir ← dirOpenRoot
  let inode ← match dir with
    | some dir => dirLookup dir name
    | none => pure none
  dirClose dir
  fileOpen inode

def filesysRemove (name : Option CString) : FsAction Bool := do
  let dir ← dirOpenRoot
  let success ← match dir with
    | some dir => dirRemove dir name
    | none => pure false
  dirClose dir
  return success

/-! ## Formatting and starting -/

def bitmapCreate (bitCnt : Nat) : FsAction (Option Bitmap) := do
  if ← malloc then
    let heap ← uninitialised
    let granted ← malloc
    if granted ∨ bitCnt = 0 then
      Action.ofExcept (Bitmap.create bitCnt fun k => BitVec.ofNat 32 (word32 heap (4 * k)))
    else return none
  else return none

def freeMapInit : FsAction Unit := do
  let s ← Action.get
  match ← bitmapCreate s.size with
  | none =>
    stop (.panic "bitmap creation failed--file system device is too large")
  | some freeMap => do
    let freeMap ← Action.ofExcept (freeMap.mark freeMapSector)
    let freeMap ← Action.ofExcept (freeMap.mark rootDirSector)
    Action.modify (·.setMap freeMap)

def bitmapRead (b : Bitmap) (file : Nat) : FsAction (Bool × Bitmap) := do
  if b.bitCnt > 0 then
    let size : Int := Bitmap.byteCnt b.bitCnt
    let (bytesRead, bits) ← fileReadAt file b.bytes size 0
    return (decide (bytesRead = size), b.ofBytes bits)
  else return (true, b)

/-- `free_map_file = file_open (inode_open (FREE_MAP_SECTOR))`. -/
def openFreeMapFile : FsAction Nat := do
  let inode ← inodeOpen freeMapSector
  let file ← fileOpen inode
  Action.modify fun s => { s with freeMapFile := file }
  match file with
  | some file => return file
  | none => stop (.panic "can't open free map")

def freeMapOpen : FsAction Unit := do
  let file ← openFreeMapFile
  let s ← Action.get
  let (success, freeMap) ← bitmapRead s.freeMap file
  Action.modify (·.setMap freeMap)
  require (success = true) (.panic "can't read free map")

def freeMapClose : FsAction Unit := do
  let s ← Action.get
  fileClose s.freeMapFile

def freeMapCreate : FsAction Unit := do
  let s ← Action.get
  let created ← inodeCreate freeMapSector (toSigned32 (Bitmap.byteCnt s.freeMap.bitCnt))
  require (created = true) (.panic "free map creation failed")
  let file ← openFreeMapFile
  let s ← Action.get
  let written ← bitmapWrite s.freeMap file
  require (written = true) (.panic "can't write free map")

def doFormat : FsAction Unit := do
  freeMapCreate
  let created ← dirCreate rootDirSector 16
  require (created = true) (.panic "root directory creation failed")
  freeMapClose

def filesysInit (format : Bool) : FsAction Unit := do
  Action.modify (·.setInodes [])
  freeMapInit
  if format then doFormat
  freeMapOpen

def filesysDone : FsAction Unit := freeMapClose

end Pintos.Filesys
