import Pintos.Filesys.FreeMap

/-!
# Inodes

`filesys/inode.c` without the transfer loops: creation on the device, and the
list of open inodes with its reference counts.
-/

namespace Pintos.Filesys

open Foundation

def zeroSectors (sector : Nat) : Nat → FsAction Unit
  | 0 => pure ()
  | remaining + 1 => do
    blockWrite sector (fun _ => 0) 0
    zeroSectors (sector + 1) remaining

def inodeCreate (sector : Nat) (length : Int) : FsAction Bool := do
  require (length ≥ 0) (.assertion "length >= 0")
  if ← malloc then
    let sectors := bytesToSectors length
    match ← freeMapAllocate sectors with
    | some start => do
      blockWrite sector (InodeDisk.encode ⟨start, length⟩) 0
      if sectors > 0 then zeroSectors start sectors
      return true
    | none => return false
  else return false

def reopened (inodes : List Inode) (addr : Nat) : List Inode :=
  updateAt Inode.addr inodes addr fun i => { i with openCnt := i.openCnt + 1 }

def closed (inodes : List Inode) (addr : Nat) : List Inode :=
  updateAt Inode.addr inodes addr fun i => { i with openCnt := i.openCnt - 1 }

def markedRemoved (inodes : List Inode) (addr : Nat) : List Inode :=
  updateAt Inode.addr inodes addr fun i => { i with removed := true }

def inodeReopen (inode : Nat) : FsAction Nat := do
  let _ ← getInode inode
  Action.modify fun s => s.setInodes (reopened s.openInodes inode)
  return inode

def inodeGetInumber (inode : Nat) : FsAction Nat := do
  let inode ← getInode inode
  return inode.sector

def inodeOpen (sector : Nat) : FsAction (Option Nat) := do
  let s ← Action.get
  match s.openInodes.find? fun i => i.sector = sector with
  | some inode => do
    let addr ← inodeReopen inode.addr
    return some addr
  | none => do
    if ← malloc then
      let addr ← newAddress
      let data ← blockRead sector (fun _ => 0) 0
      Action.modify fun s => s.setInodes
        ({ addr, sector, openCnt := 1, removed := false, denyWriteCnt := 0,
           data := InodeDisk.decode data 0 } :: s.openInodes)
      return some addr
    else return none

def inodeClose : Option Nat → FsAction Unit
  | none => pure ()
  | some addr => do
    let inode ← getInode addr
    Action.modify fun s => s.setInodes (closed s.openInodes addr)
    if inode.openCnt - 1 = 0 then do
      Action.modify fun s => s.setInodes (removeAt Inode.addr s.openInodes addr)
      if inode.removed then do
        freeMapRelease inode.sector 1
        freeMapRelease inode.data.start (bytesToSectors inode.data.length)

def inodeRemove (inode : Nat) : FsAction Unit := do
  let _ ← getInode inode
  Action.modify fun s => s.setInodes (markedRemoved s.openInodes inode)

def inodeDenyWrite (addr : Nat) : FsAction Unit := do
  let inode ← getInode addr
  Action.modify fun s => s.setInodes (updateAt Inode.addr s.openInodes addr fun i =>
      { i with denyWriteCnt := i.denyWriteCnt + 1 })
  require (inode.denyWriteCnt + 1 ≤ inode.openCnt)
    (.assertion "inode->deny_write_cnt <= inode->open_cnt")

def inodeAllowWrite (addr : Nat) : FsAction Unit := do
  let inode ← getInode addr
  require (inode.denyWriteCnt > 0) (.assertion "inode->deny_write_cnt > 0")
  require (inode.denyWriteCnt ≤ inode.openCnt)
    (.assertion "inode->deny_write_cnt <= inode->open_cnt")
  Action.modify fun s => s.setInodes (updateAt Inode.addr s.openInodes addr fun i =>
      { i with denyWriteCnt := i.denyWriteCnt - 1 })

/-! ## Creation -/

lemma zeroSectors_spec (sector remaining : Nat) {s : Fs} (h : sector + remaining ≤ s.size) :
    wp (zeroSectors sector remaining)
      (fun _ t => t = s.setDisk (copy s.disk (sectorSize * sector) (fun _ => 0) 0
        (sectorSize * remaining))) s := by
  induction remaining generalizing sector s with
  | zero => simp [zeroSectors, Fs.setDisk]
  | succ remaining ih =>
    simp only [zeroSectors, wp_bind, wp_blockWrite]
    refine ⟨by omega, wp_mono (ih (sector + 1) ?_) ?_⟩
    · simp only [Fs.setDisk_size]
      omega
    rintro _ t rfl
    simp only [Fs.setDisk, Fs.mk.injEq, true_and, and_true]
    have happend := copy_append s.disk (sectorSize * sector) (fun _ => 0) 0
      sectorSize (sectorSize * remaining)
    rw [show sectorSize * (sector + 1) = sectorSize * sector + sectorSize by ring,
      show sectorSize * (remaining + 1) = sectorSize + sectorSize * remaining by ring, ← happend]
    exact copy_congr fun _ _ => rfl

/-- The device after a header was written to `sector` and its extent was cleared. -/
def newInodeDisk (disk : Memory) (sector : Nat) (data : InodeDisk) : Memory :=
  copy (copy disk (sectorSize * sector) data.encode 0 sectorSize)
    (sectorSize * data.start) (fun _ => 0) 0 (sectorSize * bytesToSectors data.length)

lemma inodeCreate_spec {s : Fs} {store : Option InodeDisk} {sector : Nat}
    {length : Int} (hstore : MapStore s store) (hlen : 0 ≤ length)
    (hsec : sector < s.size) (hcnt : s.freeMap.bitCnt = s.size) : wp (inodeCreate sector length)
      (fun r t => ∃ k, (∃ start map, r = true ∧ FirstFit s.freeMap (bytesToSectors length) start ∧
          Marked s.freeMap map start (bytesToSectors length) true ∧
          t = (s.save store k map map (Bitmap.byteCnt s.freeMap.bitCnt)).setDisk
            (newInodeDisk (saveTo store s.disk map (Bitmap.byteCnt s.freeMap.bitCnt))
              sector ⟨start, length⟩)) ∨
        (∃ written n, r = false ∧ n ≤ Bitmap.byteCnt s.freeMap.bitCnt ∧
          (s.HeapOk → n = 0 ∧ ∀ i, ¬ s.freeMap.Run i (bytesToSectors length) false) ∧
          t = s.save store k s.freeMap written n)) s := by
  simp only [inodeCreate, wp_bind, wp_require, wp_malloc]
  refine ⟨hlen, ?_⟩
  cases hgrant : s.heapOk s.allocations with
  | false =>
    refine ⟨1, .inr ⟨s.freeMap, 0, rfl, Nat.zero_le _, fun hok => ?_,
      (s.save_zero store 1 s.freeMap).symm⟩⟩
    rw [hok] at hgrant
    contradiction
  | true =>
    simp only [if_true, wp_bind]
    refine wp_mono (freeMapAllocate_spec (hstore.spend 1) _) ?_
    rintro r t ⟨k, ⟨start, map, rfl, hfirst, hmarked, rfl⟩ | ⟨written, n, rfl, hle, hheap, rfl⟩⟩
    · have hroom : start + bytesToSectors length ≤ s.size := hcnt ▸ hfirst.1.1
      simp only [wp_bind, wp_blockWrite]
      refine ⟨hsec, ?_⟩
      -- an empty extent leaves nothing to clear
      have hclear : ∀ t : Fs, t.size = s.size → wp (if bytesToSectors length > 0 then do
              zeroSectors start (bytesToSectors length)
              pure true
            else pure true)
            (fun r t' => r = true ∧ t' = t.setDisk (copy t.disk (sectorSize * start)
              (fun _ => 0) 0 (sectorSize * bytesToSectors length))) t := by
        intro t ht
        by_cases hpos : bytesToSectors length > 0
        · simpa [hpos] using zeroSectors_spec start (bytesToSectors length) (ht ▸ hroom)
        have hzero : bytesToSectors length = 0 := by omega
        simp [hzero, Fs.setDisk]
      refine wp_mono (hclear _ rfl) ?_
      rintro _ t ⟨rfl, rfl⟩
      exact ⟨1 + k, .inl ⟨start, map, rfl, hfirst, hmarked, by simp [Fs.save]; rfl⟩⟩
    · exact ⟨1 + k, .inr ⟨written, n, rfl, hle, hheap, by simp⟩⟩

end Pintos.Filesys
