import Pintos.Lib.Bitmap

/-!
# The state of the file system

`Fs` collects what the files of `filesys/` keep in memory and the device they
keep it on.  The device is one byte memory of `size` sectors.  Objects on the
kernel heap carry the address `malloc` gave them; an address is never reused, so
a pointer to a freed object designates nothing.  `heapOk` decides which
allocations succeed: allocation number `n` does exactly when `heapOk n`.  What an
uninitialised variable or block holds at that point is `garbage n`.
-/

namespace Pintos.Filesys

open Foundation

def sectorSize : Nat := 512

def freeMapSector : Nat := 0

def rootDirSector : Nat := 1

-- The fields of `struct inode_disk` that are read back.
structure InodeDisk where
  start : Nat
  length : Int
  deriving DecidableEq, Repr

structure Inode where
  addr : Nat
  sector : Nat
  /-- An `int`.  Each reference that it counts is a pointer of 4 bytes that somebody stores above
  `PHYS_BASE`, in the last 2^30 bytes of the address space, so it stays under 2^31, and with it
  `deny_write_cnt`, which is never greater. -/
  openCnt : Int
  removed : Bool
  denyWriteCnt : Int
  data : InodeDisk
  deriving DecidableEq, Repr

structure File where
  addr : Nat
  inode : Nat
  pos : Int
  denyWrite : Bool
  deriving DecidableEq, Repr

structure Fs where
  size : Nat
  disk : Memory
  freeMap : Bitmap
  freeMapFile : Option Nat
  openInodes : List Inode
  files : List File
  nextAddress : Nat
  heapOk : Nat → Bool
  garbage : Nat → Memory
  allocations : Nat

abbrev FsAction := Action Fs Fault

namespace Fs

@[simps -fullyApplied] def spend (s : Fs) (n : Nat) : Fs :=
  { s with allocations := s.allocations + n }

@[simps -fullyApplied] def setDisk (s : Fs) (disk : Memory) : Fs := { s with disk }

@[simps -fullyApplied] def setMap (s : Fs) (freeMap : Bitmap) : Fs := { s with freeMap }

@[simps -fullyApplied] def setInodes (s : Fs) (openInodes : List Inode) : Fs :=
  { s with openInodes }

@[simps -fullyApplied] def setFiles (s : Fs) (files : List File) : Fs := { s with files }

@[simps -fullyApplied] def bump (s : Fs) : Fs := { s with nextAddress := s.nextAddress + 1 }

def HeapOk (s : Fs) : Prop := ∀ n, s.heapOk n = true

@[simp] lemma spend_zero (s : Fs) : s.spend 0 = s := rfl

@[simp] lemma spend_spend (s : Fs) (m n : Nat) : (s.spend m).spend n = s.spend (m + n) := by
  simp [spend, Nat.add_assoc]

end Fs

def malloc : FsAction Bool := do
  let s ← Action.get
  Action.modify (·.spend 1)
  return s.heapOk s.allocations

def newAddress : FsAction Nat := do
  let s ← Action.get
  Action.modify Fs.bump
  return s.nextAddress

@[simp] lemma wp_malloc (Q : Bool → Fs → Prop) (s : Fs) :
    wp malloc Q s ↔ Q (s.heapOk s.allocations) (s.spend 1) := by
  simp [malloc]

@[simp] lemma wp_newAddress (Q : Nat → Fs → Prop) (s : Fs) :
    wp newAddress Q s ↔ Q s.nextAddress s.bump := by
  simp [newAddress]

@[simp] lemma outcome_malloc (Q : Bool → Fs → Prop) (E : Fault → Prop) (s : Fs) :
    outcome malloc Q E s ↔ Q (s.heapOk s.allocations) (s.spend 1) := by
  simp [malloc]

@[simp] lemma outcome_newAddress (Q : Nat → Fs → Prop) (E : Fault → Prop) (s : Fs) :
    outcome newAddress Q E s ↔ Q s.nextAddress s.bump := by
  simp [newAddress]

/-! ## The block device -/

def checkSector (sector : Nat) : FsAction Unit := do
  let s ← Action.get
  require (sector < s.size) (.panic "Access past end of device")

def blockRead (sector : Nat) (buffer : Memory) (offset : Nat) : FsAction Memory := do
  checkSector sector
  let s ← Action.get
  return copy buffer offset s.disk (sectorSize * sector) sectorSize

def blockWrite (sector : Nat) (buffer : Memory) (offset : Nat) : FsAction Unit := do
  checkSector sector
  Action.modify fun s => s.setDisk (copy s.disk (sectorSize * sector) buffer offset sectorSize)

@[simp] lemma wp_blockRead (sector : Nat) (buffer : Memory) (offset : Nat)
    (Q : Memory → Fs → Prop) (s : Fs) : wp (blockRead sector buffer offset) Q s ↔ sector < s.size ∧
        Q (copy buffer offset s.disk (sectorSize * sector) sectorSize) s := by
  simp [blockRead, checkSector]

@[simp] lemma wp_blockWrite (sector : Nat) (buffer : Memory) (offset : Nat)
    (Q : Unit → Fs → Prop) (s : Fs) : wp (blockWrite sector buffer offset) Q s ↔ sector < s.size ∧
        Q () (s.setDisk (copy s.disk (sectorSize * sector) buffer offset sectorSize)) := by
  simp [blockWrite, checkSector]

/-! ## On-disk inodes -/

def inodeMagic : Nat := 0x494e4f44

/-- The sector image of a `struct inode_disk`; the unused words are zero. -/
def InodeDisk.encode (d : InodeDisk) : Memory := fun i =>
  if i < 4 then wordByte d.start i
  else if i < 8 then wordByte (toUnsigned32 d.length) (i - 4)
  else if i < 12 then wordByte inodeMagic (i - 8)
  else 0

def InodeDisk.decode (m : Memory) (a : Nat) : InodeDisk where
  start := word32 m a
  length := toSigned32 (word32 m (a + 4))

def headerAt (disk : Memory) (sector : Nat) : InodeDisk :=
  InodeDisk.decode disk (sectorSize * sector)

/-- `DIV_ROUND_UP (size, BLOCK_SECTOR_SIZE)` in `off_t` arithmetic, as a `size_t`. -/
def bytesToSectors (size : Int) : Nat :=
  toUnsigned32 ((toSigned32 (toUnsigned32 (size + 511))).tdiv 512)

lemma InodeDisk.decode_congr {m m' : Memory} {a a' : Nat} (h : ∀ k < 8, m (a + k) = m' (a' + k)) :
    InodeDisk.decode m a = InodeDisk.decode m' a' := by
  have hstart : word32 m a = word32 m' a' := word32_congr fun k hk => h k (by omega)
  have hlen : word32 m (a + 4) = word32 m' (a' + 4) :=
    word32_congr fun k hk => by
      have := h (4 + k) (by omega)
      simpa [Nat.add_assoc] using this
  simp only [InodeDisk.decode, hstart, hlen]

lemma InodeDisk.decode_encode {d : InodeDisk} {m : Memory} {a : Nat}
    (hstart : d.start < 2 ^ 32) (hlo : 0 ≤ d.length) (hhi : d.length < 2 ^ 31)
    (h : ∀ k < 8, m (a + k) = d.encode k) : InodeDisk.decode m a = d := by
  have hs : word32 m a = d.start :=
    word32_of_wordBytes hstart fun k hk => by
      rw [h k (by omega)]
      simp [InodeDisk.encode, hk]
  have hl : word32 m (a + 4) = toUnsigned32 d.length :=
    word32_of_wordBytes (toUnsigned32_lt _) fun k hk => by
      have h4 : ¬ 4 + k < 4 := by omega
      have h8 : 4 + k < 8 := by omega
      rw [Nat.add_assoc, h (4 + k) (by omega)]
      simp [InodeDisk.encode, h4, h8]
  simp only [InodeDisk.decode, hs, hl, toSigned32_toUnsigned32 hlo hhi]

lemma length_le_bytesToSectors {size : Int} (hlo : 0 ≤ size)
    (hhi : size < 2 ^ 31) : size ≤ 512 * (bytesToSectors size : Int) := by
  by_cases hwrap : size + 511 < 2 ^ 31
  · have hsum : toSigned32 (toUnsigned32 (size + 511)) = size + 511 :=
      toSigned32_toUnsigned32 (by omega) hwrap
    rw [bytesToSectors, hsum, Int.tdiv_eq_ediv_of_nonneg (by omega), toUnsigned32]
    omega
  have hsum : toSigned32 (toUnsigned32 (size + 511)) = size + 511 - 2 ^ 32 := by
    have hval : toUnsigned32 (size + 511) = (size + 511).toNat := by
      simp only [toUnsigned32]
      omega
    rw [hval, toSigned32_of_ge (by omega) (by omega)]
    omega
  rw [bytesToSectors, hsum, toUnsigned32]
  have hneg : (size + 511 - 2 ^ 32).tdiv 512 = -((2 ^ 32 - 511 - size) / 512) := by
    rw [show size + 511 - 2 ^ 32 = -(2 ^ 32 - 511 - size) by ring,
      Int.neg_tdiv, Int.tdiv_eq_ediv_of_nonneg (by omega)]
  rw [hneg]
  omega

end Pintos.Filesys
