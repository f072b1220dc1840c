import Pintos.Foundation.Memory
import Pintos.Lib.Debug

/-!
# Partition tables

`devices/partition.c`: a scan of a block device for partitions.  A table is the
part of a sector from byte 446 on.  The state of a scan records the partitions
that were registered and, for every call of `read_partition_table` that reads a
table, the sector it was asked for and the sector it read.  The recursion is cut
off at a depth that is given.
-/

namespace Pintos.Devices

open Foundation

def blockSectorSize : Nat := 512

structure BlockDevice where
  size : Nat
  disk : Memory

namespace BlockDevice

def sector (block : BlockDevice) (n : Nat) : Memory := fun i => block.disk (blockSectorSize * n + i)

def SameSectorAs (block block' : BlockDevice) (n : Nat) : Prop :=
  ∀ i < blockSectorSize, block.sector n i = block'.sector n i

def SameSector (block : BlockDevice) (n k : Nat) : Prop :=
  ∀ i < blockSectorSize, block.sector n i = block.sector k i

end BlockDevice

inductive BlockType where
  | kernel
  | filesys
  | scratch
  | swap
  | foreign
  deriving DecidableEq, Repr

structure PartitionEntry where
  type : Nat
  offset : Nat
  size : Nat
  deriving DecidableEq, Repr

namespace PartitionEntry

def decode (m : Memory) (a : Nat) : PartitionEntry where
  type := (m (a + 4)).toNat
  offset := word32 m (a + 8)
  size := word32 m (a + 12)

def Empty (e : PartitionEntry) : Prop := e.size = 0 ∨ e.type = 0

def Extended (e : PartitionEntry) : Prop :=
  e.type = 0x05 ∨ e.type = 0x0f ∨ e.type = 0x85 ∨ e.type = 0xc5

instance (e : PartitionEntry) : Decidable e.Empty := inferInstanceAs (Decidable (_ ∨ _))

instance (e : PartitionEntry) : Decidable e.Extended := inferInstanceAs (Decidable (_ ∨ _))

end PartitionEntry

def tableEntries (pt : Memory) : List PartitionEntry :=
  (List.range 4).map fun i => .decode pt (446 + 16 * i)

def signature (pt : Memory) : Nat := (pt 510).toNat + 256 * (pt 511).toNat

/-- A partition that `block_register` has added; `part_nr` is the end of its name. -/
structure Partition where
  partNr : Nat
  type : BlockType
  start : Nat
  size : Nat
  deriving DecidableEq, Repr

structure Scan where
  partNr : Nat
  blocks : List Partition
  reads : List (Nat × Nat)
  allocations : Nat

variable {e : PartitionEntry} {I : Scan → Prop} {t : Scan}

inductive ScanStop where
  | fault (f : Fault)
  | tooDeep
  deriving DecidableEq, Repr

abbrev ScanAction := Action Scan ScanStop

section Scan

variable (heapOk : Nat → Bool) (block : BlockDevice)

def allocate (message : String) : ScanAction Unit := do
  let s ← Action.get
  Action.modify fun s => { s with allocations := s.allocations + 1 }
  require (heapOk s.allocations = true) (.fault (.panic message))

/-- `block_read (block, n, pt)` in a call for the sector `asked`. -/
def blockRead (asked n : Nat) : ScanAction Memory := do
  require (n < block.size) (.fault (.panic "Access past end of device"))
  Action.modify fun s => { s with reads := s.reads ++ [(asked, n)] }
  return block.sector n

def blockType (partType : Nat) : BlockType :=
  if partType = 0x20 then .kernel
  else if partType = 0x21 then .filesys
  else if partType = 0x22 then .scratch
  else if partType = 0x23 then .swap
  else .foreign

def foundPartition (partType start size : Nat) : ScanAction Unit := do
  let s ← Action.get
  if start ≥ block.size then return ()
  else if (start + size) % 2 ^ 32 < start ∨ (start + size) % 2 ^ 32 > block.size then return ()
  else do
    allocate heapOk "Failed to allocate memory for partition descriptor"
    allocate heapOk "Failed to allocate memory for block device descriptor"
    Action.modify fun t =>
      { t with blocks := t.blocks ++ [⟨s.partNr, blockType partType, start, size⟩] }

def parseEntry (nested : Nat → Nat → ScanAction Unit) (sector primaryExtended : Nat)
    (e : PartitionEntry) : ScanAction Unit :=
  if e.Empty then return ()
  else if e.Extended then
    if sector = 0 then nested e.offset e.offset
    else nested ((e.offset + primaryExtended) % 2 ^ 32) primaryExtended
  else do
    Action.modify fun s => { s with partNr := s.partNr + 1 }
    foundPartition heapOk block e.type ((e.offset + sector) % 2 ^ 32) e.size

def parsePartitions (nested : Nat → Nat → ScanAction Unit) (sector primaryExtended : Nat) :
    List PartitionEntry → ScanAction Unit
  | [] => return ()
  | e :: rest => do
    parseEntry heapOk block nested sector primaryExtended e
    parsePartitions nested sector primaryExtended rest

def readPartitionTable : Nat → Nat → Nat → ScanAction Unit
  | 0, _, _ => stop .tooDeep
  | depth + 1, sector, primaryExtended =>
    if sector ≥ block.size then return ()
    else do
      allocate heapOk "Failed to allocate memory for partition table."
      let pt ← blockRead block sector 0
      if signature pt ≠ 0xaa55 then return ()
      else
        parsePartitions heapOk block
          (fun sector primaryExtended => readPartitionTable depth sector primaryExtended)
          sector primaryExtended (tableEntries pt)

def partitionScan (depth : Nat) : ScanAction Unit := readPartitionTable heapOk block depth 0 0

end Scan

def Scan.initial : Scan := ⟨0, [], [], 0⟩

/-! ## Calls that return -/

section Rules

variable {heapOk : Nat → Bool} {block : BlockDevice} {nested : Nat → Nat → ScanAction Unit}
  {sector primaryExtended : Nat} {s : Scan}

lemma wp_allocate (hheap : ∀ n, heapOk n = true) (message : String) (Q : Unit → Scan → Prop) :
    wp (allocate heapOk message) Q s ↔ Q () { s with allocations := s.allocations + 1 } := by
  simp [allocate, hheap]

def nextSector (sector primaryExtended offset : Nat) : Nat :=
  if sector = 0 then offset else (offset + primaryExtended) % 2 ^ 32

def nextExtended (sector primaryExtended offset : Nat) : Nat :=
  if sector = 0 then offset else primaryExtended

lemma parseEntry_extended (hempty : ¬ e.Empty) (hext : e.Extended) :
    parseEntry heapOk block nested sector primaryExtended e =
      nested (nextSector sector primaryExtended e.offset)
        (nextExtended sector primaryExtended e.offset) := by
  rw [parseEntry, if_neg hempty, if_pos hext, nextSector, nextExtended]
  split <;> rfl

lemma parseEntry_other (hheap : ∀ n, heapOk n = true)
    (hI : ∀ s t : Scan, t.reads = s.reads → I s → I t)
    (hother : e.Empty ∨ ¬ e.Extended) (hs : I s) :
    wp (parseEntry heapOk block nested sector primaryExtended e) (fun _ t => I t) s := by
  unfold parseEntry
  split
  · exact hs
  · next hempty =>
      rw [if_neg (hother.resolve_left hempty)]
      simp only [foundPartition, wp_bind, wp_modify, wp_get, wp_ite, wp_pure, wp_allocate hheap]
      split
      · exact hI s _ rfl hs
      split
      · exact hI s _ rfl hs
      · exact hI s _ rfl hs

lemma parsePartitions_wp (hheap : ∀ n, heapOk n = true)
    (hI : ∀ s t : Scan, t.reads = s.reads → I s → I t) (entries : List PartitionEntry)
    (hnested : ∀ e ∈ entries, ¬ e.Empty → e.Extended → ∀ s, I s →
      wp (nested (nextSector sector primaryExtended e.offset)
        (nextExtended sector primaryExtended e.offset)) (fun _ t => I t) s) (hs : I s) :
    wp (parsePartitions heapOk block nested sector primaryExtended entries) (fun _ t => I t) s := by
  induction entries generalizing s with
  | nil => exact hs
  | cons e rest ih =>
    simp only [parsePartitions, wp_bind]
    have hfirst : wp (parseEntry heapOk block nested sector primaryExtended e)
        (fun _ t => I t) s := by
      by_cases hext : ¬ e.Empty ∧ e.Extended
      · rw [parseEntry_extended hext.1 hext.2]
        exact hnested e mem_cons_self hext.1 hext.2 s hs
      · exact parseEntry_other hheap hI (by tauto) hs
    refine wp_mono hfirst ?_
    intro _ t ht
    exact ih (fun e he => hnested e (mem_cons_of_mem _ he)) ht

def KeepsReads (x : ScanAction Unit) : Prop :=
  ∀ s, outcome x (fun _ t => s.reads ⊆ t.reads) (fun _ => True) s

lemma KeepsReads.of_ok {x : ScanAction Unit} (h : KeepsReads x)
    (hrun : x s = .ok ((), t)) : s.reads ⊆ t.reads := by
  have hs := h s
  simpa only [outcome, hrun] using hs

lemma parseEntry_keepsReads (hnested : ∀ n k, KeepsReads (nested n k)) (e : PartitionEntry) :
    KeepsReads (parseEntry heapOk block nested sector primaryExtended e) := by
  intro s
  unfold parseEntry
  split
  · exact fun _ h => h
  split
  · split
    · exact hnested _ _ s
    · exact hnested _ _ s
  simp only [foundPartition, allocate, outcome_bind, outcome_modify, outcome_get]
  split
  · exact fun _ h => h
  split
  · exact fun _ h => h
  simp only [outcome_bind, outcome_get, outcome_modify]
  refine outcome_require (fun _ => ?_) fun _ => trivial
  exact outcome_require (fun _ _ h => h) fun _ => trivial

lemma parsePartitions_keepsReads (hnested : ∀ n k, KeepsReads (nested n k))
    (entries : List PartitionEntry) :
    KeepsReads (parsePartitions heapOk block nested sector primaryExtended entries) := by
  induction entries with
  | nil => exact fun s _ h => h
  | cons e rest ih =>
    intro s
    simp only [parsePartitions, outcome_bind]
    refine outcome_mono (parseEntry_keepsReads hnested e s) ?_ fun _ => id
    intro _ t ht
    refine outcome_mono (ih t) ?_ fun _ => id
    exact fun _ u hu r hr => hu (ht hr)

lemma readPartitionTable_keepsReads (depth : Nat) : ∀ sector primaryExtended,
    KeepsReads (readPartitionTable heapOk block depth sector primaryExtended) := by
  induction depth with
  | zero => exact fun _ _ _ => trivial
  | succ depth ih =>
    intro sector primaryExtended s
    unfold readPartitionTable
    split
    · exact fun _ h => h
    simp only [allocate, blockRead, outcome_bind, outcome_get, outcome_modify]
    refine outcome_require (fun _ => ?_) fun _ => trivial
    refine outcome_require (fun _ => ?_) fun _ => trivial
    simp only [outcome_pure]
    split
    · exact fun _ h => mem_append_left _ h
    refine outcome_mono (parsePartitions_keepsReads ih _ _) ?_ fun _ => id
    exact fun _ t ht r hr => ht (mem_append_left _ hr)

lemma parsePartitions_calls (hnested : ∀ n k, KeepsReads (nested n k))
    (entries : List PartitionEntry)
    (h : parsePartitions heapOk block nested sector primaryExtended entries s = .ok ((), t))
    (he : e ∈ entries) (hempty : ¬ e.Empty) (hext : e.Extended) :
    ∃ u v, nested (nextSector sector primaryExtended e.offset)
        (nextExtended sector primaryExtended e.offset) u = .ok ((), v) ∧ v.reads ⊆ t.reads := by
  induction entries generalizing s with
  | nil => simp at he
  | cons first rest ih =>
    have hwp : wp (parsePartitions heapOk block nested sector primaryExtended
        (first :: rest)) (fun _ u => u = t) s := (wp_of_ok h).mpr rfl
    simp only [parsePartitions, wp_bind] at hwp
    obtain ⟨_, u, hfirst, hwp⟩ := wp_iff.mp hwp
    obtain ⟨_, v, hrest, rfl⟩ := wp_iff.mp hwp
    rcases mem_cons.mp he with rfl | he
    · rw [parseEntry_extended hempty hext] at hfirst
      exact ⟨s, u, hfirst, (parsePartitions_keepsReads hnested rest).of_ok hrest⟩
    · exact ih hrest he

end Rules

/-! ## Termination -/

def BlockDevice.extendedOffsets (block : BlockDevice) : List Nat :=
  if signature (block.sector 0) = 0xaa55 then
    ((tableEntries (block.sector 0)).filter fun e => ¬ e.Empty ∧ e.Extended).map
      PartitionEntry.offset
  else []

section Termination

variable {heapOk : Nat → Bool} {block : BlockDevice} {depth sector primaryExtended : Nat} {s : Scan}

lemma mem_extendedOffsets {offset : Nat} : offset ∈ block.extendedOffsets ↔
    signature (block.sector 0) = 0xaa55 ∧
      ∃ e ∈ tableEntries (block.sector 0), ¬ e.Empty ∧ e.Extended ∧ e.offset = offset := by
  unfold BlockDevice.extendedOffsets
  split
  · next hsig => simp [hsig, and_assoc]
  · next hsig => simp [hsig]

lemma readPartitionTable_calls (hsec : sector < block.size)
    (h : readPartitionTable heapOk block depth sector primaryExtended s = .ok ((), t)) :
    (sector, 0) ∈ t.reads ∧ ∃ depth', depth = depth' + 1 ∧ ∀ offset ∈ block.extendedOffsets,
      ∃ u v, readPartitionTable heapOk block depth' (nextSector sector primaryExtended offset)
        (nextExtended sector primaryExtended offset) u = .ok ((), v) ∧ v.reads ⊆ t.reads := by
  cases depth with
  | zero => simp [readPartitionTable, stop] at h
  | succ depth =>
    have hwp : wp (readPartitionTable heapOk block (depth + 1) sector primaryExtended)
        (fun _ u => u = t) s := (wp_of_ok h).mpr rfl
    rw [readPartitionTable, if_neg (by omega)] at hwp
    simp only [allocate, blockRead, wp_bind, wp_get, wp_modify, wp_require, wp_pure] at hwp
    obtain ⟨-, -, hwp⟩ := hwp
    split at hwp
    · next hsig =>
        refine ⟨?_, depth, rfl, fun offset hoffset => ?_⟩
        · simp only [wp_pure] at hwp
          rw [← hwp]
          simp
        · exact absurd (mem_extendedOffsets.mp hoffset).1 hsig
    obtain ⟨_, _, hrun, rfl⟩ := wp_iff.mp hwp
    refine ⟨?_, depth, rfl, fun offset hoffset => ?_⟩
    · apply (parsePartitions_keepsReads (readPartitionTable_keepsReads depth) _).of_ok hrun
      simp
    · obtain ⟨-, e, he, hempty, hext, rfl⟩ := mem_extendedOffsets.mp hoffset
      exact parsePartitions_calls (readPartitionTable_keepsReads depth) _ hrun he hempty hext

lemma not_returns {P : Nat → Nat → Prop} (hP : ∀ n k, P n k → n < block.size ∧
      ∃ offset ∈ block.extendedOffsets, P (nextSector n k offset) (nextExtended n k offset))
    (depth : Nat) : ∀ n k s t, P n k →
      readPartitionTable heapOk block depth n k s ≠ .ok ((), t) := by
  induction depth with
  | zero =>
    intro n k s t _ h
    simp [readPartitionTable, stop] at h
  | succ depth ih =>
    intro n k s t hnk h
    obtain ⟨hlt, offset, hoffset, hnext⟩ := hP n k hnk
    obtain ⟨-, _, hdepth, hcalls⟩ := readPartitionTable_calls hlt h
    obtain ⟨u, v, hcall, -⟩ := hcalls offset hoffset
    obtain rfl := Nat.succ.inj hdepth
    exact ih _ _ u v hnext hcall

/-- Every extended partition begins behind the end of the device, or else its first sector repeats
sector 0 and all that this table then leads to is behind the end of the device. -/
def EndsAtOnce (block : BlockDevice) : Prop :=
  ∀ offset ∈ block.extendedOffsets, offset < block.size → offset ≠ 0 ∧ block.SameSector offset 0 ∧
    ∀ other ∈ block.extendedOffsets, block.size ≤ (other + offset) % 2 ^ 32

/-- The scan returns, and every call has interpreted the table of the sector it was asked for. -/
def ScansRightly (heapOk : Nat → Bool) (block : BlockDevice) : Prop :=
  ∃ depth t, partitionScan heapOk block depth .initial = .ok ((), t) ∧
    ∀ r ∈ t.reads, block.SameSector r.1 r.2

lemma endsAtOnce_of_scansRightly (h : ScansRightly heapOk block) : EndsAtOnce block := by
  obtain ⟨depth, t, hscan, hreads⟩ := h
  intro offset hoffset hlt
  have hpos : 0 < block.size := by omega
  have hne : offset ≠ 0 := by
    rintro rfl
    refine not_returns (P := fun n _ => n = 0) ?_ depth 0 0 _ t rfl hscan
    rintro n k rfl
    exact ⟨hpos, 0, hoffset, rfl⟩
  refine ⟨hne, ?_, fun other hother => ?_⟩
  · obtain ⟨-, _, -, hcalls⟩ := readPartitionTable_calls hpos hscan
    obtain ⟨u, v, hcall, hsub⟩ := hcalls offset hoffset
    obtain ⟨hread, -⟩ := readPartitionTable_calls hlt hcall
    exact hreads _ (hsub hread)
  by_contra hinside
  -- the call for `other` behind this partition comes back to itself, or to sector 0
  refine not_returns (P := fun n k => n = 0 ∨ (n = offset ∨ n = (other + offset) % 2 ^ 32) ∧
    k = offset) ?_ depth 0 0 _ t (.inl rfl) hscan
  intro n k hnk
  by_cases hzero : n = 0
  · refine ⟨by omega, offset, hoffset, .inr ?_⟩
    simp [nextSector, nextExtended, hzero]
  obtain ⟨hn, rfl⟩ := hnk.resolve_left hzero
  refine ⟨?_, other, hother, .inr ?_⟩
  · rcases hn with rfl | rfl
    · exact hlt
    · omega
  · simp [nextSector, nextExtended, hzero]

lemma scansRightly_of_endsAtOnce (hheap : ∀ n, heapOk n = true) (h : EndsAtOnce block) :
    ScansRightly heapOk block := by
  have hcall : ∀ depth n k s, (∀ r ∈ s.reads, block.SameSector r.1 r.2) →
      (n < block.size → block.SameSector n 0 ∧ ∀ offset ∈ block.extendedOffsets, ∀ s : Scan,
        (∀ r ∈ s.reads, block.SameSector r.1 r.2) →
        wp (readPartitionTable heapOk block depth (nextSector n k offset)
          (nextExtended n k offset)) (fun _ t => ∀ r ∈ t.reads, block.SameSector r.1 r.2) s) →
      wp (readPartitionTable heapOk block (depth + 1) n k)
        (fun _ t => ∀ r ∈ t.reads, block.SameSector r.1 r.2) s := by
    intro depth n k s hs hnested
    unfold readPartitionTable
    split
    · exact hs
    · next hn =>
        obtain ⟨hsame, hnested⟩ := hnested (by omega)
        have hread : ∀ r ∈ s.reads ++ [(n, 0)], block.SameSector r.1 r.2 := by
          intro r hr
          rcases mem_append.mp hr with hr | hr
          · exact hs r hr
          rw [mem_singleton.mp hr]
          exact hsame
        simp only [wp_bind, wp_allocate hheap, blockRead, wp_require, wp_modify, wp_pure]
        refine ⟨by omega, ?_⟩
        split
        · exact hread
        · next hsig =>
            refine parsePartitions_wp hheap (fun s t heq hs => heq ▸ hs) _ ?_ hread
            intro e he hempty hext s hs
            exact hnested e.offset
              (mem_extendedOffsets.mpr ⟨not_not.mp hsig, e, he, hempty, hext, rfl⟩) s hs
  have hscan : wp (partitionScan heapOk block 3)
      (fun _ t => ∀ r ∈ t.reads, block.SameSector r.1 r.2) .initial := by
    refine hcall 2 0 0 _ (by simp [Scan.initial]) fun hpos => ⟨fun _ _ => rfl, ?_⟩
    intro offset hoffset s hs
    refine hcall 1 _ _ s hs fun hlt => ?_
    obtain ⟨hne, hsame, hpast⟩ := h offset hoffset hlt
    refine ⟨hsame, fun other hother s hs => ?_⟩
    refine hcall 0 _ _ s hs fun hlt' => absurd hlt' ?_
    have hnext := hpast other hother
    simp only [nextSector, nextExtended, if_true, hne, if_false]
    omega
  obtain ⟨_, t, hrun, hreads⟩ := wp_iff.mp hscan
  exact ⟨3, t, hrun, hreads⟩

end Termination

/-- With memory for the tables, `partition_scan` returns and reads what it was asked to read if and
only if the extended partitions of sector 0 end at once. -/
theorem scansRightly_iff {heapOk : Nat → Bool} (hheap : ∀ n, heapOk n = true)
    (block : BlockDevice) : ScansRightly heapOk block ↔ EndsAtOnce block :=
  ⟨endsAtOnce_of_scansRightly, scansRightly_of_endsAtOnce hheap⟩

def oneEntryDevice (size type offset count : Nat) : BlockDevice where
  size := size
  disk a :=
    if a = 450 then UInt8.ofNat type
    else if 454 ≤ a ∧ a < 458 then wordByte offset (a - 454)
    else if 458 ≤ a ∧ a < 462 then wordByte count (a - 458)
    else if a = 510 then 0x55
    else if a = 511 then 0xaa
    else 0

theorem scansRightly_past_end : ScansRightly (fun _ => true) (oneEntryDevice 100 5 100 10) :=
  (scansRightly_iff (fun _ => rfl) _).mpr fun offset hoffset hlt => by
    have hall : ∀ o ∈ (oneEntryDevice 100 5 100 10).extendedOffsets, o = 100 := by decide +kernel
    rw [hall offset hoffset] at hlt
    exact absurd hlt (by decide)

/-- An extended partition at sector 10 of a device of 100 sectors: the scan never returns. -/
theorem partitionScan_loops : ¬ ∃ heapOk depth t,
    partitionScan heapOk (oneEntryDevice 100 5 10 20) depth .initial = .ok ((), t) := by
  rintro ⟨heapOk, depth, t, h⟩
  refine not_returns (P := fun n k => n = 0 ∨ (n = 10 ∨ n = 20) ∧ k = 10) ?_
    depth 0 0 _ t (.inl rfl) h
  have hoffset : 10 ∈ (oneEntryDevice 100 5 10 20).extendedOffsets := by decide +kernel
  rintro n k (rfl | ⟨rfl | rfl, rfl⟩)
  · exact ⟨by decide, 10, hoffset, .inr ⟨.inl rfl, rfl⟩⟩
  · exact ⟨by decide, 10, hoffset, .inr ⟨.inr rfl, rfl⟩⟩
  · exact ⟨by decide, 10, hoffset, .inr ⟨.inr rfl, rfl⟩⟩

/-! ## Access through a partition -/

/-- A disk, with the sectors of it that have been read or written. -/
structure Disk where
  block : BlockDevice
  accessed : List Nat

abbrev DiskAction := Action Disk Fault

inductive Transfer where
  | read
  | write (buffer : Memory)

def Transfer.stores (sector : Nat) (disk : Memory) : Transfer → Memory
  | .read => disk
  | .write buffer => copy disk (blockSectorSize * sector) buffer 0 blockSectorSize

def checkSector (size sector : Nat) : DiskAction Unit :=
  require (sector < size) (.panic "Access past end of device")

/-- `block_read` and `block_write` of the disk itself, whose type is `BLOCK_RAW`. -/
def diskTransfer (transfer : Transfer) (sector : Nat) : DiskAction Memory := do
  let s ← Action.get
  checkSector s.block.size sector
  Action.modify fun s =>
    ⟨{ s.block with disk := transfer.stores sector s.block.disk }, s.accessed ++ [sector]⟩
  return s.block.sector sector

/-- `block_read` and `block_write` of a partition. -/
def partitionTransfer (p : Partition) (transfer : Transfer) (sector : Nat) : DiskAction Memory := do
  checkSector p.size sector
  match transfer with
  | .read => pure ()
  | .write _ => require (p.type ≠ .foreign) (.assertion "block->type != BLOCK_FOREIGN")
  diskTransfer transfer ((p.start + sector) % 2 ^ 32)

/-- Sector `n` of the partition is sector `place n` of the disk, and no other sector is touched. -/
structure Window (p : Partition) (place : Nat → Nat) : Prop where
  inside : ∀ n < p.size, p.start ≤ place n ∧ place n < p.start + p.size
  distinct : ∀ n < p.size, ∀ k < p.size, place n = place k → n = k
  exactly : ∀ transfer n (s : Disk), outcome (partitionTransfer p transfer n)
    (fun _ t => n < p.size ∧ t.accessed = s.accessed ++ [place n] ∧ t.block.size = s.block.size ∧
      ∀ k ≠ place n, s.block.SameSectorAs t.block k) (fun _ => True) s

lemma window_of_fits {p : Partition} (hfits : p.start + p.size < 2 ^ 32) :
    Window p fun n => p.start + n where
  inside n hn := by omega
  distinct n _ k _ h := by omega
  exactly transfer n s := by
    simp only [partitionTransfer, checkSector, outcome_bind]
    refine outcome_require (fun hn => ?_) fun _ => trivial
    have hplace : (p.start + n) % 2 ^ 32 = p.start + n := Nat.mod_eq_of_lt (by omega)
    have hdisk : outcome (diskTransfer transfer ((p.start + n) % 2 ^ 32)) (fun _ t => n < p.size ∧
        t.accessed = s.accessed ++ [p.start + n] ∧ t.block.size = s.block.size ∧
        ∀ k ≠ p.start + n, s.block.SameSectorAs t.block k) (fun _ => True) s := by
      simp only [diskTransfer, checkSector, outcome_bind, outcome_get, hplace]
      refine outcome_require (fun _ => ?_) fun _ => trivial
      simp only [outcome_modify, outcome_pure]
      refine ⟨hn, trivial, trivial, fun k hk i hi => ?_⟩
      cases transfer with
      | read => rfl
      | write buffer =>
        have houtside : blockSectorSize * k + i < blockSectorSize * (p.start + n) ∨
            blockSectorSize * (p.start + n) + blockSectorSize ≤ blockSectorSize * k + i := by
          simp only [blockSectorSize] at hi ⊢
          omega
        exact (copy_outside s.block.disk buffer 0 houtside).symm
    cases transfer with
    | read => exact hdisk
    | write buffer =>
      simp only [outcome_bind]
      exact outcome_require (fun _ => hdisk) fun _ => trivial

theorem foundPartition_window (heapOk : Nat → Bool) (block : BlockDevice) (partType : Nat)
    {start size : Nat} (hstart : start < 2 ^ 32) (hsize : size < 2 ^ 32) (s : Scan) :
    outcome (foundPartition heapOk block partType start size)
      (fun _ t => t.blocks = s.blocks ∨ ∃ p, t.blocks = s.blocks ++ [p] ∧ p.start = start ∧
        p.size = size ∧ start + size < 2 ^ 32 ∧ start + size ≤ block.size ∧ ∃ place, Window p place)
      (fun _ => True) s := by
  simp only [foundPartition, outcome_bind, outcome_get]
  split
  · exact .inl rfl
  split
  · exact .inl rfl
  next hlt hends =>
    have hfits : start + size < 2 ^ 32 ∧ start + size ≤ block.size := by omega
    simp only [allocate, outcome_bind, outcome_get, outcome_modify]
    refine outcome_require (fun _ => ?_) fun _ => trivial
    refine outcome_require (fun _ => ?_) fun _ => trivial
    exact .inr ⟨_, rfl, rfl, rfl, hfits.1, hfits.2, _, window_of_fits hfits.1⟩

theorem foundPartition_window_whole :
    outcome (foundPartition (fun _ => true) ⟨100, fun _ => 0⟩ 0x21 1 99)
    (fun _ t => t.blocks = [] ∨ ∃ p, t.blocks = [] ++ [p] ∧ p.start = 1 ∧ p.size = 99 ∧
      1 + 99 < 2 ^ 32 ∧ 1 + 99 ≤ 100 ∧ ∃ place, Window p place) (fun _ => True) .initial :=
  foundPartition_window (fun _ => true) ⟨100, fun _ => 0⟩ 0x21 (show 1 < 2 ^ 32 by decide)
    (show 99 < 2 ^ 32 by decide) .initial

end Pintos.Devices
