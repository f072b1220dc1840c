import Pintos.Foundation.Bytes
import Pintos.Devices.Partition
import Pintos.Threads.CommandLine

/-!
# Disk images made by the host

`assemble_disk` of `utils/Pintos.pm` in the format `partitioned`, with the default
geometry, and `interpret_partition_table`, which reads such an image back.  The
contents of a partition are the bytes that are copied into it.  A subroutine
that dies has no result.
-/

namespace Pintos.Utils

open Foundation Devices Threads

variable {loader mbr : List Byte} {args : List CString} {a : Nat}

inductive Role where
  | kernel
  | filesys
  | scratch
  | swap
  deriving DecidableEq, Repr

def roleOrder : List Role := [.kernel, .filesys, .scratch, .swap]

def Role.type : Role → Nat
  | .kernel => 0x20
  | .filesys => 0x21
  | .scratch => 0x22
  | .swap => 0x23

/-- `%type2role`. -/
def typeRole (type : Nat) : Option Role :=
  if type = 0x20 then some .kernel
  else if type = 0x21 then some .filesys
  else if type = 0x22 then some .scratch
  else if type = 0x23 then some .swap
  else none

inductive Align where
  | bochs
  | full
  | none
  deriving DecidableEq, Repr

def Align.aligned : Align → Bool
  | .full => true
  | _ => false

def Align.pads : Align → Bool
  | .bochs => true
  | _ => false

def heads : Nat := 16

def sectorsPerTrack : Nat := 63

def cylSectors : Nat := heads * sectorsPerTrack

def divRoundUp (x y : Nat) : Nat := (x + y - 1) / y

def roundUpTo (x y : Nat) : Nat := divRoundUp x y * y

/-! ## Layout -/

structure Extent where
  start : Nat
  sectors : Nat
  deriving DecidableEq, Repr

variable {extents : List (Role × Extent)}

/-- The contents of the partitions in use. -/
abbrev Parts := Role → Option (List Byte)

def extentEnd (align : Align) (start bytes : Nat) : Nat :=
  if align.aligned then roundUpTo (start + divRoundUp bytes 512) cylSectors
  else start + divRoundUp bytes 512

/-- The loop that calculates the disk size: the extents, and `$total_sectors` in the end. -/
def layoutFrom (align : Align) (parts : Parts) : Nat → List Role → List (Role × Extent) × Nat
  | total, [] => ([], total)
  | total, role :: rest =>
    match parts role with
    | none => layoutFrom align parts total rest
    | some contents =>
      let last := extentEnd align total contents.length
      let (extents, size) := layoutFrom align parts last rest
      ((role, ⟨total, last - total⟩) :: extents, size)

def firstSector (align : Align) : Nat := if align.aligned then sectorsPerTrack else 1

def layout (align : Align) (parts : Parts) : List (Role × Extent) × Nat :=
  layoutFrom align parts (firstSector align) roleOrder

/-! ## The master boot record -/

def lbaToChs (lba : Nat) : Nat × Nat × Nat :=
  let cyl := lba / (heads * sectorsPerTrack)
  let temp := lba % (heads * sectorsPerTrack)
  let head := temp / sectorsPerTrack
  let sect := temp % sectorsPerTrack + 1
  if cyl ≤ 1023 then (cyl, head, sect) else (1023, 254, 63)

def packChs (lba : Nat) : List Byte :=
  let (cyl, head, sect) := lbaToChs lba
  [UInt8.ofNat head, UInt8.ofNat (sect ||| (cyl >>> 2) &&& 0xc0), UInt8.ofNat (cyl &&& 0xff)]

def entryBytes (x : Role × Extent) : List Byte :=
  (if x.1 = .kernel then 0x80 else 0) :: packChs x.2.start ++ UInt8.ofNat x.1.type ::
    packChs (x.2.start + x.2.sectors - 1) ++ littleEndian x.2.start ++ littleEndian x.2.sectors

def makePartitionTable (extents : List (Role × Extent)) : List Byte :=
  padTo 64 (extents.flatMap entryBytes)

def loaderSize : Nat := 314

def makeMbr (loader : List Byte) (args : List CString) (extents : List (Role × Extent)) :
    Option (List Byte) := do
  let commandLine ← makeKernelCommandLine args
  return padTo loaderSize loader ++ commandLine ++ makePartitionTable extents ++ [0x55, 0xaa]

/-! ## The image -/

structure Disk where
  extents : List (Role × Extent)
  image : List Byte

def partitionBytes (parts : Parts) (x : Role × Extent) : List Byte :=
  let contents := (parts x.1).getD []
  contents ++ replicate (x.2.sectors * 512 - contents.length) 0

def assembleDisk (align : Align) (loader : List Byte) (args : List CString) (parts : Parts) :
    Option Disk := do
  let (extents, total) := layout align parts
  let mbr ← makeMbr loader args extents
  if mbr.length = 512 then
    return ⟨extents, mbr ++
      replicate (if align.aligned then 512 * (sectorsPerTrack - 1) else 0) 0 ++
      extents.flatMap (partitionBytes parts) ++
      replicate (if align.pads then (roundUpTo total cylSectors - total) * 512 else 0) 0⟩
  else none

/-! ## Reading the table back -/

/-- One round of the loop of `interpret_partition_table`, for the entry at `a`. -/
def interpretEntry (m : Memory) (parts : Role → Option Extent) (a : Nat) : Role → Option Extent :=
  if word32 m a = 0 then parts
  else if m a ≠ 0 ∧ m a ≠ 0x80 then parts
  else match typeRole (m (a + 4)).toNat with
    | none => parts
    | some role =>
      if (parts role).isSome then parts
      else update parts role (some ⟨word32 m (a + 8), word32 m (a + 12)⟩)

def interpretPartitionTable (mbr : Memory) : Role → Option Extent :=
  (List.range 4).foldl (fun parts i => interpretEntry mbr parts (446 + 16 * i)) fun _ => none

/-! ## The layout -/

def LaidOut (parts : Parts) : Nat → Nat → List (Role × Extent) → Prop
  | total, size, [] => size = total
  | total, size, x :: rest =>
    x.2.start = total ∧ 0 < x.2.sectors ∧ ((parts x.1).getD []).length ≤ x.2.sectors * 512 ∧
      LaidOut parts (total + x.2.sectors) size rest

section Layout

variable {align : Align} {parts : Parts} {total size : Nat} {x : Role × Extent}

lemma le_roundUpTo (n : Nat) {y : Nat} (hy : 0 < y) : n ≤ roundUpTo n y := by
  have hdiv := Nat.div_add_mod (n + y - 1) y
  have hmod := Nat.mod_lt (n + y - 1) hy
  rw [roundUpTo, divRoundUp, Nat.mul_comm]
  omega

lemma extentEnd_le (align : Align) (start bytes : Nat) :
    start + divRoundUp bytes 512 ≤ extentEnd align start bytes := by
  unfold extentEnd
  split
  · exact le_roundUpTo _ (by decide)
  · exact le_rfl

lemma layoutFrom_laidOut (hpos : ∀ role contents, parts role = some contents → contents ≠ [])
    (roles : List Role) : ∀ total, LaidOut parts total (layoutFrom align parts total roles).2
      (layoutFrom align parts total roles).1 := by
  induction roles with
  | nil => exact fun _ => rfl
  | cons role rest ih =>
    intro total
    unfold layoutFrom
    cases hrole : parts role with
    | none => exact ih total
    | some contents =>
      have hlen : 0 < contents.length := List.length_pos_iff.mpr (hpos role contents hrole)
      have hend := extentEnd_le align total contents.length
      have hbytes := le_roundUpTo contents.length (show 0 < 512 by decide)
      rw [roundUpTo] at hbytes
      have hpositive : 0 < divRoundUp contents.length 512 := by
        rw [divRoundUp]
        omega
      generalize divRoundUp contents.length 512 = sectors at hend hbytes hpositive
      obtain ⟨last, hlast⟩ : ∃ last, last = extentEnd align total contents.length := ⟨_, rfl⟩
      simp only [← hlast, LaidOut, hrole, Option.getD_some] at hend ⊢
      have hroom : contents.length ≤ (last - total) * 512 :=
        hbytes.trans (Nat.mul_le_mul_right 512 (by omega))
      refine ⟨trivial, by omega, hroom, ?_⟩
      rw [Nat.add_sub_cancel' (by omega)]
      exact ih last

lemma layoutFrom_roles (roles : List Role) : ∀ total,
    (layoutFrom align parts total roles).1.map Prod.fst =
      roles.filter fun role => (parts role).isSome := by
  induction roles with
  | nil => exact fun _ => rfl
  | cons role rest ih =>
    intro total
    unfold layoutFrom
    cases hrole : parts role with
    | none => simp [hrole, ih]
    | some contents => simp [hrole, ih]

namespace LaidOut

variable (h : LaidOut parts total size extents)

include h

lemma le : total ≤ size := by
  induction extents generalizing total with
  | nil => exact h.ge
  | cons x rest ih =>
    have := ih h.2.2.2
    omega

lemma within (hx : x ∈ extents) :
    total ≤ x.2.start ∧ 0 < x.2.sectors ∧ x.2.start + x.2.sectors ≤ size := by
  induction extents generalizing total with
  | nil => simp at hx
  | cons first rest ih =>
    obtain ⟨hstart, hsecs, -, hrest⟩ := h
    rcases mem_cons.mp hx with rfl | hx
    · have := hrest.le
      omega
    · have := ih hrest hx
      omega

lemma pairwise : extents.Pairwise fun x y => x.2.start + x.2.sectors ≤ y.2.start := by
  induction extents generalizing total with
  | nil => exact List.Pairwise.nil
  | cons first rest ih =>
    obtain ⟨hstart, -, -, hrest⟩ := h
    refine List.Pairwise.cons (fun y hy => ?_) (ih hrest)
    have := (hrest.within hy).1
    omega

lemma bytes_length : (extents.flatMap (partitionBytes parts)).length = (size - total) * 512 := by
  induction extents generalizing total with
  | nil =>
    rw [show size = total from h]
    simp
  | cons first rest ih =>
    obtain ⟨-, -, hfits, hrest⟩ := h
    have hle := hrest.le
    have hlen : (partitionBytes parts first).length = first.2.sectors * 512 := by
      simp only [partitionBytes, length_append, length_replicate]
      omega
    rw [List.flatMap_cons, length_append, hlen, ih hrest]
    omega

end LaidOut

end Layout

/-! ## Entries -/

def EntryAt (m : Memory) (a : Nat) (x : Role × Extent) : Prop :=
  ∀ j < 16, m (a + j) = ofBytes (entryBytes x) j

def BlankAt (m : Memory) (a : Nat) : Prop := ∀ j < 16, m (a + j) = 0

section Entries

variable {m : Memory} {x : Role × Extent}

lemma entryBytes_length (x : Role × Extent) : (entryBytes x).length = 16 := by
  simp [entryBytes, packChs]

lemma packChs_sector (lba : Nat) : ofBytes (packChs lba) 1 ≠ 0 := by
  have hsect : 0 < (lbaToChs lba).2.2 ∧ (lbaToChs lba).2.2 < 2 ^ 8 := by
    simp only [lbaToChs, sectorsPerTrack, heads]
    by_cases hcyl : lba / (16 * 63) ≤ 1023
    · simp only [hcyl, if_true]
      omega
    · simp only [hcyl, if_false]
      omega
  have hbits : ((lbaToChs lba).1 >>> 2) &&& 0xc0 < 2 ^ 8 := Nat.and_lt_two_pow _ (by decide)
  have hlow := Nat.left_le_or (n := (lbaToChs lba).2.2) (m := ((lbaToChs lba).1 >>> 2) &&& 0xc0)
  have hhigh := Nat.or_lt_two_pow hsect.2 hbits
  change UInt8.ofNat ((lbaToChs lba).2.2 ||| ((lbaToChs lba).1 >>> 2) &&& 0xc0) ≠ 0
  intro hzero
  have hnat := congrArg UInt8.toNat hzero
  rw [UInt8.toNat_ofNat', Nat.mod_eq_of_lt hhigh] at hnat
  simp at hnat
  omega

lemma entryBytes_eq (x : Role × Extent) : entryBytes x =
    ((if x.1 = .kernel then 0x80 else 0) :: packChs x.2.start ++ UInt8.ofNat x.1.type ::
      packChs (x.2.start + x.2.sectors - 1)) ++ (littleEndian x.2.start ++
      littleEndian x.2.sectors) := by
  simp [entryBytes]

namespace EntryAt

variable (h : EntryAt m a x)

include h

lemma start (hlt : x.2.start < 2 ^ 32) : word32 m (a + 8) = x.2.start := by
  apply word32_of_wordBytes hlt
  intro k hk
  rw [Nat.add_assoc, h (8 + k) (by omega), entryBytes_eq]
  refine (ofBytes_append_right _ _ k).trans ?_
  rw [ofBytes_append_left _ (by simpa using hk), ofBytes_littleEndian _ hk]

lemma sectors (hlt : x.2.sectors < 2 ^ 32) : word32 m (a + 12) = x.2.sectors := by
  apply word32_of_wordBytes hlt
  intro k hk
  rw [Nat.add_assoc, h (12 + k) (by omega), entryBytes_eq, show 12 + k = 8 + (4 + k) by omega]
  refine (ofBytes_append_right _ _ (4 + k)).trans ?_
  refine (ofBytes_append_right _ _ k).trans ?_
  rw [ofBytes_littleEndian _ hk]

lemma type : (m (a + 4)).toNat = x.1.type := by
  rw [h 4 (by omega)]
  cases hrole : x.1 <;> simp [entryBytes, ofBytes, packChs, hrole, Role.type]

lemma bootable : m a = 0 ∨ m a = 0x80 := by
  have hfirst := h 0 (by omega)
  rw [Nat.add_zero] at hfirst
  rw [hfirst]
  by_cases hrole : x.1 = .kernel
  · right
    simp [entryBytes, ofBytes, hrole]
  · left
    simp [entryBytes, ofBytes, hrole]

lemma valid : word32 m a ≠ 0 := by
  have hsec : m (a + 2) ≠ 0 := by
    rw [h 2 (by omega)]
    exact packChs_sector x.2.start
  intro hzero
  have hpos : (m (a + 2)).toNat ≠ 0 := fun heq => hsec (UInt8.toNat_inj.mp heq)
  simp only [word32] at hzero
  omega

end EntryAt

lemma BlankAt.word (h : BlankAt m a) {k : Nat} (hk : k + 4 ≤ 16) : word32 m (a + k) = 0 := by
  simp only [word32, Nat.add_assoc]
  rw [h k (by omega), h (k + 1) (by omega), h (k + 2) (by omega), h (k + 3) (by omega)]
  rfl

end Entries

def TableAt (m : Memory) (extents : List (Role × Extent)) : Prop :=
  ∀ i < 4, match extents[i]? with
    | some x => EntryAt m (446 + 16 * i) x
    | none => BlankAt m (446 + 16 * i)

lemma makeMbr_eq_some (h : makeMbr loader args extents = some mbr) : ∃ boot : List Byte,
      boot.length = 446 ∧ mbr = boot ++ (makePartitionTable extents ++ [0x55, 0xaa]) := by
  simp only [makeMbr, Option.bind_eq_bind, Option.bind_eq_some_iff] at h
  obtain ⟨commandLine, hcommand, h⟩ := h
  obtain ⟨hfits, rfl⟩ := makeKernelCommandLine_eq_some hcommand
  refine ⟨_, ?_, ((some.inj h).symm).trans (append_assoc _ _ _)⟩
  simp only [length_append, padTo_length, length_map, List.length_range,
    length_replicate, loaderSize, loaderArgsLen] at hfits ⊢
  omega

lemma makeMbr_table (h : makeMbr loader args extents = some mbr) :
    mbr.length = 512 ∧ signature (ofBytes mbr) = 0xaa55 ∧ TableAt (ofBytes mbr) extents := by
  obtain ⟨boot, hboot, rfl⟩ := makeMbr_eq_some h
  have hbyte : ∀ k < 64, ofBytes (boot ++ (makePartitionTable extents ++ [0x55, 0xaa])) (446 + k) =
      ofBytes (extents.flatMap entryBytes) k := by
    intro k hk
    rw [← hboot, ofBytes_append_right,
      ofBytes_append_left _ (by simpa [makePartitionTable] using hk),
      makePartitionTable, ofBytes_padTo _ hk]
  have hsig : ∀ k, ofBytes (boot ++ (makePartitionTable extents ++ [0x55, 0xaa])) (446 + (64 + k)) =
      ofBytes [0x55, 0xaa] k := by
    intro k
    have htab : (makePartitionTable extents).length = 64 := padTo_length _ _
    rw [← hboot, ofBytes_append_right, ← htab, ofBytes_append_right]
  refine ⟨by simp [hboot, makePartitionTable], ?_, fun i hi => ?_⟩
  · rw [signature, show 510 = 446 + (64 + 0) by rfl, show 511 = 446 + (64 + 1) by rfl, hsig, hsig]
    rfl
  have hentry : ∀ j < 16, ofBytes (boot ++ (makePartitionTable extents ++ [0x55, 0xaa]))
      (446 + 16 * i + j) = ((extents[i]?.bind fun x => (entryBytes x)[j]?)).getD 0 := by
    intro j hj
    rw [Nat.add_assoc, hbyte _ (by omega), ← getElem?_flatMap entryBytes_length extents i hj]
    simp [ofBytes]
  cases hx : extents[i]? with
  | some x =>
    intro j hj
    rw [hentry j hj, hx]
    simp [ofBytes]
  | none =>
    intro j hj
    rw [hentry j hj, hx]
    rfl

/-! ## The host reads the table -/

def extentOf (extents : List (Role × Extent)) (role : Role) : Option Extent :=
  (extents.find? fun x => x.1 = role).map Prod.snd

lemma typeRole_type (role : Role) : typeRole role.type = some role := by cases role <;> rfl

section Interpret

variable {m : Memory}

lemma extentOf_concat (x : Role × Extent) (hfresh : extentOf extents x.1 = none) :
    extentOf (extents ++ [x]) = update (extentOf extents) x.1 (some x.2) := by
  funext role
  simp only [extentOf, Option.map_eq_none_iff] at hfresh
  by_cases hrole : role = x.1
  · simp [extentOf, hrole, hfresh]
  rw [update_of_ne hrole]
  simp [extentOf, List.find?_append, Ne.symm hrole]

lemma interpretEntry_entryAt {x : Role × Extent} (h : EntryAt m a x)
    (hstart : x.2.start < 2 ^ 32) (hsecs : x.2.sectors < 2 ^ 32) {parts : Role → Option Extent}
    (hfresh : parts x.1 = none) : interpretEntry m parts a = update parts x.1 (some x.2) := by
  have hboot : ¬ (m a ≠ 0 ∧ m a ≠ 0x80) := by
    have := h.bootable
    tauto
  rw [interpretEntry, if_neg h.valid, if_neg hboot, h.type, typeRole_type]
  simp only [hfresh, Option.isSome_none, Bool.false_eq_true, if_false, h.start hstart,
    h.sectors hsecs]

lemma interpretEntry_blankAt (h : BlankAt m a) (parts : Role → Option Extent) :
    interpretEntry m parts a = parts := by
  have hword : word32 m a = 0 := h.word (k := 0) (by omega)
  rw [interpretEntry, if_pos hword]

lemma extentOf_take {i : Nat} {x : Role × Extent} (hnodup : (extents.map Prod.fst).Nodup)
    (hx : extents[i]? = some x) : extentOf (extents.take i) x.1 = none := by
  rw [extentOf, Option.map_eq_none_iff, List.find?_eq_none]
  intro y hy heq
  obtain ⟨j, hj, rfl⟩ := List.getElem_of_mem hy
  rw [length_take] at hj
  obtain ⟨hi, rfl⟩ := getElem?_eq_some_iff.mp hx
  have hlt : j < extents.length := by omega
  have hsame : (extents.map Prod.fst)[j]? = (extents.map Prod.fst)[i]? := by
    simpa [getElem?_eq_getElem hlt, getElem?_eq_getElem hi] using heq
  have hij := (List.getElem?_inj (by simpa using hlt) hnodup).mp hsame
  omega

def Narrow (extents : List (Role × Extent)) : Prop :=
  ∀ x ∈ extents, x.2.start < 2 ^ 32 ∧ x.2.sectors < 2 ^ 32

lemma interpretPartitionTable_take (htab : TableAt m extents) (hnarrow : Narrow extents)
    (hnodup : (extents.map Prod.fst).Nodup) : ∀ n ≤ 4,
    (List.range n).foldl (fun parts i => interpretEntry m parts (446 + 16 * i)) (fun _ => none) =
      extentOf (extents.take n) := by
  intro n
  induction n with
  | zero => exact fun _ => rfl
  | succ n ih =>
    intro hn
    rw [range_succ, foldl_append, ih (by omega), foldl_cons, List.foldl_nil]
    have hentry := htab n (by omega)
    cases hx : extents[n]? with
    | none =>
      rw [hx] at hentry
      rw [interpretEntry_blankAt hentry, List.take_add_one, hx]
      simp
    | some x =>
      rw [hx] at hentry
      have hfresh := extentOf_take hnodup hx
      have hwords := hnarrow x (mem_of_getElem? hx)
      rw [interpretEntry_entryAt hentry hwords.1 hwords.2 hfresh, List.take_add_one, hx]
      exact (extentOf_concat x hfresh).symm

end Interpret

/-! ## The kernel reads the table -/

def Role.blockType : Role → BlockType
  | .kernel => .kernel
  | .filesys => .filesys
  | .scratch => .scratch
  | .swap => .swap

def registered (extents : List (Role × Extent)) : List Partition :=
  extents.mapIdx fun i x => ⟨i + 1, x.1.blockType, x.2.start, x.2.sectors⟩

lemma blockType_type (role : Role) : Devices.blockType role.type = role.blockType := by
  cases role <;> rfl

section Kernel

variable {heapOk : Nat → Bool} {block : BlockDevice} {nested : Nat → Nat → ScanAction Unit}
  {m : Memory} {s : Scan}

lemma wp_parsePartitions_concat (entries : List PartitionEntry) (e : PartitionEntry)
    (Q : Unit → Scan → Prop) : ∀ s,
    wp (parsePartitions heapOk block nested 0 0 (entries ++ [e])) Q s ↔
      wp (parsePartitions heapOk block nested 0 0 entries)
        (fun _ t => wp (parseEntry heapOk block nested 0 0 e) Q t) s := by
  induction entries with
  | nil =>
    intro s
    simp [parsePartitions]
  | cons first rest ih =>
    intro s
    simp [parsePartitions, ih]

lemma wp_parseEntry_entryAt (hheap : ∀ n, heapOk n = true) {x : Role × Extent}
    (h : EntryAt m a x) (hsecs : 0 < x.2.sectors) (hfits : x.2.start + x.2.sectors ≤ block.size)
    (hsize : block.size < 2 ^ 32) :
    wp (parseEntry heapOk block nested 0 0 (.decode m a)) (fun _ t =>
      t.partNr = s.partNr + 1 ∧ t.blocks =
        s.blocks ++ [⟨s.partNr + 1, x.1.blockType, x.2.start, x.2.sectors⟩]) s := by
  have hdecode : PartitionEntry.decode m a = ⟨x.1.type, x.2.start, x.2.sectors⟩ := by
    rw [PartitionEntry.decode, h.type, h.start (by omega), h.sectors (by omega)]
  have htype : x.1.type ≠ 0 ∧ ¬ PartitionEntry.Extended ⟨x.1.type, x.2.start, x.2.sectors⟩ := by
    cases x.1 <;> simp [Role.type, PartitionEntry.Extended]
  have hempty : ¬ PartitionEntry.Empty ⟨x.1.type, x.2.start, x.2.sectors⟩ := by
    simp only [PartitionEntry.Empty, not_or]
    exact ⟨by omega, htype.1⟩
  have hmod : x.2.start % 2 ^ 32 = x.2.start := Nat.mod_eq_of_lt (by omega)
  have hend : (x.2.start + x.2.sectors) % 2 ^ 32 = x.2.start + x.2.sectors :=
    Nat.mod_eq_of_lt (by omega)
  rw [hdecode, parseEntry, if_neg hempty, if_neg htype.2]
  simp only [foundPartition, Nat.add_zero, hmod, hend, wp_bind, wp_modify, wp_get]
  rw [if_neg (by omega), if_neg (by omega)]
  simp only [wp_bind, wp_allocate hheap, wp_modify, blockType_type, and_self]

lemma wp_parseEntry_blankAt (h : BlankAt m a) :
    wp (parseEntry heapOk block nested 0 0 (.decode m a)) (fun _ t => t = s) s := by
  have hempty : (PartitionEntry.decode m a).Empty := Or.inl (h.word (k := 12) (by omega))
  rw [parseEntry, if_pos hempty]
  exact rfl

lemma parsePartitions_take (hheap : ∀ n, heapOk n = true) (htab : TableAt m extents)
    (hsecs : ∀ x ∈ extents, 0 < x.2.sectors ∧ x.2.start + x.2.sectors ≤ block.size)
    (hsize : block.size < 2 ^ 32) (hpartNr : s.partNr = 0) (hblocks : s.blocks = []) : ∀ n ≤ 4,
    wp (parsePartitions heapOk block nested 0 0
        ((List.range n).map fun i => .decode m (446 + 16 * i))) (fun _ t =>
      t.partNr = (extents.take n).length ∧ t.blocks = registered (extents.take n)) s := by
  intro n
  induction n with
  | zero => exact fun _ => ⟨hpartNr, hblocks⟩
  | succ n ih =>
    intro hn
    rw [range_succ, map_append, List.map_singleton, wp_parsePartitions_concat]
    refine wp_mono (ih (by omega)) ?_
    intro _ t ht
    have hentry := htab n (by omega)
    rw [List.take_add_one]
    cases hx : extents[n]? with
    | none =>
      rw [hx] at hentry
      refine wp_mono (wp_parseEntry_blankAt hentry) ?_
      rintro _ u rfl
      simpa using ht
    | some x =>
      rw [hx] at hentry
      obtain ⟨hpos, hfits⟩ := hsecs x (mem_of_getElem? hx)
      refine wp_mono (wp_parseEntry_entryAt hheap hentry hpos hfits hsize) ?_
      rintro _ u ⟨hnr, hregistered⟩
      rw [ht.1] at hnr hregistered
      rw [ht.2] at hregistered
      refine ⟨by simpa using hnr, ?_⟩
      rw [hregistered, registered, registered, Option.toList_some, List.mapIdx_concat]

lemma TableAt.congr {m' : Memory} (h : TableAt m extents) (hsame : ∀ k < 512, m' k = m k) :
    TableAt m' extents := by
  intro i hi
  have hentry := h i hi
  cases hx : extents[i]? with
  | none =>
    rw [hx] at hentry
    exact fun j hj => (hsame _ (by omega)).trans (hentry j hj)
  | some x =>
    rw [hx] at hentry
    exact fun j hj => (hsame _ (by omega)).trans (hentry j hj)

lemma partitionScan_registers (depth : Nat) (hheap : ∀ n, heapOk n = true)
    (hpositive : 0 < block.size) (hsignature : signature (block.sector 0) = 0xaa55)
    (htab : TableAt (block.sector 0) extents) (hshort : extents.length ≤ 4)
    (hsecs : ∀ x ∈ extents, 0 < x.2.sectors ∧ x.2.start + x.2.sectors ≤ block.size)
    (hsize : block.size < 2 ^ 32) : wp (partitionScan heapOk block (depth + 1))
    (fun _ t => t.blocks = registered extents) Scan.initial := by
  rw [partitionScan, readPartitionTable, if_neg (by omega)]
  simp only [wp_bind, wp_allocate hheap, blockRead, wp_require, wp_modify,
    wp_pure, hsignature, ne_eq, not_true_eq_false, if_false]
  refine ⟨hpositive, ?_⟩
  have hparse : wp (parsePartitions heapOk block (readPartitionTable heapOk block depth) 0 0
      ((List.range 4).map fun i => .decode (block.sector 0) (446 + 16 * i))) (fun _ t =>
        t.partNr = (extents.take 4).length ∧ t.blocks = registered (extents.take 4))
      ⟨0, [], [(0, 0)], 1⟩ :=
    parsePartitions_take hheap htab hsecs hsize rfl rfl 4 le_rfl
  rw [List.take_of_length_le hshort] at hparse
  exact wp_mono hparse fun _ t ht => ht.2

end Kernel

/-! ## One disk, two readers -/

def Disk.block (disk : Disk) : BlockDevice := ⟨disk.image.length / 512, ofBytes disk.image⟩

structure Disk.MeansSame (heapOk : Nat → Bool) (depth : Nat) (parts : Parts) (disk : Disk) :
    Prop where
  roles : disk.extents.map Prod.fst = roleOrder.filter fun role => (parts role).isSome
  start : ∀ x ∈ disk.extents, 0 < x.2.start
  disjoint : disk.extents.Pairwise fun x y => x.2.start + x.2.sectors ≤ y.2.start
  fits : ∀ x ∈ disk.extents, (x.2.start + x.2.sectors) * 512 ≤ disk.image.length
  host : interpretPartitionTable (ofBytes (disk.image.take 512)) = extentOf disk.extents
  kernel : wp (partitionScan heapOk disk.block (depth + 1))
    (fun _ t => t.blocks = registered disk.extents) Scan.initial

section Assemble

variable {align : Align} {parts : Parts} {disk : Disk}

lemma firstSector_mul (align : Align) : firstSector align * 512 =
    512 + if align.aligned then 512 * (sectorsPerTrack - 1) else 0 := by
  cases align <;> rfl

def imageSectors (align : Align) (total : Nat) : Nat :=
  if align.pads then roundUpTo total cylSectors else total

lemma le_imageSectors (align : Align) (total : Nat) : total ≤ imageSectors align total := by
  unfold imageSectors
  split
  · exact le_roundUpTo _ (by decide)
  · exact le_rfl

lemma assembleDisk_eq_some (hpos : ∀ role contents, parts role = some contents → contents ≠ [])
    (h : assembleDisk align loader args parts = some disk) : ∃ mbr rest,
      makeMbr loader args disk.extents = some mbr ∧ disk.image = mbr ++ rest ∧
        disk.extents = (layout align parts).1 ∧
        disk.image.length = imageSectors align (layout align parts).2 * 512 := by
  simp only [assembleDisk, Option.bind_eq_bind, Option.bind_eq_some_iff] at h
  obtain ⟨mbr, hmbr, h⟩ := h
  obtain ⟨hlen, hdisk⟩ := (ite_none_right_eq_some).mp h
  obtain rfl := some.inj hdisk
  simp only [append_assoc]
  refine ⟨mbr, _, hmbr, rfl, trivial, ?_⟩
  have hlaid : LaidOut parts (firstSector align) (layout align parts).2 (layout align parts).1 :=
    layoutFrom_laidOut hpos roleOrder _
  have hle := hlaid.le
  have hsecs := le_imageSectors align (layout align parts).2
  have hgap := firstSector_mul align
  simp only [length_append, length_replicate, hlaid.bytes_length, hlen]
  unfold imageSectors at hsecs ⊢
  split at hsecs
  · rename_i hpads
    rw [if_pos hpads, if_pos hpads]
    omega
  rename_i hpads
  rw [if_neg hpads, if_neg hpads]
  omega

lemma assembleDisk_isSome (align : Align) (loader : List Byte) (parts : Parts)
    (hargs : (joinArgs args).length ≤ loaderArgsLen) :
    ∃ disk, assembleDisk align loader args parts = some disk := by
  have hcommand : ∃ commandLine, makeKernelCommandLine args = some commandLine := by
    rw [makeKernelCommandLine, if_neg (by omega)]
    exact ⟨_, rfl⟩
  obtain ⟨commandLine, hcommand⟩ := hcommand
  obtain ⟨mbr, hmbr⟩ : ∃ mbr, makeMbr loader args (layout align parts).1 = some mbr := by
    rw [makeMbr, hcommand]
    exact ⟨_, rfl⟩
  simp only [assembleDisk, hmbr, Option.bind_eq_bind, Option.bind_some,
    if_pos (makeMbr_table hmbr).1]
  exact ⟨_, rfl⟩

lemma roleOrder_filter_nodup (p : Role → Bool) : (roleOrder.filter p).Nodup :=
  List.Nodup.filter p (by decide)

theorem assembleDisk_meansSame {heapOk : Nat → Bool} (depth : Nat)
    (hpos : ∀ role contents, parts role = some contents → contents ≠ [])
    (hdisk : assembleDisk align loader args parts = some disk)
    (hsize : disk.image.length < 2 ^ 31 * 512) (hheap : ∀ n, heapOk n = true) :
    disk.MeansSame heapOk depth parts := by
  obtain ⟨mbr, rest, hmbr, himage, hextents, hsectors⟩ := assembleDisk_eq_some hpos hdisk
  obtain ⟨hlength, hsignature, htable⟩ := makeMbr_table hmbr
  have hlaid : LaidOut parts (firstSector align) (layout align parts).2 disk.extents :=
    hextents ▸ layoutFrom_laidOut hpos roleOrder _
  have hfits : (layout align parts).2 * 512 ≤ disk.image.length := by
    rw [hsectors]
    exact Nat.mul_le_mul_right 512 (le_imageSectors align _)
  have hfirst : 0 < firstSector align := by cases align <;> decide
  have hroles : disk.extents.map Prod.fst = roleOrder.filter fun role => (parts role).isSome :=
    hextents ▸ layoutFrom_roles roleOrder _
  have hnodup : (disk.extents.map Prod.fst).Nodup := hroles ▸ roleOrder_filter_nodup _
  have hshort : disk.extents.length ≤ 4 := by
    rw [← length_map Prod.fst, hroles]
    exact List.length_filter_le _ _
  have hblock : disk.block.size < 2 ^ 32 := by
    have := Nat.div_lt_of_lt_mul (Nat.mul_comm _ _ ▸ hsize)
    exact this.trans (by decide)
  have hinside : ∀ x ∈ disk.extents, 0 < x.2.sectors ∧
      x.2.start + x.2.sectors ≤ disk.block.size := by
    intro x hx
    have hwithin := hlaid.within hx
    have htotal : (layout align parts).2 ≤ disk.block.size :=
      (Nat.le_div_iff_mul_le (by decide)).mpr hfits
    exact ⟨hwithin.2.1, hwithin.2.2.trans htotal⟩
  refine ⟨hroles, fun x hx => ?_, hlaid.pairwise, fun x hx => ?_, ?_, ?_⟩
  · exact hfirst.trans_le (hlaid.within hx).1
  · exact (Nat.mul_le_mul_right 512 (hlaid.within hx).2.2).trans hfits
  · have hnarrow : Narrow disk.extents := by
      intro x hx
      have hwithin := hinside x hx
      generalize disk.block.size = size at hblock hwithin
      omega
    rw [himage, ← hlength, List.take_left]
    have hread := interpretPartitionTable_take htable hnarrow hnodup 4 le_rfl
    rwa [List.take_of_length_le hshort] at hread
  · have hsector : ∀ k < 512, disk.block.sector 0 k = ofBytes mbr k := by
      intro k hk
      change ofBytes disk.image (512 * 0 + k) = _
      rw [himage, Nat.mul_zero, Nat.zero_add, ofBytes_append_left _ (by omega)]
    have hpositive : 0 < disk.block.size := by
      have : disk.image.length = 512 + rest.length := by rw [himage, length_append, hlength]
      simp only [Disk.block]
      omega
    have hsignature' : signature (disk.block.sector 0) = 0xaa55 := by
      rw [signature, hsector _ (by decide), hsector _ (by decide)]
      exact hsignature
    exact partitionScan_registers depth hheap hpositive hsignature' (htable.congr hsector) hshort
      hinside hblock

def twoParts : Parts
  | .kernel => some [1]
  | .swap => some [2]
  | _ => none

theorem twoParts_meansSame : ∃ disk, assembleDisk .bochs [] [] twoParts = some disk ∧
    disk.MeansSame (fun _ => true) 0 twoParts := by
  have hpos : ∀ role contents, twoParts role = some contents → contents ≠ [] := by
    rintro (_ | _ | _ | _) contents h rfl <;> simp [twoParts] at h
  obtain ⟨disk, hdisk⟩ : ∃ disk, assembleDisk .bochs [] [] twoParts = some disk :=
    assembleDisk_isSome .bochs [] twoParts (by decide)
  have hsize : disk.image.length < 2 ^ 31 * 512 := by
    obtain ⟨-, -, -, -, -, hlength⟩ := assembleDisk_eq_some hpos hdisk
    rw [hlength]
    decide
  exact ⟨disk, hdisk, assembleDisk_meansSame 0 hpos hdisk hsize fun _ => rfl⟩

end Assemble

end Pintos.Utils
