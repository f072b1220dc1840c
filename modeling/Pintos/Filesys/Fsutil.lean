import Pintos.Filesys.Room
import Pintos.Utils.Scratch

/-!
# Archives on the scratch device

`fsutil_extract` and `fsutil_append` of `filesys/fsutil.c`.  Both have a `static`
sector that stays where the last call left it.  What they print is left out, and a
panic is its text without the values in it.
-/

namespace Pintos.Filesys

open Foundation

variable {sector : Nat} {buffer data header : Memory} {bytes contents later now : List Byte}
  {name : CString}

structure Block where
  size : Nat
  size_lt : size < 2 ^ 32
  data : Memory

/-- The file system, the device with the role `BLOCK_SCRATCH` and the two positions on it. -/
structure Tools where
  fs : Fs
  scratch : Option Block
  extractSector : Nat
  appendSector : Nat

variable {k t : Tools}

abbrev ToolAction := Action Tools Fault

namespace Tools

@[simps -fullyApplied] def setFs (k : Tools) (fs : Fs) : Tools := { k with fs }

@[simps -fullyApplied] def setExtractSector (k : Tools) (extractSector : Nat) : Tools :=
  { k with extractSector }

@[simps -fullyApplied] def setAppendSector (k : Tools) (appendSector : Nat) : Tools :=
  { k with appendSector }

@[simps -fullyApplied] def setScratch (k : Tools) (block : Block) : Tools :=
  { k with scratch := some block }

@[simp] lemma setFs_setFs (k : Tools) (fs fs' : Fs) : (k.setFs fs).setFs fs' = k.setFs fs' := rfl

end Tools

def inFs {α : Type} (x : FsAction α) : ToolAction α := zoom Tools.fs Tools.setFs x

/-- `malloc (BLOCK_SECTOR_SIZE)`, and what the block holds. -/
def sectorBuffer : ToolAction (Option Memory) := do
  let buffer ← inFs uninitialised
  let granted ← inFs malloc
  return if granted then some buffer else none

/-! ## The scratch device -/

def scratchDevice : ToolAction Block := do
  let k ← Action.get
  match k.scratch with
  | none => stop (.panic "couldn't open scratch device")
  | some block => return block

/-- `block_read (src, sector, buffer)`. -/
def scratchRead (sector : Nat) (buffer : Memory) : ToolAction Memory := do
  let block ← scratchDevice
  require (sector < block.size) (.panic "Access past end of device")
  return copy buffer 0 block.data (sectorSize * sector) sectorSize

/-- `block_write (dst, sector, buffer + offset)`. -/
def scratchWrite (sector : Nat) (buffer : Memory) (offset : Nat) : ToolAction Unit := do
  let block ← scratchDevice
  require (sector < block.size) (.panic "Access past end of device")
  Action.modify (·.setScratch
    { block with data := copy block.data (sectorSize * sector) buffer offset sectorSize })

/-- `sector++` in `fsutil_extract`. -/
def nextExtractSector : ToolAction Nat := do
  let k ← Action.get
  Action.modify (·.setExtractSector ((k.extractSector + 1) % 2 ^ 32))
  return k.extractSector

/-- `sector++` in `fsutil_append`. -/
def nextAppendSector : ToolAction Nat := do
  let k ← Action.get
  Action.modify (·.setAppendSector ((k.appendSector + 1) % 2 ^ 32))
  return k.appendSector

/-! ## Extracting -/

/-- The copying loop of `fsutil_extract`, which takes at most as many rounds as there are bytes. -/
def extractData (dst : Nat) : Nat → Nat → Memory → ToolAction Memory
  | 0, _, data => return data
  | rounds + 1, size, data =>
    if size > 0 then do
      let chunkSize := if size > sectorSize then sectorSize else size
      let sector ← nextExtractSector
      let data ← scratchRead sector data
      let written ← inFs (fileWrite dst data chunkSize)
      require (written = chunkSize) (.panic "write failed")
      extractData dst rounds (size - chunkSize) data
    else return data

def extractFile (fileName : Option CString) (size : Nat) (data : Memory) : ToolAction Memory := do
  let created ← inFs (filesysCreate fileName size)
  require (created = true) (.panic "create failed")
  match ← inFs (filesysOpen fileName) with
  | none => stop (.panic "open failed")
  | some dst => do
    let data ← extractData dst size size data
    inFs (fileClose (some dst))
    return data

def parseHeader (header : Memory) : ToolAction Ustar.Parsed :=
  Action.ofExcept ((Ustar.ustarParseHeader header).mapError fun _ => .panic "bad ustar header")

def extractRound (header data : Memory) (next : Memory → Memory → ToolAction Memory) :
    ToolAction Memory := do
  let sector ← nextExtractSector
  let header ← scratchRead sector header
  let parsed ← parseHeader header
  match parsed.type with
  | .eof => return header
  | .directory => next header data
  | .regular => do
    let data ← extractFile parsed.fileName parsed.size data
    next header data

def extractLoop : Nat → Memory → Memory → ToolAction Memory
  | 0, header, _ => return header
  | rounds + 1, header, data => extractRound header data (extractLoop rounds)

def fsutilExtract : ToolAction Unit := do
  let header ← sectorBuffer
  let data ← sectorBuffer
  match header, data with
  | some header, some data => do
    let src ← scratchDevice
    let header ← extractLoop (src.size + 1) header data
    let header := fill header 0 0 sectorSize
    scratchWrite 0 header 0
    scratchWrite 1 header 0
  | _, _ => stop (.panic "couldn't allocate buffers")

/-! ## Appending -/

def appendData (src : Nat) : Nat → Int → Memory → ToolAction Memory
  | 0, _, buffer => return buffer
  | rounds + 1, size, buffer =>
    if size > 0 then do
      let chunkSize := if size > sectorSize then (sectorSize : Int) else size
      let dst ← scratchDevice
      let k ← Action.get
      require (k.appendSector < dst.size) (.panic "out of space on scratch device")
      let (bytesRead, buffer) ← inFs (fileRead src buffer chunkSize)
      require (bytesRead = chunkSize) (.panic "read failed")
      let buffer := fill buffer chunkSize.toNat 0 (sectorSize - chunkSize.toNat)
      let sector ← nextAppendSector
      scratchWrite sector buffer 0
      appendData src rounds (size - chunkSize) buffer
    else return buffer

def appendFile (fileName : CString) (src : Nat) (buffer : Memory) : ToolAction Unit := do
  let size ← inFs (fileLength src)
  let _ ← scratchDevice
  let (made, buffer) ← Action.ofExcept (Ustar.ustarMakeHeader fileName .regular size buffer)
  require (made = true) (.panic "name too long for ustar format")
  let sector ← nextAppendSector
  scratchWrite sector buffer 0
  let buffer ← appendData src size.toNat size buffer
  let buffer := fill buffer 0 0 sectorSize
  let k ← Action.get
  scratchWrite k.appendSector buffer 0
  -- not the next sector: the same one again, from the second byte of the buffer on
  scratchWrite k.appendSector buffer 1
  inFs (fileClose (some src))

def fsutilAppend (fileName : CString) : ToolAction Unit := do
  match ← sectorBuffer with
  | none => stop (.panic "couldn't allocate buffer")
  | some buffer => do
    match ← inFs (filesysOpen (some fileName)) with
    | none => stop (.panic "open failed")
    | some src => appendFile fileName src buffer

/-! ## What the device does -/

section Device

variable {block : Block}

lemma wp_inFs {α : Type} (x : FsAction α) (Q : α → Tools → Prop) (k : Tools) :
    wp (inFs x) Q k ↔ wp x (fun r s => Q r (k.setFs s)) k.fs :=
  wp_zoom ..

lemma wp_sectorBuffer (h : k.fs.HeapOk) (Q : Option Memory → Tools → Prop) : wp sectorBuffer Q k ↔
      Q (some (k.fs.garbage k.fs.allocations)) (k.setFs (k.fs.spend 1)) := by
  simp [sectorBuffer, wp_inFs, uninitialised, h k.fs.allocations]

section

variable (h : k.scratch = some block)

include h

lemma wp_scratchDevice (Q : Block → Tools → Prop) :
    wp scratchDevice Q k ↔ Q block k := by
  simp [scratchDevice, h]

lemma wp_scratchRead (hsec : sector < block.size)
    (buffer : Memory) (Q : Memory → Tools → Prop) : wp (scratchRead sector buffer) Q k ↔
      Q (copy buffer 0 block.data (sectorSize * sector) sectorSize) k := by
  simp [scratchRead, wp_scratchDevice h, hsec]

lemma wp_scratchWrite (hsec : sector < block.size)
    (buffer : Memory) (offset : Nat) (Q : Unit → Tools → Prop) :
    wp (scratchWrite sector buffer offset) Q k ↔ Q () (k.setScratch
      { block with data := copy block.data (sectorSize * sector) buffer offset sectorSize }) := by
  simp [scratchWrite, wp_scratchDevice h, hsec]

end

lemma wp_parseHeader {parsed : Ustar.Parsed} (h : Ustar.ustarParseHeader header = .ok parsed)
    (Q : Ustar.Parsed → Tools → Prop) : wp (parseHeader header) Q k ↔ Q parsed k := by
  rw [parseHeader, h]
  exact wp_ofExcept rfl Q k

lemma wp_nextExtractSector (h : k.extractSector < block.size) (Q : Nat → Tools → Prop) :
    wp nextExtractSector Q k ↔ Q k.extractSector (k.setExtractSector (k.extractSector + 1)) := by
  have hlt := block.size_lt
  simp [nextExtractSector, Nat.mod_eq_of_lt (show k.extractSector + 1 < 4294967296 by omega)]

lemma wp_nextAppendSector (h : k.appendSector < block.size) (Q : Nat → Tools → Prop) :
    wp nextAppendSector Q k ↔ Q k.appendSector (k.setAppendSector (k.appendSector + 1)) := by
  have hlt := block.size_lt
  simp [nextAppendSector, Nat.mod_eq_of_lt (show k.appendSector + 1 < 4294967296 by omega)]

end Device

/-! ## Extracting an archive -/

structure Advanced (k t : Tools) (count : Nat) : Prop where
  scratch : t.scratch = k.scratch
  sector : t.extractSector = k.extractSector + count

lemma copy_holds (h : HoldsAt data (sectorSize * sector) bytes) {i : Nat} (hi : i < bytes.length)
    (hsec : i < sectorSize) :
    copy buffer 0 data (sectorSize * sector) sectorSize i = ofBytes bytes i := by
  rw [copy_inside _ _ _ (Nat.zero_le _) (by omega), Nat.sub_zero, h i hi]

section Extract

variable {block : Block} {a : Model} {sizes : List Nat}

lemma exists_chunk {rest : List Byte} (hpos : 0 < rest.length) : ∃ now later, rest = now ++ later ∧
      now.length = (if rest.length > sectorSize then sectorSize else rest.length) ∧
      0 < now.length ∧ now.length ≤ sectorSize ∧ (later = [] ∨ now.length = sectorSize) ∧
      Ustar.sectors rest.length = 1 + Ustar.sectors later.length := by
  obtain ⟨chunk, hchunk⟩ : ∃ chunk, chunk = if rest.length > sectorSize then sectorSize
    else rest.length := ⟨_, rfl⟩
  have hcases : chunk ≤ rest.length ∧ 0 < chunk ∧ chunk ≤ sectorSize ∧
      (chunk = rest.length ∨ chunk = sectorSize) := by
    rw [hchunk, sectorSize]
    split <;> omega
  obtain ⟨hle, hchunkPos, hsec, hlast⟩ := hcases
  have hnow : (rest.take chunk).length = chunk := by
    rw [length_take]
    omega
  refine ⟨rest.take chunk, rest.drop chunk, (List.take_append_drop _ _).symm, hnow.trans hchunk,
    by omega, by omega, ?_, ?_⟩
  · rcases hlast with hlast | hlast
    · exact .inl (List.drop_eq_nil_of_le hlast.ge)
    · exact .inr (hnow.trans hlast)
  · rw [List.length_drop, Ustar.sectors, Ustar.sectors]
    rw [sectorSize] at hlast hsec
    omega

lemma holdsAt_later (h : HoldsAt data (sectorSize * sector) (now ++ later))
    (hlast : later = [] ∨ now.length = sectorSize) :
    HoldsAt data (sectorSize * (sector + 1)) later := by
  rcases hlast with rfl | hnow
  · exact fun i hi => absurd hi (Nat.not_lt_zero i)
  have hlater := (holdsAt_append.mp h).2
  rwa [hnow] at hlater

lemma extractData_spec {dst : Nat} (rounds : Nat) : ∀ (k : Tools) (done rest : List Byte)
    (data : Memory), rest.length ≤ rounds → k.scratch = some block →
    HoldsAt block.data (sectorSize * k.extractSector) rest →
    k.extractSector + Ustar.sectors rest.length ≤ block.size →
    Refines k.fs ((a.store name (done ++ replicate rest.length 0)).setHandle dst
      (some (a.next, (done.length : Int)))) → Room k.fs sizes →
    wp (extractData dst rounds rest.length data)
      (fun _ t => Advanced k t (Ustar.sectors rest.length) ∧
        Refines t.fs ((a.store name (done ++ rest)).setHandle dst
          (some (a.next, ((done ++ rest).length : Int)))) ∧ Room t.fs sizes) k := by
  induction rounds with
  | zero =>
    intro k done rest data hrounds _ _ _ href hroom
    obtain rfl := length_eq_zero_iff.mp (Nat.le_zero.mp hrounds)
    exact ⟨⟨rfl, rfl⟩, by simpa using href, hroom⟩
  | succ rounds ih =>
    intro k done rest data hrounds hscr hholds hsize href hroom
    rw [extractData]
    split
    · next hpos =>
        obtain ⟨now, later, rfl, hnow, hnowPos, hnowLe, hlast, hsecs⟩ := exists_chunk hpos
        rw [hsecs] at hsize ⊢
        have hin : k.extractSector < block.size := by omega
        dsimp only
        rw [← hnow]
        simp only [wp_bind, wp_require]
        rw [wp_nextExtractSector hin,
          wp_scratchRead (k := k.setExtractSector (k.extractSector + 1)) hscr hin, wp_inFs]
        have hbuf : ∀ i < now.length, copy data 0 block.data (sectorSize * k.extractSector)
            sectorSize i = ofBytes now i := fun i hi =>
          copy_holds (holdsAt_append.mp hholds).1 hi (by omega)
        have hcnt : now.length = Model.count (((a.store name (done ++
            replicate (now ++ later).length 0)).setHandle dst
              (some (a.next, (done.length : Int)))).bytes a.next) now.length done.length := by
          simp [Model.count]
        refine wp_mono (fileWrite_refines href (Model.setHandle_handles ..) _ hcnt) ?_
        rintro _ s ⟨rfl, hs, hmap, hslots⟩
        rw [Model.setBytes_store, Model.setHandle_setHandle, Model.setHandle_bytes,
          Model.store_bytes, length_append, Int.toNat_natCast,
          Model.overwrite_next done now later.length hbuf] at hs
        rw [length_append, Nat.add_sub_cancel_left]
        refine ⟨rfl, wp_mono (ih ((k.setExtractSector (k.extractSector + 1)).setFs s)
          (done ++ now) later _ ?_ hscr (holdsAt_later hholds hlast) ?_ ?_
          (hroom.congr hmap hslots)) ?_⟩
        · rw [length_append] at hrounds
          omega
        · simp only [Tools.setFs_extractSector, Tools.setExtractSector_extractSector]
          omega
        · simpa using hs
        rintro _ t ⟨hadvanced, ht, hleft⟩
        rw [append_assoc] at ht
        exact ⟨⟨hadvanced.scratch, hadvanced.sector.trans (Nat.add_assoc _ _ _)⟩, ht, hleft⟩
    · next hzero =>
        obtain rfl := length_eq_zero_iff.mp (Nat.le_zero.mp (Nat.le_of_not_lt hzero))
        exact ⟨⟨rfl, rfl⟩, by simpa using href, hroom⟩

lemma extractFile_spec (data : Memory) (hscr : k.scratch = some block)
    (hholds : HoldsAt block.data (sectorSize * k.extractSector) contents)
    (hsize : k.extractSector + Ustar.sectors contents.length ≤ block.size)
    (href : Refines k.fs a) (hvalid : ValidName name) (hunbound : a.names name = none)
    (hlen : contents.length < 2 ^ 31) (hroom : Room k.fs (contents.length :: sizes)) :
    wp (extractFile (some name) contents.length data)
      (fun _ t => Advanced k t (Ustar.sectors contents.length) ∧
        Refines t.fs (a.store name contents) ∧ Room t.fs sizes) k := by
  simp only [extractFile, wp_bind, wp_require, wp_inFs]
  refine wp_mono (filesysCreate_refines href hvalid hunbound hlen hroom) ?_
  rintro _ s ⟨rfl, hs, hleft⟩
  refine ⟨rfl, wp_mono (filesysOpen_refines hs (Model.store_names ..)) ?_⟩
  rintro _ u ⟨dst, rfl, hfresh, hu, hdev⟩
  simp only [wp_bind, wp_pure, wp_inFs]
  refine wp_mono (extractData_spec contents.length ((k.setFs s).setFs u) [] contents data
    le_rfl hscr hholds hsize hu (hleft.sameDevice hdev)) ?_
  rintro _ t ⟨hadvanced, ht, hroom⟩
  refine wp_mono (fileClose_refines ht (Model.setHandle_handles ..)
    (Model.store_names a name contents)) ?_
  rintro _ v ⟨hv, hdev'⟩
  rw [Model.setHandle_setHandle, nil_append,
    Model.setHandle_none (a := a.store name contents) hfresh] at hv
  exact ⟨⟨hadvanced.scratch, hadvanced.sector⟩, hv, hroom.sameDevice hdev'⟩

def stripped (file : CString × List Byte) : CString × List Byte :=
  (Ustar.stripAntisocialPrefixes file.1, file.2)

structure Storable (a : Model) (file : CString × List Byte) : Prop where
  short : file.1.strlen ≤ 99
  valid : ValidName (stripped file).1
  unbound : a.names (stripped file).1 = none
  size : file.2.length < 2 ^ 31

lemma ustarParseHeader_zeros (h : ∀ i < Ustar.headerSize, header i = 0) :
    Ustar.ustarParseHeader header = .ok ⟨none, .eof, 0⟩ := by
  rw [Ustar.ustarParseHeader, if_pos]
  rw [Ustar.isAllZeros, List.all_eq_true]
  exact fun i hi => decide_eq_true (h i (mem_range.mp hi))

lemma extractLoop_spec (files : List (CString × List Byte)) : ∀ (k : Tools) (a : Model)
    (archive : List Byte) (rounds : Nat) (header data : Memory), files.length < rounds →
    Ustar.Archive files archive → k.scratch = some block →
    HoldsAt block.data (sectorSize * k.extractSector) archive →
    (∀ i < sectorSize, block.data (sectorSize * k.extractSector + archive.length + i) = 0) →
    sectorSize * k.extractSector + archive.length + sectorSize ≤ sectorSize * block.size →
    Refines k.fs a → Room k.fs (files.map fun file => file.2.length) →
    (∀ file ∈ files, Storable a file) → (files.map fun file => (stripped file).1).Nodup →
    wp (extractLoop rounds header data)
      (fun _ t => t.scratch = k.scratch ∧ (∃ b, Refines t.fs b) ∧ ∀ name bytes,
        HasFile t.fs name bytes ↔
          HasFile k.fs name bytes ∨ (name, bytes) ∈ files.map stripped) k := by
  induction files with
  | nil =>
    intro k a archive rounds header data hrounds harch hscr _ hend hsize href _ _ _
    obtain rfl : archive = [] := harch
    obtain ⟨rounds, rfl⟩ : ∃ n, rounds = n + 1 := Nat.exists_eq_succ_of_ne_zero hrounds.ne'
    have hin : k.extractSector < block.size := by
      simp only [sectorSize, length_nil] at hsize
      omega
    have hzeros : ∀ i < Ustar.headerSize, copy header 0 block.data (sectorSize * k.extractSector)
        sectorSize i = 0 := by
      intro i hi
      rw [copy_inside _ _ _ (Nat.zero_le _) (by rw [Nat.zero_add]; exact hi), Nat.sub_zero]
      exact hend i hi
    simp only [extractLoop, extractRound, wp_bind]
    rw [wp_nextExtractSector hin,
      wp_scratchRead (k := k.setExtractSector (k.extractSector + 1)) hscr hin,
      wp_parseHeader (ustarParseHeader_zeros hzeros)]
    simp only [wp_pure]
    exact ⟨rfl, ⟨a, href⟩, by simp⟩
  | cons file files ih =>
    intro k a archive rounds header data hrounds harch hscr hholds hend hsize href
      hroom hfiles hnodup
    obtain ⟨name, contents⟩ := file
    obtain ⟨rounds, rfl⟩ : ∃ n, rounds = n + 1 := Nat.exists_eq_succ_of_ne_zero (by omega)
    obtain ⟨member, archive, hmember, harch, rfl⟩ := harch
    obtain ⟨hstorable, hothers⟩ := forall_mem_cons.mp hfiles
    have hlen : member.length = 512 * (1 + Ustar.sectors contents.length) := hmember.length
    obtain ⟨fields, filler, hfields, -, hhdr, hsealed, rfl⟩ := hmember
    rw [holdsAt_append, hlen] at hholds
    obtain ⟨hfirst, hrest⟩ := hholds
    rw [append_assoc, holdsAt_append, hfields] at hfirst
    rw [length_append, hlen] at hsize hend
    have hbehind : k.extractSector + 1 + Ustar.sectors contents.length < block.size := by
      simp only [sectorSize] at hsize
      omega
    have hin : k.extractSector < block.size := by omega
    have hsame : ∀ i < Ustar.headerSize, copy header 0 block.data (sectorSize * k.extractSector)
        sectorSize i = ofBytes fields i := fun i hi => copy_holds hfirst.1 (hfields ▸ hi) hi
    have hparse := Ustar.ustarParseHeader_eq (Nat.lt_succ_of_le hstorable.short)
      (hhdr.congr fun i hi _ => hsame i hi) (hsealed.congr hsame) (.inl rfl)
      (Nat.le_sub_one_of_lt hstorable.size)
    simp only [extractLoop, extractRound, wp_bind]
    rw [wp_nextExtractSector hin,
      wp_scratchRead (k := k.setExtractSector (k.extractSector + 1)) hscr hin,
      wp_parseHeader hparse]
    simp only [wp_bind]
    refine wp_mono (extractFile_spec data hscr (holdsAt_append.mp hfirst.2).1
      hbehind.le href hstorable.valid hstorable.unbound hstorable.size hroom) ?_
    rintro data' t ⟨hadvanced, ht, hleft⟩
    have haddr : sectorSize * t.extractSector =
        sectorSize * k.extractSector + 512 * (1 + Ustar.sectors contents.length) := by
      rw [hadvanced.sector, Tools.setExtractSector_extractSector, sectorSize]
      omega
    have hnames := nodup_cons.mp hnodup
    refine wp_mono (ih t (a.store (stripped (name, contents)).1 contents) archive rounds _
      data' (by rw [length_cons] at hrounds; omega) harch
      (hadvanced.scratch.trans hscr) (by rwa [haddr])
      (by rwa [haddr, Nat.add_assoc (sectorSize * _)]) (by rw [haddr]; omega) ht hleft
      (fun file hfile => ?_) hnames.2) ?_
    · have hne : (stripped file).1 ≠ (stripped (name, contents)).1 := fun heq =>
        hnames.1 (mem_map.mpr ⟨file, hfile, heq⟩)
      obtain ⟨hshort, hvalid, hunbound, hbytes⟩ := hothers file hfile
      exact ⟨hshort, hvalid, (a.store_names_of_ne contents hne).trans hunbound, hbytes⟩
    · rintro _ u ⟨hscr', hu, hhas⟩
      refine ⟨hscr'.trans hadvanced.scratch, hu, fun name' bytes => ?_⟩
      rw [hhas, href.hasFile_store ht hstorable.unbound, or_assoc, map_cons, mem_cons]
      rfl

lemma fsutilExtract_spec {a : Model} {files : List (CString × List Byte)} {archive : List Byte}
    (harch : Ustar.Archive files archive) (hscr : k.scratch = some block)
    (hsec : k.extractSector = 0) (hholds : HoldsAt block.data 0 (archive ++ Utils.nulls 1024))
    (hsize : archive.length + 1024 ≤ sectorSize * block.size) (href : Refines k.fs a)
    (hroom : Room k.fs (files.map fun file => file.2.length))
    (hfiles : ∀ file ∈ files, Storable a file)
    (hnodup : (files.map fun file => (stripped file).1).Nodup) :
    wp fsutilExtract (fun _ t => (∃ b, Refines t.fs b) ∧ ∀ name bytes,
      HasFile t.fs name bytes ↔
        HasFile k.fs name bytes ∨ (name, bytes) ∈ files.map stripped) k := by
  have hheap := href.heapOk
  obtain ⟨hmembers, hend⟩ := holdsAt_append.mp hholds
  have hlen := harch.length
  have hcnt := List.length_le_sum_of_one_le
    (files.map fun file => 1 + Ustar.sectors file.2.length) fun count hmem => by
      obtain ⟨file, -, rfl⟩ := mem_map.mp hmem
      omega
  rw [length_map] at hcnt
  simp only [sectorSize] at hsize
  have hzeros : ∀ i < sectorSize, block.data (archive.length + i) = 0 := by
    intro i hi
    have hlt : i < 1024 := hi.trans (by decide)
    have hbyte := hend i (by rw [Utils.nulls, length_replicate]; exact hlt)
    rw [Utils.nulls, ofBytes_replicate _ hlt, Nat.zero_add] at hbyte
    exact hbyte
  simp only [fsutilExtract, wp_bind]
  rw [wp_sectorBuffer hheap, wp_sectorBuffer (k := k.setFs (k.fs.spend 1)) hheap]
  simp only [wp_bind, Tools.setFs_fs, Tools.setFs_setFs, Fs.spend_spend, Nat.reduceAdd]
  rw [wp_scratchDevice (k := k.setFs (k.fs.spend 2)) hscr]
  refine wp_mono (extractLoop_spec files _ a archive _ _ _ ?_ harch hscr ?_ ?_ ?_
    (href.spend 2) ?_ hfiles hnodup) ?_
  · omega
  · simpa [hsec] using hmembers
  · simpa [hsec] using hzeros
  · simp only [Tools.setFs_extractSector, hsec, sectorSize]
    omega
  · exact hroom.congr rfl fun i _ j _ => rfl
  rintro header t ⟨hscr', hafter⟩
  have hdev : t.scratch = some block := hscr'.trans hscr
  rw [wp_scratchWrite hdev (by omega)]
  rw [wp_scratchWrite (k := t.setScratch _) rfl (by dsimp only; omega)]
  exact hafter

end Extract

/-! ## Appending files -/

section Append

variable {block : Block} {a : Model} {file src : Nat}

/-- The scratch device has the bytes from `sector` on.  Before them and behind the sector that
follows them it has what it had. -/
def Written (block : Block) (sector : Nat) (bytes : List Byte) (t : Tools) : Prop :=
  ∃ block', t.scratch = some block' ∧ block'.size = block.size ∧
    HoldsAt block'.data (sectorSize * sector) bytes ∧
    ∀ i, i < sectorSize * sector ∨ sectorSize * sector + bytes.length + sectorSize ≤ i →
      block'.data i = block.data i

lemma written_nil (hscr : k.scratch = some block) (sector : Nat) : Written block sector [] k :=
  ⟨block, hscr, rfl, fun i hi => absurd hi (Nat.not_lt_zero i), fun _ _ => rfl⟩

lemma Written.cons
    (h : Written { block with data := copy block.data (sectorSize * sector) buffer 0 sectorSize }
      (sector + 1) later t) (hnow : HoldsAt buffer 0 now) (hfull : now.length = sectorSize) :
    Written block sector (now ++ later) t := by
  obtain ⟨block', hscr, hsize, hholds, hkeep⟩ := h
  rw [Nat.mul_succ] at hholds hkeep
  refine ⟨block', hscr, hsize, holdsAt_append.mpr ⟨fun i hi => ?_, hfull ▸ hholds⟩, fun i hi => ?_⟩
  · rw [hkeep _ (.inl (by omega))]
    dsimp only
    rw [copy_inside _ _ _ (by omega) (by omega), Nat.add_sub_cancel_left, hnow i hi]
  · rw [length_append] at hi
    rw [hkeep i (by omega)]
    exact copy_outside _ _ _ (by omega)

lemma Written.append {first : List Byte} {u : Tools} {block' : Block}
    (h : Written block sector first t) (hscr : t.scratch = some block')
    (hsec : sectorSize * t.appendSector = sectorSize * sector + first.length)
    (hlater : Written block' t.appendSector later u) : Written block sector (first ++ later) u := by
  obtain ⟨_, hscr', hsize, hholds, hkeep⟩ := h
  obtain rfl := some.inj (hscr.symm.trans hscr')
  obtain ⟨last, hlast, hsize', hholds', hkeep'⟩ := hlater
  rw [hsec] at hholds' hkeep'
  refine ⟨last, hlast, hsize'.trans hsize, holdsAt_append.mpr
    ⟨hholds.congr fun i hi => hkeep' _ (by omega), hholds'⟩, fun i hi => ?_⟩
  rw [length_append] at hi
  rw [hkeep' i (by omega), hkeep i (by omega)]

lemma Written.write {later : Nat} (h : Written block sector bytes t)
    (hbehind : sectorSize * sector + bytes.length = sectorSize * later)
    (hlater : later < block.size) (buffer : Memory) (offset : Nat) (Q : Unit → Tools → Prop)
    (hQ : ∀ block', Written block sector bytes (t.setScratch block') →
      (∀ i < sectorSize, block'.data (sectorSize * later + i) = buffer (offset + i)) →
      Q () (t.setScratch block')) : wp (scratchWrite later buffer offset) Q t := by
  obtain ⟨block', hscr, hsize, hholds, hkeep⟩ := h
  rw [wp_scratchWrite hscr (hsize ▸ hlater)]
  refine hQ _ ⟨_, rfl, hsize, hholds.congr fun i hi => ?_, fun i hi => ?_⟩ fun i hi => ?_
  · exact copy_outside _ _ _ (Or.inl (by omega))
  · rw [← hkeep i hi]
    exact copy_outside _ _ _ (by omega)
  · dsimp only
    rw [copy_inside _ _ _ (by omega) (by omega), Nat.add_sub_cancel_left]

lemma appendData_spec (rounds : Nat) : ∀ (k : Tools) (block : Block) (done rest : List Byte)
    (buffer : Memory), rest.length ≤ rounds → k.scratch = some block →
    k.appendSector + Ustar.sectors rest.length ≤ block.size →
    Refines k.fs (a.setHandle src (some (file, (done.length : Int)))) →
    a.bytes file = done ++ rest → wp (appendData src rounds rest.length buffer)
      (fun last t => Written block k.appendSector (Ustar.padded rest) t ∧
        last sectorSize = buffer sectorSize ∧
        t.appendSector = k.appendSector + Ustar.sectors rest.length ∧
        Refines t.fs (a.setHandle src (some (file, ((done ++ rest).length : Int))))) k := by
  induction rounds with
  | zero =>
    intro k block done rest buffer hrounds hscr _ href _
    obtain rfl := length_eq_zero_iff.mp (Nat.le_zero.mp hrounds)
    exact ⟨written_nil hscr _, rfl, rfl, by simpa using href⟩
  | succ rounds ih =>
    intro k block done rest buffer hrounds hscr hsize href hbytes
    rw [appendData]
    split
    · next hpos =>
        obtain ⟨now, later, rfl, hnow, hnowPos, hnowLe, hlast, hsecs⟩ :=
          exists_chunk (Int.natCast_pos.mp hpos)
        rw [hsecs] at hsize ⊢
        have hin : k.appendSector < block.size := by omega
        have hchunk : (if ((now ++ later).length : Int) > sectorSize then (sectorSize : Int)
            else (now ++ later).length) = now.length := by
          rw [hnow]
          split <;> split <;> omega
        dsimp only
        rw [hchunk]
        simp only [wp_bind, wp_require, wp_get]
        rw [wp_scratchDevice hscr, wp_inFs]
        refine ⟨hin, ?_⟩
        have hcnt : now.length = Model.count ((a.setHandle src
            (some (file, (done.length : Int)))).bytes file) now.length done.length := by
          simp [Model.count, hbytes]
        refine wp_mono (fileRead_refines href (Model.setHandle_handles ..) buffer hcnt) ?_
        rintro _ s ⟨rfl, hs⟩
        refine ⟨rfl, ?_⟩
        rw [Model.setHandle_setHandle] at hs
        have hbuf : HoldsAt (fill (copy buffer 0 (Model.image (done ++ (now ++ later)))
            done.length now.length) now.length 0 (sectorSize - now.length)) 0
            (now ++ replicate (sectorSize - now.length) 0) := by
          refine holdsAt_append.mpr ⟨fun i hi => ?_, fun i hi => ?_⟩
          · rw [Nat.zero_add, fill, if_neg (by omega), copy_inside _ _ _ (Nat.zero_le _) (by omega),
              Nat.sub_zero]
            exact (ofBytes_append_right done (now ++ later) i).trans (ofBytes_append_left _ hi)
          · rw [length_replicate] at hi
            rw [fill, if_pos (by omega), ofBytes_replicate _ hi]
        rw [wp_nextAppendSector (k := k.setFs s) hin]
        simp only [Tools.setFs_appendSector, Model.setHandle_bytes, hbytes, Int.toNat_natCast]
        rw [wp_scratchWrite (k := (k.setFs s).setAppendSector (k.appendSector + 1)) hscr hin,
          length_append, Nat.cast_add, add_sub_cancel_left]
        refine wp_mono (ih _ _ (done ++ now) later _ ?_ rfl ?_ ?_ ?_) ?_
        · rw [length_append] at hrounds
          omega
        · exact (Nat.add_assoc _ _ _).trans_le hsize
        · simpa using hs
        · rw [hbytes, append_assoc]
        rintro last t ⟨hwr, htail, hsec, ht⟩
        rw [append_assoc] at ht
        rw [Ustar.padded_append hnowPos hnowLe hlast]
        refine ⟨hwr.cons hbuf ?_, htail.trans ?_, hsec.trans (Nat.add_assoc _ _ _), ht⟩
        · rw [length_append, length_replicate]
          simp only [sectorSize] at hnowLe ⊢
          omega
        · rw [fill, if_neg (by omega), copy_outside _ _ _ (by omega)]
    · next hzero =>
        obtain rfl := length_eq_zero_iff.mp (Nat.le_zero.mp (by omega : rest.length ≤ 0))
        exact ⟨written_nil hscr _, rfl, rfl, by simpa using href⟩

def Terminated (block : Block) (sector : Nat) : Prop :=
  ∀ i < 2 * sectorSize, block.data (sectorSize * sector + i) = 0

/-- What the two writes of the end leave: one sector, whose last byte is the one behind the
buffer. -/
def EndsWith (t : Tools) (tail : Byte) : Prop :=
  ∃ block, t.scratch = some block ∧ ∀ i < sectorSize,
    block.data (sectorSize * t.appendSector + i) = if i + 1 < sectorSize then 0 else tail

lemma EndsWith.terminated_iff {tail : Byte} {old last : Block} (h : EndsWith t tail)
    (hwr : Written old sector bytes t) (hscr : t.scratch = some last)
    (hsec : sectorSize * t.appendSector = sectorSize * sector + bytes.length) :
    Terminated last t.appendSector ↔ tail = 0 ∧
      ∀ i < sectorSize, old.data (sectorSize * (t.appendSector + 1) + i) = 0 := by
  obtain ⟨_, hscr', hbytes⟩ := h
  obtain ⟨_, hscratch'', -, -, hkeep⟩ := hwr
  obtain rfl := some.inj (hscr.symm.trans hscr')
  obtain rfl := some.inj (hscr.symm.trans hscratch'')
  have hbehind : ∀ i, last.data (sectorSize * t.appendSector + (sectorSize + i)) =
      old.data (sectorSize * (t.appendSector + 1) + i) := fun i => by
    rw [← Nat.add_assoc, ← Nat.mul_succ]
    exact hkeep _ (.inr (by rw [Nat.mul_succ]; omega))
  have hpos : 0 < sectorSize := by decide
  constructor
  · intro hmarked
    refine ⟨?_, fun i hi => ?_⟩
    · have hlast := hbytes (sectorSize - 1) (by omega)
      rw [hmarked _ (by omega), if_neg (by omega)] at hlast
      exact hlast.symm
    · rw [← hbehind, hmarked _ (by omega)]
  · rintro ⟨rfl, hzero⟩ i hi
    rcases Nat.lt_or_ge i sectorSize with hfirst | hsecond
    · rw [hbytes i hfirst, ite_self]
    obtain ⟨j, rfl⟩ := Nat.exists_eq_add_of_le hsecond
    rw [hbehind, hzero j (by omega)]

lemma appendFile_spec (buffer : Memory) (hscr : k.scratch = some block)
    (hsize : k.appendSector + 1 + Ustar.sectors contents.length < block.size)
    (href : Refines k.fs (a.setHandle src (some (file, 0)))) (hfresh : a.handles src = none)
    (hname : a.names name = some file) (hshort : name.strlen ≤ 99)
    (hbytes : a.bytes file = contents) (hlen : contents.length < 2 ^ 31) :
    wp (appendFile name src buffer)
      (fun _ t => ∃ member,
        Ustar.PaddedMember (Ustar.stripAntisocialPrefixes name) contents member ∧
        Written block k.appendSector member t ∧ EndsWith t (buffer sectorSize) ∧
        t.appendSector = k.appendSector + 1 + Ustar.sectors contents.length ∧
        Refines t.fs a) k := by
  have hin : k.appendSector < block.size := by omega
  have hstrip : (Ustar.stripAntisocialPrefixes name).strlen ≤ 99 :=
    (Ustar.strip_strlen_le name).trans (max_le hshort (by decide))
  obtain ⟨made, hmake, hmade⟩ := Ustar.ustarMakeHeader_eq hlen (.inl rfl) buffer
  obtain ⟨hhdr, hsealed, hkept⟩ := hmade hstrip
  simp only [appendFile, wp_bind, wp_require, wp_get]
  rw [wp_inFs]
  refine wp_mono (fileLength_refines href (Model.setHandle_handles ..)) ?_
  rintro _ _ ⟨rfl, rfl⟩
  rw [Model.setHandle_bytes, hbytes]
  change wp _ _ k
  rw [wp_scratchDevice hscr, wp_ofExcept hmake]
  refine ⟨decide_eq_true hstrip, ?_⟩
  rw [wp_nextAppendSector hin, wp_scratchWrite (k := k.setAppendSector (k.appendSector + 1))
    hscr hin, Int.toNat_natCast]
  refine wp_mono (appendData_spec contents.length _ _ [] contents _ le_rfl rfl hsize.le
    href hbytes) ?_
  rintro last t ⟨hdata, htail, hsec, ht⟩
  have hfields : (bytesAt made 0 sectorSize).length = Ustar.headerSize := bytesAt_length _ _ _
  have hsame : ∀ i < Ustar.headerSize, ofBytes (bytesAt made 0 sectorSize) i = made i := by
    intro i hi
    rw [← holdsAt_bytesAt made 0 sectorSize i (hfields ▸ hi), Nat.zero_add]
  have hall := hdata.cons (holdsAt_bytesAt made 0 sectorSize) hfields
  have hmember : Ustar.PaddedMember (Ustar.stripAntisocialPrefixes name) contents
      (bytesAt made 0 sectorSize ++ Ustar.padded contents) :=
    ⟨⟨_, _, hfields, length_replicate, hhdr.congr fun i hi _ => hsame i hi,
      hsealed.congr hsame, (append_assoc ..).symm⟩, _, hfields, rfl⟩
  have hplace : t.appendSector = k.appendSector + 1 + Ustar.sectors contents.length := hsec
  have hbehind : sectorSize * k.appendSector +
      (bytesAt made 0 sectorSize ++ Ustar.padded contents).length =
        sectorSize * t.appendSector := by
    rw [hmember.1.length, hplace, sectorSize]
    omega
  refine hall.write hbehind (hplace ▸ hsize) _ _ _ fun block₁ h₁ _ => ?_
  refine h₁.write hbehind (hplace ▸ hsize) _ _ _ fun block₂ h₂ hend => ?_
  rw [wp_inFs]
  refine wp_mono (fileClose_refines ht (Model.setHandle_handles ..) hname) ?_
  rintro _ s ⟨hs, -⟩
  rw [Model.setHandle_setHandle, Model.setHandle_none hfresh] at hs
  refine ⟨_, hmember, h₂, ⟨block₂, rfl, fun i hi => (hend i hi).trans ?_⟩, hplace, hs⟩
  rw [fill]
  split
  · rw [if_pos (by omega)]
  rw [if_neg (by omega), show 1 + i = sectorSize by omega]
  exact htail.trans (hkept _ le_rfl)

lemma fsutilAppend_spec (hscr : k.scratch = some block)
    (hsize : k.appendSector + 1 + Ustar.sectors contents.length < block.size)
    (href : Refines k.fs a) (hfile : HasFile k.fs name contents) (hshort : name.strlen ≤ 99)
    (hlen : contents.length < 2 ^ 31) : wp (fsutilAppend name)
      (fun _ t => ∃ member,
        Ustar.PaddedMember (Ustar.stripAntisocialPrefixes name) contents member ∧
        Written block k.appendSector member t ∧
        EndsWith t (k.fs.garbage k.fs.allocations sectorSize) ∧
        t.appendSector = k.appendSector + 1 + Ustar.sectors contents.length ∧
        Refines t.fs a) k := by
  obtain ⟨file, hname, hbytes⟩ := (href.hasFile_iff contents).mp hfile
  simp only [fsutilAppend, wp_bind]
  rw [wp_sectorBuffer href.heapOk]
  simp only [wp_bind]
  rw [wp_inFs]
  refine wp_mono (filesysOpen_refines (href.spend 1) hname) ?_
  rintro _ s ⟨src, rfl, hfresh, hs, -⟩
  exact appendFile_spec (k := (k.setFs (k.fs.spend 1)).setFs s) _ hscr hsize hs hfresh hname
    hshort hbytes hlen

def appendFiles : List CString → ToolAction Unit
  | [] => return ()
  | name :: names => do
    fsutilAppend name
    appendFiles names

lemma appendFiles_spec (files : List (CString × List Byte)) : ∀ (k : Tools) (block : Block),
    k.scratch = some block →
    k.appendSector + (files.map fun file => 1 + Ustar.sectors file.2.length).sum < block.size →
    Refines k.fs a → (∀ file ∈ files, HasFile k.fs file.1 file.2 ∧ file.1.strlen ≤ 99 ∧
      file.2.length < 2 ^ 31) → wp (appendFiles (files.map Prod.fst))
      (fun _ t => ∃ archive, Ustar.PaddedArchive (files.map stripped) archive ∧
        Written block k.appendSector archive t ∧
        sectorSize * t.appendSector = sectorSize * k.appendSector + archive.length ∧
        Refines t.fs a) k := by
  induction files with
  | nil =>
    intro k block hscr _ href _
    exact ⟨[], rfl, written_nil hscr _, rfl, href⟩
  | cons file files ih =>
    intro k block hscr hsize href hfiles
    obtain ⟨⟨hfile, hshort, hlen⟩, hothers⟩ := forall_mem_cons.mp hfiles
    rw [map_cons, List.sum_cons] at hsize
    simp only [map_cons, appendFiles, wp_bind]
    refine wp_mono (fsutilAppend_spec hscr (by omega) href hfile hshort hlen) ?_
    rintro _ t ⟨member, hmember, hwr, -, hsec, ht⟩
    have hplace : sectorSize * t.appendSector = sectorSize * k.appendSector + member.length := by
      rw [hmember.1.length, hsec, sectorSize]
      omega
    obtain ⟨block', hscr', hblock, -⟩ := id hwr
    refine wp_mono (ih t block' hscr' (by omega) ht fun other hmem => ?_) ?_
    · obtain ⟨hhas, hrest⟩ := hothers other hmem
      exact ⟨(ht.hasFile_iff _).mpr ((href.hasFile_iff _).mp hhas), hrest⟩
    rintro _ u ⟨archive, harch, hlater, hend, hu⟩
    refine ⟨member ++ archive, ⟨member, archive, hmember, harch, rfl⟩,
      hwr.append hscr' hplace hlater, ?_, hu⟩
    rw [hend, hplace, length_append, Nat.add_assoc]

/-- A header and the data of each member. -/
def archiveSectors (files : List (CString × List Byte)) : Nat :=
  (files.map fun file => 1 + Ustar.sectors file.2.length).sum

/-- After every call the device has the archive, but its end only if the byte behind the buffer and
the sector behind the first one of the end happen to be null. -/
theorem append_terminated_iff {files : List (CString × List Byte)} {last : CString × List Byte}
    {k : Tools} (hscratch : k.scratch = some block) (hsector : k.appendSector = 0)
    (hsize : archiveSectors (files ++ [last]) + 2 ≤ block.size)
    (hrefines : Refines k.fs a) (hfiles : ∀ file ∈ files ++ [last], HasFile k.fs file.1 file.2 ∧
      file.1.strlen ≤ 99 ∧ file.2.length < 2 ^ 31) : wp (appendFiles (files.map Prod.fst))
      (fun _ s => wp (fsutilAppend last.1)
        (fun _ t => ∃ archive member block', Ustar.PaddedArchive (files.map stripped) archive ∧
          Ustar.PaddedMember (stripped last).1 last.2 member ∧ t.scratch = some block' ∧
          HoldsAt block'.data 0 (archive ++ member) ∧
          (archive ++ member).length = sectorSize * t.appendSector ∧
          t.appendSector = archiveSectors (files ++ [last]) ∧ t.appendSector + 2 ≤ block'.size ∧
          (Terminated block' t.appendSector ↔ s.fs.garbage s.fs.allocations sectorSize = 0 ∧
            ∀ i < sectorSize,
              block.data (sectorSize * (archiveSectors (files ++ [last]) + 1) + i) = 0)) s) k := by
  have htotal : archiveSectors (files ++ [last]) =
      archiveSectors files + (1 + Ustar.sectors last.2.length) := by
    simp [archiveSectors]
  rw [htotal] at hsize ⊢
  rw [archiveSectors] at hsize ⊢
  refine wp_mono (appendFiles_spec files k block hscratch (by omega) hrefines fun file hfile =>
    hfiles file (mem_append_left _ hfile)) ?_
  rintro _ s ⟨archive, harchive, hwritten, hplace, hs⟩
  obtain ⟨hlast, hshort, hlength⟩ := hfiles last (by simp)
  obtain ⟨block', hscratch', hblock, -⟩ := id hwritten
  have harchiveLength := harchive.archive.length
  rw [map_map] at harchiveLength
  have hsum : s.appendSector = (files.map fun file => 1 + Ustar.sectors file.2.length).sum := by
    rw [hsector, Nat.mul_zero, Nat.zero_add, harchiveLength] at hplace
    exact Nat.eq_of_mul_eq_mul_left (by decide) hplace
  have hhas := (hs.hasFile_iff _).mpr ((hrefines.hasFile_iff _).mp hlast)
  refine wp_mono (fsutilAppend_spec hscratch' (by omega) hs hhas hshort hlength) ?_
  rintro _ t ⟨member, hmember, hlater, hend, hnext, -⟩
  have hall := hwritten.append hscratch' hplace hlater
  have hat : sectorSize * t.appendSector =
      sectorSize * k.appendSector + (archive ++ member).length := by
    rw [hnext, length_append, ← Nat.add_assoc, ← hplace, hmember.1.length, sectorSize]
    omega
  obtain ⟨block'', hscratch'', hblock', hholds, -⟩ := id hall
  rw [hsector, Nat.mul_zero] at hholds
  rw [hsum, Nat.add_assoc] at hnext
  refine ⟨archive, member, block'', harchive, hmember, hscratch'', hholds, ?_, hnext, by omega, ?_⟩
  · rw [hat, hsector, Nat.mul_zero, Nat.zero_add]
  · rw [← hnext]
    exact hend.terminated_iff hall hscratch'' hat

end Append

/-! ## Between host and kernel -/

structure Portable (files : List (CString × List Byte)) : Prop where
  nodup : (files.map Prod.fst).Nodup
  valid : ∀ file ∈ files, ValidName file.1
  social : ∀ file ∈ files, Ustar.antisocial file.1.bytes = false
  size : ∀ file ∈ files, file.2.length < 2 ^ 31

section Portable

variable {files : List (CString × List Byte)} {s : Fs} {a : Model}

lemma Portable.short (h : Portable files) : ∀ file ∈ files, file.1.strlen ≤ 99 := fun file hfile =>
  (h.valid file hfile).2.trans (by decide)

lemma Portable.putScratchFiles (h : Portable files) : ∃ archive, Ustar.Archive files archive ∧
      Utils.putScratchFiles files = .ok (archive ++ Utils.nulls 1024) :=
  Utils.putScratchFiles_eq fun file hfile => ⟨h.short file hfile, h.size file hfile⟩

lemma stripped_eq (h : Portable files) {file : CString × List Byte} (hfile : file ∈ files)
    (hpar : file.1.bytes ≠ [46, 46]) : stripped file = file := by
  have hnonempty : file.1.bytes ≠ [] := List.ne_nil_of_length_pos (h.valid file hfile).1
  rw [stripped, Ustar.strip_of_social ⟨h.social file hfile, hnonempty, hpar⟩]

lemma Refines.unbound_of_noFile (h : Refines s a) (hnone : ∀ bytes, ¬ HasFile s name bytes) :
    a.names name = none := by
  cases hname : a.names name with
  | none => rfl
  | some file => exact absurd ((h.hasFile_iff _).mpr ⟨file, hname, rfl⟩) (hnone (a.bytes file))

end Portable

/-- Files that the host puts on the scratch device are extracted as they are unless one is named
`..`, and files that the kernel appends are what the host gets. -/
theorem archive_roundTrip {files : List (CString × List Byte)} (hfiles : Portable files) :
    ((∀ file ∈ files, file.1.bytes ≠ [46, 46]) →
      ∃ stream, Utils.putScratchFiles files = .ok stream ∧
        ∀ (k : Tools) (block : Block) (a : Model), k.scratch = some block → k.extractSector = 0 →
          HoldsAt block.data 0 stream → stream.length ≤ sectorSize * block.size →
          Refines k.fs a → Room k.fs (files.map fun file => file.2.length) →
          (∀ file ∈ files, ∀ bytes, ¬ HasFile k.fs file.1 bytes) →
          wp fsutilExtract (fun _ t => (∃ b, Refines t.fs b) ∧ ∀ name bytes,
            HasFile t.fs name bytes ↔ HasFile k.fs name bytes ∨ (name, bytes) ∈ files) k) ∧
    ∀ (k : Tools) (block : Block) (a : Model), k.scratch = some block → k.appendSector = 0 →
      (files.map fun file => 1 + Ustar.sectors file.2.length).sum < block.size →
      Refines k.fs a → (∀ file ∈ files, HasFile k.fs file.1 file.2) →
      wp (appendFiles (files.map Prod.fst)) (fun _ t => ∃ block', t.scratch = some block' ∧
        Utils.getScratchFiles files.length (bytesAt block'.data 0 (sectorSize * block'.size)) =
          .ok (files.map Prod.snd)) k := by
  constructor
  · intro hparent
    obtain ⟨archive, harchive, hput⟩ := hfiles.putScratchFiles
    have hsame : ∀ file ∈ files, stripped file = file := fun file hfile =>
      stripped_eq hfiles hfile (hparent file hfile)
    refine ⟨_, hput, fun k block a hscratch hsector hholds hsize hrefines hroom hfree => ?_⟩
    rw [length_append, Utils.nulls, length_replicate] at hsize
    have hspec := fsutilExtract_spec harchive hscratch hsector hholds hsize hrefines hroom ?_ ?_
    · rwa [map_congr_left hsame, List.map_id'] at hspec
    · intro file hfile
      refine ⟨hfiles.short file hfile, ?_, ?_, hfiles.size file hfile⟩
      · rw [hsame file hfile]
        exact hfiles.valid file hfile
      · rw [hsame file hfile]
        exact hrefines.unbound_of_noFile (hfree file hfile)
    · rw [map_congr_left fun file hfile => congrArg Prod.fst (hsame file hfile)]
      exact hfiles.nodup
  · intro k block a hscratch hsector hsize hrefines hhas
    refine wp_mono (appendFiles_spec files k block hscratch (by omega) hrefines
      fun file hfile => ⟨hhas file hfile, hfiles.short file hfile, hfiles.size file hfile⟩) ?_
    rintro _ t ⟨archive, hpadded, ⟨block', hscratch', hblock, hholds, -⟩, -⟩
    have harchive := hpadded.archive
    have hlength := harchive.length
    rw [map_map] at hlength
    rw [hsector, Nat.mul_zero] at hholds
    have hroom : archive.length ≤ sectorSize * block'.size := by
      rw [hlength, hblock]
      exact Nat.mul_le_mul_left 512 hsize.le
    obtain ⟨rest, hrest⟩ := hholds.bytesAt_eq hroom
    have hget := Utils.getScratchFiles_eq harchive rest
    rw [length_map, map_map] at hget
    exact ⟨block', hscratch', hrest ▸ hget⟩

/-! A device of ten sectors, and a scratch device of eight. -/

lemma letter_nonzero : ∀ c ∈ ([97] : List Byte), c ≠ 0 := by simp

def letters : List (CString × List Byte) :=
  [(⟨[97], letter_nonzero⟩, [1, 2, 3]), (⟨[98], by simp⟩, [])]

lemma letters_portable : Portable letters where
  nodup := by decide
  valid := by simp [letters, ValidName, CString.strlen, nameMax]
  social := by decide
  size := by decide

structure New (s : Fs) (sizes : List Nat) : Prop where
  refines : Refines s .empty
  room : Room s sizes
  noFile : ∀ name bytes, ¬ HasFile s name bytes

lemma new_of_room {size : Nat} (sizes : List Nat)
    (h : wp (filesysInit true) (fun _ s => RoomFor s sizes)
      (.unstarted size (fun _ => 0) (fun _ => true) fun _ _ => 0)) :
    wp (filesysInit true) (fun _ s => New s sizes)
      (.unstarted size (fun _ => 0) (fun _ => true) fun _ _ => 0) := by
  refine wp_mono (wp_of_outcome h (filesysInit_outcome size _ _ _)) ?_
  rintro _ s ⟨hroom, hstarted, -, hheap⟩
  have href := hstarted.refines fun n => by rw [hheap]
  refine ⟨href, hroom.room, fun name bytes hfile => ?_⟩
  obtain ⟨file, hname, -⟩ := (href.hasFile_iff bytes).mp hfile
  contradiction

section SmallDevice

attribute [local irreducible] wp

theorem archive_roundTrip_letters : ∃ stream, Utils.putScratchFiles letters = .ok stream ∧
      wp (filesysInit true) (fun _ s => wp fsutilExtract
          (fun _ t => (∀ name bytes, HasFile t.fs name bytes ↔
              HasFile s name bytes ∨ (name, bytes) ∈ letters) ∧
            wp (appendFiles (letters.map Prod.fst))
              (fun _ u => ∃ block, u.scratch = some block ∧ Utils.getScratchFiles 2
                (bytesAt block.data 0 (sectorSize * block.size)) = .ok [[1, 2, 3], []])
              ⟨t.fs, some ⟨8, by decide, fun _ => 0⟩, 0, 0⟩)
          ⟨s, some ⟨8, by decide, ofBytes stream⟩, 0, 0⟩)
        (.unstarted 10 (fun _ => 0) (fun _ => true) fun _ _ => 0) := by
  obtain ⟨hput, hget⟩ := archive_roundTrip letters_portable
  obtain ⟨stream, hstream, hextract⟩ := hput (by decide)
  have hlength : stream.length ≤ sectorSize * 8 := by
    obtain ⟨archive, harchive, hput⟩ := letters_portable.putScratchFiles
    obtain rfl : stream = archive ++ Utils.nulls 1024 := Except.ok.inj (hstream.symm.trans hput)
    rw [length_append, harchive.length, Utils.nulls, length_replicate]
    decide
  refine ⟨stream, hstream, wp_mono (new_of_room [3, 0] (by decide +kernel)) ?_⟩
  intro _ s hnew
  refine wp_mono (hextract ⟨s, some ⟨8, by decide, ofBytes stream⟩, 0, 0⟩ _ .empty rfl rfl
    (fun i _ => by rw [Nat.zero_add]) hlength hnew.refines hnew.room
    fun file _ => hnew.noFile file.1) ?_
  rintro _ t ⟨⟨b, hb⟩, hhas⟩
  refine ⟨hhas, ?_⟩
  exact hget ⟨t.fs, some ⟨8, by decide, fun _ => 0⟩, 0, 0⟩ _ b rfl rfl (by decide) hb
    fun file hfile => (hhas file.1 file.2).mpr (.inr hfile)

def parent : CString := ⟨[46, 46], by simp⟩

/-- The name `..` has none of the prefixes, but the kernel makes it `.`. -/
theorem extract_parent :
    Portable [(parent, [1])] ∧ ∃ stream, Utils.putScratchFiles [(parent, [1])] = .ok stream ∧
      wp (filesysInit true) (fun _ s => New s [1] ∧ stream.length ≤ sectorSize * 4 ∧
          wp fsutilExtract (fun _ t => HasFile t.fs Ustar.dot [1] ∧ ¬ HasFile t.fs parent [1])
            ⟨s, some ⟨4, by decide, ofBytes stream⟩, 0, 0⟩)
        (.unstarted 10 (fun _ => 0) (fun _ => true) fun _ _ => 0) := by
  have hportable : Portable [(parent, [1])] := by
    refine ⟨by decide, ?_, by decide, by decide⟩
    simp [parent, ValidName, CString.strlen, nameMax]
  obtain ⟨archive, harchive, hput⟩ := hportable.putScratchFiles
  have hlength : (archive ++ Utils.nulls 1024).length ≤ sectorSize * 4 := by
    rw [length_append, harchive.length, Utils.nulls, length_replicate]
    decide
  refine ⟨hportable, _, hput, wp_mono (new_of_room [1] (by decide +kernel)) ?_⟩
  intro _ s hnew
  have hdot : stripped (parent, [1]) = (Ustar.dot, [1]) := by decide
  have hstorable : Storable .empty (parent, [1]) := ⟨by decide, by
    rw [hdot]
    simp [Ustar.dot, ValidName, CString.strlen, nameMax], rfl, by decide⟩
  refine ⟨hnew, hlength, wp_mono (fsutilExtract_spec
    (k := ⟨s, some ⟨4, by decide, ofBytes (archive ++ Utils.nulls 1024)⟩, 0, 0⟩) harchive rfl rfl
    (fun i _ => by rw [Nat.zero_add]) ?_ hnew.refines hnew.room ?_ (List.nodup_singleton _)) ?_⟩
  · rw [length_append, Utils.nulls, length_replicate] at hlength
    exact hlength
  · intro file hfile
    obtain rfl := mem_singleton.mp hfile
    exact hstorable
  rintro _ t ⟨-, hhas⟩
  rw [List.map_singleton, hdot] at hhas
  refine ⟨(hhas _ _).mpr (.inr (mem_singleton_self _)), fun hparent => ?_⟩
  rcases (hhas _ _).mp hparent with hold | hnew'
  · exact hnew.noFile _ _ hold
  · exact absurd (congrArg Prod.fst (mem_singleton.mp hnew')) (by decide)

/-! A file of three null bytes, appended to a device full of sevens. -/

def letter : CString := ⟨[97], letter_nonzero⟩

theorem append_terminated_iff_letter : wp (filesysInit true)
      (fun _ s => wp (filesysCreate (some letter) (3 : Nat)) (fun _ t => wp (fsutilAppend letter)
          (fun _ u => ∃ block, u.scratch = some block ∧ ¬ Terminated block u.appendSector)
          ⟨t, some ⟨8, by decide, fun _ => 7⟩, 0, 0⟩) s)
      (.unstarted 10 (fun _ => 0) (fun _ => true) fun _ _ => 0) := by
  refine wp_mono (new_of_room [3] (by decide +kernel)) ?_
  intro _ s hnew
  have hvalid : ValidName letter := by simp [letter, ValidName, CString.strlen, nameMax]
  refine wp_mono (filesysCreate_refines hnew.refines hvalid rfl (by decide) hnew.room) ?_
  rintro _ t ⟨-, ht, -⟩
  have hfile : HasFile t letter (replicate 3 0) :=
    (ht.hasFile_iff _).mpr ⟨Model.empty.next, by simp [Model.store], by simp [Model.store]⟩
  have happend := @append_terminated_iff _ _ [] (letter, replicate 3 0)
    ⟨t, some ⟨8, by decide, fun _ => 7⟩, 0, 0⟩ rfl rfl (by decide) ht fun file hmem => by
      obtain rfl := mem_singleton.mp hmem
      exact ⟨hfile, by decide, by decide⟩
  rw [map_nil, appendFiles, wp_pure] at happend
  refine wp_mono happend ?_
  rintro _ u ⟨_, _, block, -, -, hscratch, -, -, -, -, hiff⟩
  refine ⟨block, hscratch, fun hend => ?_⟩
  have hseven : (7 : Byte) = 0 := (hiff.mp hend).2 0 (by decide)
  exact absurd hseven (by decide)

def createAndAppend : ToolAction Unit := do
  inFs (filesysInit true)
  let _ ← inFs (filesysCreate (some letter) 3)
  fsutilAppend letter

theorem append_unterminated : wp createAndAppend
    (fun _ t => t.appendSector = 2 ∧
      t.scratch.map (fun block => block.data (sectorSize * 3)) = some 7)
    ⟨.unstarted 10 (fun _ => 0) (fun _ => true) fun _ _ => 0,
      some ⟨8, by decide, fun _ => 7⟩, 0, 0⟩ := by
  decide +kernel

end SmallDevice

end Pintos.Filesys
