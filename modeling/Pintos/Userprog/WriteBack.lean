import Pintos.Filesys.Overwrite
import Pintos.Userprog.Munmap

/-!
# Writing a mapping back

What `mmfiles_free_entry` does to the mapped file.  Each loaded page with its dirty
bit set is written to its place in the file; the number of bytes that
`file_write` reports is not looked at.
-/

namespace Pintos.Userprog

open Foundation Filesys Vm

variable {cnt i n page x : Nat} {mapping : Mapping} {data : InodeDisk} {fs : Fs}

def modified (process : Process) (pd : PageTable) (page : Nat) : Option Mapping :=
  match process.supplPageTable page, pd.lookup page with
  | some spe, some mapping => if spe.loaded && mapping.dirty then some mapping else none
  | _, _ => none

def expectedByte (k : Kernel) (process : Process) (pd : PageTable) (mmf : Mmfile)
    (data : InodeDisk) (x : Nat) : Byte :=
  match modified process pd (pgNo mmf.startAddr + x / pgSize) with
  | some mapping => k.memory mapping.frame (x % pgSize)
  | none => k.fs.disk (dataAddress data x)

/-- The current process has mapped the file at `header`, as `mmap` does it, and writes to the file
are not denied. -/
structure MappedFile (k : Kernel) (process : Process) (pd : PageTable) (mmf : Mmfile)
    (header : Nat) : Prop where
  current : findAt Process.tid k.allList k.current = some process
  pagedir : process.pagedir = some pd
  fs : DenySound k.fs
  handle : ∃ pos, ClientHandle k.fs mmf.file header pos
  writable : ∀ inode ∈ k.fs.openInodes, inode.sector = header → inode.denyWriteCnt = 0
  aligned : pgOfs mmf.startAddr = 0
  user : mmf.startAddr + mmf.pgCnt * pgSize ≤ physBase
  length : pageCount (headerAt k.fs.disk header).length = mmf.pgCnt
  entries : ∀ i < mmf.pgCnt, ∃ spe, process.supplPageTable (pgNo mmf.startAddr + i) = some spe ∧
    spe.file = mmf.file ∧ spe.offset = (i * pgSize : Nat) ∧
    spe.readBytes = min pgSize ((headerAt k.fs.disk header).length.toNat - i * pgSize)

structure WrittenBack (k t : Kernel) (process : Process) (pd : PageTable) (mmf : Mmfile)
    (header : Nat) : Prop where
  bytes : ∀ x : Nat, x < (headerAt k.fs.disk header).length →
    t.fs.disk (dataAddress (headerAt k.fs.disk header) x) =
      expectedByte k process pd mmf (headerAt k.fs.disk header) x
  length : headerAt t.fs.disk header = headerAt k.fs.disk header
  others : ∀ a, ¬ (dataAddress (headerAt k.fs.disk header) 0 ≤ a ∧
      a < dataAddress (headerAt k.fs.disk header) (headerAt k.fs.disk header).length) →
    ¬ InExtent (headerAt k.fs.disk freeMapSector) (a / sectorSize) → t.fs.disk a = k.fs.disk a

/-- There is memory for a bounce buffer, or the last, incomplete sector of the file is as it would
be written. -/
def LastSectorSafe (k : Kernel) (process : Process) (pd : PageTable) (mmf : Mmfile)
    (data : InodeDisk) : Prop :=
  k.fs.heapOk k.fs.allocations = true ∨
    ∀ x : Nat, data.length.toNat - data.length.toNat % 512 ≤ x → x < data.length →
      expectedByte k process pd mmf data x = k.fs.disk (dataAddress data x)

section

variable {k u : Kernel} {process : Process} {pd : PageTable} {mmf : Mmfile} {header : Nat}

/-! ## One page -/

lemma withoutEntries_succ (table : Nat → Option SupPageEntry) (page cnt : Nat) : update
    (withoutEntries table page cnt) (page + cnt) none = withoutEntries table page (cnt + 1) := by
  funext q
  by_cases hq : q = page + cnt
  · rw [hq, update_self, withoutEntries, if_pos (by omega)]
  rw [update_of_ne hq, withoutEntries, withoutEntries]
  exact if_congr (by omega) rfl rfl

section

variable (hcur : findAt Process.tid k.allList k.current = some process)
  (hpd : process.pagedir = some pd)

include hcur hpd

lemma wp_pagedirIsDirty (uaddr : Nat) (Q : Bool → Kernel → Prop) :
    wp (pagedirIsDirty uaddr) Q k ↔ Q ((pd.lookup (pgNo uaddr)).any (·.dirty)) k := by
  rw [pagedirIsDirty, wp_bind, wp_threadCurrent hcur]
  simp [hpd, requirePagedir]

lemma wp_userPage (hmapping : pd.lookup page = some mapping)
    (Q : Memory → Kernel → Prop) : wp (userPage page) Q k ↔ Q (k.memory mapping.frame) k := by
  rw [userPage, wp_bind, wp_threadCurrent hcur]
  simp [hpd, hmapping]

lemma wp_freeEntry_modified {uaddr : Nat} {spe : SupPageEntry}
    (hspe : process.supplPageTable (pgNo uaddr) = some spe) (Q : Unit → Kernel → Prop) :
    wp (freeEntry uaddr) Q k ↔
      match modified process pd (pgNo uaddr) with
      | none => Q () (k.updateProcess k.current (·.setSpe (pgNo uaddr) none))
      | some _ => wp (writeBack (pgNo uaddr) spe) Q
          (k.updateProcess k.current (·.setSpe (pgNo uaddr) none)) := by
  have hcur' := current_updateProcess hcur (f := (·.setSpe (pgNo uaddr) none)) fun _ => rfl
  rw [freeEntry, wp_bind, wp_getSpe hcur, modified, hspe]
  simp only [setSpe, updateCurrent, wp_bind, wp_modify]
  cases hloaded : spe.loaded with
  | false => cases pd.lookup (pgNo uaddr) <;> simp [hloaded]
  | true =>
    simp only [if_true, wp_bind]
    rw [wp_pagedirIsDirty hcur' hpd]
    cases pd.lookup (pgNo uaddr) with
    | none => simp
    | some mapping => cases hdirty : mapping.dirty <;> simp [hloaded, hdirty]

end

lemma lookup_of_modified
    (h : modified process pd page = some mapping) : pd.lookup page = some mapping := by
  rw [modified] at h
  split at h
  · split_ifs at h
    rwa [← some.inj h]
  · contradiction

/-! ## The loop -/

def freed (process : Process) (page cnt : Nat) : Process :=
  { process with supplPageTable := withoutEntries process.supplPageTable page cnt }

lemma freed_setSpe (process : Process) (page cnt : Nat) :
    (freed process page cnt).setSpe (page + cnt) none = freed process page (cnt + 1) := by
  simp only [freed, Process.setSpe, withoutEntries_succ]

/-- How many bytes of a file of `size` bytes can be written: without memory, only whole sectors. -/
def safeLength (fs : Fs) (size : Nat) : Nat :=
  if fs.heapOk fs.allocations then size else size - size % 512

/-- The state after `i` rounds: the first `n` bytes of the file are as they should be.  Only the
last page can need memory. -/
structure Writing (k : Kernel) (process : Process) (pd : PageTable) (mmf : Mmfile) (header : Nat)
    (i n cnt : Nat) (u : Kernel) : Prop where
  current : findAt Process.tid u.allList u.current = some (freed process (pgNo mmf.startAddr) i)
  memory : u.memory = k.memory
  fs : ∃ pos, 0 ≤ pos ∧ u.fs = k.fs.overwritten cnt
    (copy k.fs.disk (dataAddress (headerAt k.fs.disk header) 0)
      (expectedByte k process pd mmf (headerAt k.fs.disk header)) 0 n) mmf.file pos
  whole : i < mmf.pgCnt → n = i * pgSize ∧ cnt = 0
  last : i = mmf.pgCnt → n = safeLength k.fs (headerAt k.fs.disk header).length.toNat

namespace MappedFile

variable (h : MappedFile k process pd mmf header)

include h

lemma live : Live k.fs.undenied header := by
  obtain ⟨pos, hc⟩ := h.handle
  obtain ⟨-, inode, -, hi, -, -, hsec, -⟩ := h.fs.handle hc
  exact (live_undenied k.fs header).mpr (hsec ▸ live_open hi)

lemma fits : Fits k.fs.size (headerAt k.fs.disk header) := h.fs.sound.device.fits h.live

lemma inode : ∃ file inode, findAt File.addr k.fs.files mmf.file = some file ∧
      findAt Inode.addr k.fs.openInodes file.inode = some inode ∧ inode.denyWriteCnt = 0 ∧
      inode.data = headerAt k.fs.disk header ∧ 0 ≤ file.pos := by
  obtain ⟨pos, hc⟩ := h.handle
  obtain ⟨file, inode, hf, hi, -, -, hsec, -, hfile, hinode⟩ := h.fs.handle hc
  have hcached := (h.fs.sound.inodes inode.undenied (mem_map_of_mem hi)).cached
  rw [Inode.undenied_sector, hsec] at hcached
  have hpos := (h.fs.sound.tables.handles file.undenied (mem_map_of_mem hf)).1
  exact ⟨file, inode, hfile, hinode, h.writable inode hi hsec, hcached, hpos⟩

lemma writing : Writing k process pd mmf header 0 0 0 k := by
  obtain ⟨file, -, hfile, -, -, -, hpos⟩ := h.inode
  have hlen := h.length
  have hnonneg := h.fits.length_nonneg
  refine ⟨?_, rfl, ⟨file.pos, hpos, ?_⟩, fun _ => ⟨(Nat.zero_mul _).symm, rfl⟩, fun hzero => ?_⟩
  · have hsame : withoutEntries process.supplPageTable (pgNo mmf.startAddr) 0 =
        process.supplPageTable := by
      funext q
      exact if_neg (by omega)
    rw [freed, hsame]
    exact h.current
  · rw [copy_zero, Fs.overwritten_self h.fs.files_nodup hfile]
  have hempty : (headerAt k.fs.disk header).length.toNat = 0 := by
    simp only [pageCount, pgSize] at hlen
    omega
  rw [hempty, safeLength]
  simp

end MappedFile

lemma expectedByte_page (k : Kernel) (process : Process) (pd : PageTable) (mmf : Mmfile)
    (data : InodeDisk) (i : Nat) {j : Nat} (hj : j < pgSize) :
    expectedByte k process pd mmf data (i * pgSize + j) =
      match modified process pd (pgNo mmf.startAddr + i) with
      | some mapping => k.memory mapping.frame j
      | none => k.fs.disk (dataAddress data (i * pgSize + j : Nat)) := by
  have hpage : (i * pgSize + j) / pgSize = i := by
    rw [Nat.mul_comm, Nat.mul_add_div (by simp [pgSize]), Nat.div_eq_of_lt hj, Nat.add_zero]
  have hofs : (i * pgSize + j) % pgSize = j := by
    rw [Nat.mul_comm, Nat.mul_add_mod, Nat.mod_eq_of_lt hj]
  rw [expectedByte, hpage, hofs]

lemma dataAddress_zero_add (data : InodeDisk) (x : Nat) :
    dataAddress data 0 + x = dataAddress data (x : Nat) := by
  simp [dataAddress]

lemma copy_modified
    (hn : n ≤ pgSize) (hmodified : modified process pd (pgNo mmf.startAddr + i) = some mapping) :
    copy (copy k.fs.disk (dataAddress data 0) (expectedByte k process pd mmf data) 0 (i * pgSize))
    (dataAddress data (i * pgSize : Nat)) (k.memory mapping.frame) 0 n = copy k.fs.disk
    (dataAddress data 0) (expectedByte k process pd mmf data) 0 (i * pgSize + n) := by
  rw [← copy_append, dataAddress_zero_add]
  refine copy_congr fun j hj => ?_
  rw [Nat.zero_add, Nat.zero_add, expectedByte_page k process pd mmf data i (by omega), hmodified]

lemma copy_unmodified (hn : n ≤ pgSize)
    (hmodified : modified process pd (pgNo mmf.startAddr + i) = none) : copy k.fs.disk
    (dataAddress data 0) (expectedByte k process pd mmf data) 0 (i * pgSize) = copy k.fs.disk
    (dataAddress data 0) (expectedByte k process pd mmf data) 0 (i * pgSize + n) := by
  rw [← copy_append]
  refine (copy_same fun j hj => ?_).symm
  rw [Nat.zero_add, expectedByte_page k process pd mmf data i (by omega), hmodified,
    copy_outside _ _ _ (by omega), Nat.add_assoc, dataAddress_zero_add]

lemma progress_of_alignedWrite {len : Int} {pgCnt : Nat} (hlen : 0 ≤ len)
    (hcnt : pageCount len = pgCnt)
    (hn : AlignedWrite fs (min pgSize (len.toNat - i * pgSize)) n cnt) :
    (i + 1 < pgCnt → i * pgSize + n = (i + 1) * pgSize ∧ cnt = 0) ∧
      (i + 1 = pgCnt → i * pgSize + n = safeLength fs len.toNat) := by
  obtain ⟨hbytes, hmem⟩ := hn
  simp only [pageCount, pgSize, safeLength] at *
  refine ⟨fun hmore => ?_, fun hlast => ?_⟩
  · have hsize : min 4096 (len.toNat - i * 4096) = 4096 := by omega
    rw [hsize] at hbytes hmem
    refine ⟨?_, hmem (by norm_num)⟩
    split at hbytes <;> omega
  · have hsize : min 4096 (len.toNat - i * 4096) = len.toNat - i * 4096 := by omega
    rw [hsize] at hbytes
    rw [hbytes]
    split <;> omega

lemma MappedFile.step (h : MappedFile k process pd mmf header) (hi : i < mmf.pgCnt)
    (hu : Writing k process pd mmf header i n cnt u) : wp (freeEntry (mmf.startAddr + i * pgSize))
    (fun _ t => ∃ n cnt, Writing k process pd mmf header (i + 1) n cnt t) u := by
  obtain ⟨rfl, rfl⟩ := hu.whole hi
  obtain ⟨spe, hspe, hsfile, hoffset, hread⟩ := h.entries i hi
  obtain ⟨file, inode, hfile, hinode, hdeny, hdata, -⟩ := h.inode
  have hfit := h.fits
  obtain ⟨pos, hpos, hfs⟩ := hu.fs
  have halign := h.aligned
  have hpage : pgNo (mmf.startAddr + i * pgSize) = pgNo mmf.startAddr + i := by
    simp only [pgNo, pgOfs, pgSize] at halign ⊢
    omega
  have hspe' : (freed process (pgNo mmf.startAddr) i).supplPageTable
      (pgNo (mmf.startAddr + i * pgSize)) = some spe := by
    rw [hpage, ← hspe]
    exact if_neg (by omega)
  have hsame : modified (freed process (pgNo mmf.startAddr) i) pd
      (pgNo (mmf.startAddr + i * pgSize)) = modified process pd (pgNo mmf.startAddr + i) := by
    rw [modified, hspe', modified, hspe, hpage]
  have hcur := current_updateProcess hu.current
    (f := (·.setSpe (pgNo mmf.startAddr + i) none)) fun _ => rfl
  rw [freed_setSpe] at hcur
  rw [wp_freeEntry_modified hu.current h.pagedir hspe', hsame, hpage]
  cases hmodified : modified process pd (pgNo mmf.startAddr + i) with
  | none =>
    -- nothing is written, which is as good as what a modified page would get
    have hn : AlignedWrite k.fs (min pgSize ((headerAt k.fs.disk header).length.toNat - i * pgSize))
        _ 0 := ⟨rfl, fun _ => rfl⟩
    have hprogress := progress_of_alignedWrite hfit.length_nonneg h.length hn
    refine ⟨_, 0, hcur, hu.memory, ⟨pos, hpos, ?_⟩, hprogress.1, hprogress.2⟩
    rw [← copy_unmodified (hn.le.trans (Nat.min_le_left _ _)) hmodified]
    exact hfs
  | some mapping =>
    have hlook := lookup_of_modified hmodified
    have hlen := hfit.length_nonneg
    have hcnt := h.length
    simp only [writeBack, wp_bind, wp_onFs, hsfile, hoffset, hread]
    rw [Kernel.updateProcess, Kernel.setAllList_fs, hfs,
      wp_fileSeek (findAt_overwritten hfile 0 _ pos) (Int.natCast_nonneg _),
      Fs.overwritten_overwritten, wp_userPage (by exact hcur) (by exact h.pagedir) hlook]
    simp only [Kernel.setFs_memory, Kernel.setAllList_memory, hu.memory, Kernel.setFs_fs]
    refine wp_mono (fileWrite_overwritten h.fs.files_nodup hfile hinode hdeny
      (hdata ▸ hfit) _ _ ?_ ?_) ?_
    · simp only [pgSize]
      omega
    · rw [hdata]
      simp only [pageCount, pgSize] at hcnt ⊢
      omega
    rintro _ t ⟨n, cnt, hn, rfl⟩
    have hprogress := progress_of_alignedWrite hlen h.length hn
    refine ⟨_, cnt, hcur, hu.memory, ⟨(i * pgSize + n : Nat), Int.natCast_nonneg _, ?_⟩,
      hprogress.1,
      hprogress.2⟩
    rw [hdata, ← copy_modified (hn.le.trans (Nat.min_le_left _ _)) hmodified]
    rfl

lemma MappedFile.loop (h : MappedFile k process pd mmf header) (rounds : Nat)
    (hi : i + rounds = mmf.pgCnt) (hu : Writing k process pd mmf header i n cnt u) :
    wp (freeEntries mmf.startAddr rounds (i * pgSize))
      (fun _ t => ∃ n cnt, Writing k process pd mmf header mmf.pgCnt n cnt t) u := by
  induction rounds generalizing i n cnt u with
  | zero =>
    rw [Nat.add_zero] at hi
    exact ⟨n, cnt, hi ▸ hu⟩
  | succ rounds ih =>
    have huser := h.user
    have haddr : ptrAdd mmf.startAddr (i * pgSize) = mmf.startAddr + i * pgSize := by
      refine ptrAdd_eq ?_
      simp only [pgSize, physBase] at huser ⊢
      omega
    rw [freeEntries, wp_bind, haddr]
    refine wp_mono (h.step (by omega) hu) ?_
    rintro _ t ⟨n', cnt', ht⟩
    rw [← Nat.succ_mul]
    exact ih (by omega) ht

/-! ## The whole call -/

lemma MappedFile.changesOnly_copy (h : MappedFile k process pd mmf header) (src : Memory)
    (hn : n ≤ (headerAt k.fs.disk header).length.toNat) :
    ChangesOnly (InExtent (headerAt k.fs.disk header)) k.fs.disk
      (copy k.fs.disk (dataAddress (headerAt k.fs.disk header) 0) src 0 n) := by
  have hlen := length_le_bytesToSectors h.fits.length_nonneg h.fits.length_lt
  have hroom : 0 + n ≤ sectorSize * bytesToSectors (headerAt k.fs.disk header).length := by
    simp only [sectorSize]
    omega
  exact Filesys.changesOnly_copy k.fs.disk src _ _ 0 hroom

lemma safeLength_le (fs : Fs) (size : Nat) : safeLength fs size ≤ size := by
  rw [safeLength]
  split <;> omega

section

variable (h : MappedFile k process pd mmf header)

include h

lemma mmfilesFreeEntry_spec : wp (mmfilesFreeEntry mmf)
      (fun _ t => ChangesOnly (InExtent (headerAt k.fs.disk freeMapSector))
        (copy k.fs.disk (dataAddress (headerAt k.fs.disk header) 0)
          (expectedByte k process pd mmf (headerAt k.fs.disk header)) 0
          (safeLength k.fs (headerAt k.fs.disk header).length.toNat)) t.fs.disk) k := by
  obtain ⟨pos, hc⟩ := h.handle
  have hloop := h.loop mmf.pgCnt (Nat.zero_add _) h.writing
  rw [Nat.zero_mul] at hloop
  simp only [mmfilesFreeEntry, wp_bind, wp_onFs]
  refine wp_mono hloop ?_
  rintro _ u ⟨n, cnt, hu⟩
  obtain ⟨newPos, hpos, hfs⟩ := hu.fs
  have hn := hu.last rfl
  subst hn
  have hchanges := h.changesOnly_copy (expectedByte k process pd mmf (headerAt k.fs.disk header))
    (safeLength_le k.fs _)
  obtain ⟨hsound, hhandle⟩ := h.fs.overwritten hc hpos hchanges cnt
  have hkeeps := h.fs.sound.device.keeps_of_extent h.live hchanges
  rw [hfs]
  refine wp_mono (fileClose_denySound hsound hhandle) fun _ t hclose => ?_
  have hmap := hclose.changes
  rw [Fs.overwritten_disk, hkeeps.header (live_map _)] at hmap
  exact hmap

lemma MappedFile.not_map
    (hx : x < (headerAt k.fs.disk header).length) : ¬ InExtent (headerAt k.fs.disk freeMapSector)
      (dataAddress (headerAt k.fs.disk header) x / sectorSize) := by
  obtain ⟨pos, hc⟩ := h.handle
  obtain ⟨-, -, -, -, -, -, -, hne, -⟩ := h.fs.handle hc
  have hlen := length_le_bytesToSectors h.fits.length_nonneg h.fits.length_lt
  refine h.fs.sound.device.sectors.extent_disjoint h.live (live_map _) hne ?_
  change InExtent (headerAt k.fs.disk header) _
  simp only [InExtent, dataAddress, sectorSize] at hlen ⊢
  omega

lemma MappedFile.not_written {disk : Memory}
    (hdisk : ChangesOnly (InExtent (headerAt k.fs.disk freeMapSector))
      (copy k.fs.disk (dataAddress (headerAt k.fs.disk header) 0)
        (expectedByte k process pd mmf (headerAt k.fs.disk header)) 0 n) disk)
    (hlo : n ≤ x) (hx : x < (headerAt k.fs.disk header).length) :
    disk (dataAddress (headerAt k.fs.disk header) x) =
      k.fs.disk (dataAddress (headerAt k.fs.disk header) x) := by
  rw [hdisk _ (h.not_map hx), ← dataAddress_zero_add, copy_outside _ _ _ (by omega)]

end

/-- `mmfiles_free_entry` writes the modified pages back if and only if the last sector needs no
memory or gets it. -/
theorem mmfilesFreeEntry_writes_back_iff (h : MappedFile k process pd mmf header) :
    wp (mmfilesFreeEntry mmf) (fun _ t => WrittenBack k t process pd mmf header) k ↔
      LastSectorSafe k process pd mmf (headerAt k.fs.disk header) := by
  obtain ⟨_, t, hrun, hdisk⟩ := wp_iff.mp (mmfilesFreeEntry_spec h)
  rw [wp_of_ok hrun]
  have hle := safeLength_le k.fs (headerAt k.fs.disk header).length.toNat
  have hinside : ∀ x : Nat, x < safeLength k.fs (headerAt k.fs.disk header).length.toNat →
      t.fs.disk (dataAddress (headerAt k.fs.disk header) x) =
        expectedByte k process pd mmf (headerAt k.fs.disk header) x := by
    intro x hx
    rw [hdisk _ (h.not_map (by omega)), ← dataAddress_zero_add,
      copy_inside _ _ _ (by omega) (by omega), Nat.zero_add, Nat.add_sub_cancel_left]
  constructor
  · intro hwritten
    refine or_iff_not_imp_left.mpr fun hmemory x hlo hx => ?_
    have hsafe : safeLength k.fs (headerAt k.fs.disk header).length.toNat ≤ x := by
      rwa [safeLength, if_neg hmemory]
    rw [← hwritten.bytes x hx, h.not_written hdisk hsafe hx]
  intro hsafe
  refine ⟨fun x hx => ?_, ?_, fun a ha hmap => ?_⟩
  · by_cases hlo : x < safeLength k.fs (headerAt k.fs.disk header).length.toNat
    · exact hinside x hlo
    rw [h.not_written hdisk (Nat.not_lt.mp hlo) hx]
    rw [safeLength] at hlo
    rcases hsafe with hmemory | hbytes
    · rw [if_pos hmemory] at hlo
      omega
    · refine (hbytes x ?_ hx).symm
      split at hlo <;> omega
  · have hcopy := h.changesOnly_copy (expectedByte k process pd mmf (headerAt k.fs.disk header)) hle
    have hsectors := h.fs.sound.device.sectors
    refine headerAt_of_changesOnly (P := fun sector =>
      InExtent (headerAt k.fs.disk freeMapSector) sector ∨
        InExtent (headerAt k.fs.disk header) sector)
      ((hcopy.mono fun _ => .inr).trans (hdisk.mono fun _ => .inl)) ?_
    rintro (hin | hin)
    · exact hsectors.header_not_inExtent (live_map _) h.live hin
    · exact hsectors.header_not_inExtent h.live h.live hin
  · have hend := dataAddress_zero_add (headerAt k.fs.disk header)
      (headerAt k.fs.disk header).length.toNat
    rw [Int.toNat_of_nonneg h.fits.length_nonneg] at hend
    rw [← hend] at ha
    rw [hdisk a hmap, copy_outside _ _ _ (by omega)]

end

section OneByte

attribute [local irreducible] wp outcome

def dirtyPage : PageTable := loadedPage.update 0x10000 ({ · with dirty := true })

def writer (fs : Fs) (handle : Nat) (byte : Byte) : Kernel :=
  { mapper dirtyPage fs handle with memory := fun _ _ => byte }

@[simp] lemma writer_fs (fs : Fs) (handle : Nat) (byte : Byte) : (writer fs handle byte).fs = fs :=
    rfl

lemma writer_entry (handle : Nat) : (mapperProcess dirtyPage handle).supplPageTable 0x10000 =
    some { mmfEntry handle 0 1 with loaded := (dirtyPage.lookup 0x10000).isSome } := by
  simp only [mapperProcess, update_self]

lemma pgNo_mapperFile (handle : Nat) : pgNo (mapperFile handle).startAddr = 0x10000 := by
  have hcovers : Covers (mapperFile handle) (pgNo (mapperFile handle).startAddr) :=
    ⟨le_refl _, by simp [mapperFile]⟩
  exact covers_mapperFile.mp hcovers

lemma writer_modified (handle : Nat) : modified (mapperProcess dirtyPage handle) dirtyPage
    (pgNo (mapperFile handle).startAddr + 0 / pgSize) = some ⟨⟨0, true, false, true⟩, 0x10000⟩ := by
  have hlook : dirtyPage.lookup 0x10000 = some ⟨⟨0, true, false, true⟩, 0x10000⟩ := by decide
  rw [pgNo_mapperFile, Nat.zero_div, Nat.add_zero, modified, writer_entry, hlook]
  rfl

lemma writer_mappedFile {handle header : Nat} (h : IsOneByte fs handle header)
    (hwritable : ∀ inode ∈ fs.openInodes, inode.denyWriteCnt = 0) (byte : Byte) :
    MappedFile (writer fs handle byte) (mapperProcess dirtyPage handle) dirtyPage
      (mapperFile handle) header where
  current := rfl
  pagedir := rfl
  fs := h.sound
  handle := h.opened
  writable inode hi _ := hwritable inode hi
  aligned := (mapper_hasMapping h dirtyPage).aligned
  user := (mapper_hasMapping h dirtyPage).user
  length := by
    rw [writer_fs, h.length]
    simp [pageCount, pgSize, mapperFile]
  entries i hi := by
    have hzero : i = 0 := by
      simp only [mapperFile] at hi
      omega
    rw [hzero, pgNo_mapperFile, writer_fs, h.length]
    exact ⟨_, writer_entry handle, rfl, by simp [mmfEntry], by simp [mmfEntry, pgSize]⟩

/-- With memory, the byte gets into the file. -/
theorem mmfilesFreeEntry_with_memory : ∃ fs handle header,
    MappedFile (writer fs handle 1) (mapperProcess dirtyPage handle) dirtyPage (mapperFile handle)
      header ∧ wp (mmfilesFreeEntry (mapperFile handle))
      (fun _ t => WrittenBack (writer fs handle 1) t (mapperProcess dirtyPage handle) dirtyPage
        (mapperFile handle) header) (writer fs handle 1) := by
  obtain ⟨fs, handle, header, hfile, hsound, hmemory⟩ := exists_oneByte
  have h := writer_mappedFile hfile (fun inode hi => (hsound.inodes inode hi).writable) 1
  exact ⟨fs, handle, header, h, (mmfilesFreeEntry_writes_back_iff h).mpr (.inl hmemory)⟩

lemma byte_ne_succ (byte : Byte) : byte ≠ byte + 1 := by
  intro h
  have hnat := congrArg UInt8.toNat h
  have hlt := byte.toNat_lt
  rw [UInt8.toNat_add, UInt8.toNat_one] at hnat
  omega

lemma sound_outOfMemory (h : Sound fs []) : Sound { fs with heapOk := fun _ => false } [] where
  device := h.device
  tables := ⟨h.tables.counted, h.tables.sectors, h.tables.files, h.tables.inodes_fresh,
    h.tables.files_fresh, h.tables.handles, h.tables.ordinary⟩
  inodes := h.inodes
  mapFile := h.mapFile
  saved hok := absurd (hok 0) Bool.false_ne_true

/-- Without memory for the bounce buffer, the modified byte is lost. -/
theorem mmfilesFreeEntry_without_memory : ∃ fs handle header byte,
    MappedFile (writer fs handle byte) (mapperProcess dirtyPage handle) dirtyPage
      (mapperFile handle) header ∧ ¬ wp (mmfilesFreeEntry (mapperFile handle))
      (fun _ t => WrittenBack (writer fs handle byte) t (mapperProcess dirtyPage handle) dirtyPage
        (mapperFile handle) header) (writer fs handle byte) := by
  obtain ⟨fs, handle, header, hfile, hsound, -⟩ := exists_oneByte
  have hsound' := sound_outOfMemory hsound
  have hfile' : IsOneByte { fs with heapOk := fun _ => false } handle header :=
    ⟨DenySound.of_sound hsound', hfile.opened, hfile.length⟩
  have hone : (headerAt fs.disk header).length = 1 := hfile.length
  -- any byte will do that is not in the file already
  refine ⟨_, handle, header, fs.disk (dataAddress (headerAt fs.disk header) 0) + 1,
    writer_mappedFile hfile' (fun inode hi => (hsound'.inodes inode hi).writable) _, fun hwp => ?_⟩
  have h := writer_mappedFile hfile' (fun inode hi => (hsound'.inodes inode hi).writable)
    (fs.disk (dataAddress (headerAt fs.disk header) 0) + 1)
  obtain ⟨_, t, hrun, hwritten⟩ := wp_iff.mp hwp
  have hdisk := mmfilesFreeEntry_spec h
  rw [wp_of_ok hrun] at hdisk
  have hnone : safeLength { fs with heapOk := fun _ => false } 1 = 0 := rfl
  have hpos : ((0 : Nat) : Int) < (headerAt fs.disk header).length := by
    rw [hone]
    norm_num
  rw [writer_fs, hone] at hdisk
  have hkept := h.not_written hdisk hnone.le hpos
  have hbyte := hwritten.bytes 0 hpos
  rw [hkept] at hbyte
  rw [expectedByte, writer_modified, writer_fs] at hbyte
  exact byte_ne_succ _ hbyte

end OneByte

end Pintos.Userprog
