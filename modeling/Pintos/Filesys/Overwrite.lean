import Pintos.Filesys.Denied

/-!
# Overwriting an open file

A request that begins at a sector boundary needs memory for its last, incomplete
sector only.  Writing inside the data of an open file keeps the invariant.
-/

namespace Pintos.Filesys

open Foundation

variable {s : Fs} {cnt n offset size : Nat} {newPos : Int}

/-! ## Requests at a sector boundary -/

/-- Of `size` bytes at a sector boundary, `n` are written after `cnt` allocations: all of them or,
without memory, all but those in the last sector. -/
structure AlignedWrite (s : Fs) (size n cnt : Nat) : Prop where
  bytes : n = if s.heapOk s.allocations then size else size - size % 512
  memory : size % 512 = 0 → cnt = 0

lemma AlignedWrite.le (h : AlignedWrite s size n cnt) : n ≤ size := by
  rw [h.bytes]
  split <;> omega

lemma AlignedWrite.cons {t : Fs} (h : AlignedWrite t size n cnt) (hheap : t.heapOk = s.heapOk)
    (hcnt : t.allocations = s.allocations) : AlignedWrite s (512 + size) (512 + n) cnt := by
  refine ⟨?_, fun hwhole => h.memory (by omega)⟩
  rw [h.bytes, hheap, hcnt]
  split <;> omega

lemma nextChunk_aligned {data : InodeDisk} (halign : offset % 512 = 0)
    (hsize : 0 < size) (hlen : ((offset + size : Nat) : Int) ≤ data.length) :
    (nextChunk data size offset).sectorOfs = 0 ∧
      (nextChunk data size offset).chunkSize = (min size 512 : Nat) := by
  have hmod : (offset : Int).tmod 512 = 0 := by
    rw [Int.tmod_eq_emod_of_nonneg (by omega)]
    omega
  simp only [nextChunk, hmod]
  refine ⟨trivial, ?_⟩
  split <;> split <;> omega

lemma writeLoop_aligned (data : InodeDisk) (buffer : Memory) (fuel : Nat) :
    ∀ (size offset written : Nat) (s : Fs), Fits s.size data → offset % 512 = 0 → size ≤ fuel →
      ((offset + size : Nat) : Int) ≤ data.length →
      wp (writeLoop data buffer fuel size offset written false)
        (fun r t => ∃ n cnt, AlignedWrite s size n cnt ∧ r = (written + n : Nat) ∧
          t = (s.spend cnt).setDisk
            (copy s.disk (dataAddress data offset) buffer written n)) s := by
  induction fuel with
  | zero =>
    intro size offset written s _ _ hfuel _
    have hzero : size = 0 := by omega
    exact ⟨0, 0, ⟨by simp [hzero], fun _ => rfl⟩, rfl, by rw [copy_zero]; rfl⟩
  | succ fuel ih =>
    intro size offset written s hfit halign hfuel hlen
    rcases Nat.eq_zero_or_pos size with rfl | hsize
    · rw [writeLoop, if_pos (by simp)]
      exact ⟨0, 0, ⟨by simp, fun _ => rfl⟩, rfl, by rw [copy_zero]; rfl⟩
    obtain ⟨hofs, hchunk⟩ := nextChunk_aligned halign hsize hlen
    have ok := nextChunk_ok hfit (Int.natCast_nonneg offset) (by omega)
      (by rw [hchunk]; omega : 0 < (nextChunk data size offset).chunkSize)
    have haddr : sectorSize * (nextChunk data size offset).sectorIdx = dataAddress data offset := by
      simpa [hofs] using ok.address
    rw [writeLoop, if_neg (by omega)]
    simp only [hofs, hchunk, true_and]
    rw [if_neg (by omega)]
    by_cases hwhole : 512 ≤ size
    · -- a whole sector goes to the device as it is
      have hmin : min size 512 = 512 := by omega
      have hrest : (size : Int) - (512 : Nat) = (size - 512 : Nat) := by omega
      rw [hmin, if_pos (by rfl), wp_bind, wp_blockWrite, haddr, hrest]
      refine ⟨ok.sector_lt, ?_⟩
      have hspec := ih (size - 512) (offset + 512) (written + 512)
        (s.setDisk (copy s.disk (dataAddress data offset) buffer written sectorSize)) hfit
        (by omega) (by omega) (by omega)
      push_cast at hspec
      refine wp_mono hspec ?_
      rintro r t ⟨n, cnt, hn, rfl, rfl⟩
      have hwr := hn.cons (s := s) rfl rfl
      rw [show 512 + (size - 512) = size by omega] at hwr
      refine ⟨512 + n, cnt, hwr, by push_cast; omega, ?_⟩
      have hnext : dataAddress data ((offset : Int) + 512) = _ :=
        dataAddress_add (Int.natCast_nonneg offset) (by norm_num)
      rw [hnext, ← copy_append]
      rfl
    -- the last sector goes through the bounce buffer
    have hmin : min size 512 = size := by omega
    have hdone : (size : Int) - size = 0 := by omega
    rw [hmin, if_neg (by omega), wp_bind, ensureBounce, if_neg (by simp), wp_malloc]
    cases hmem : s.heapOk s.allocations with
    | false =>
      have hnone : size - size % 512 = 0 := by omega
      refine ⟨0, 1, ⟨by simp [hmem, hnone], fun h => by omega⟩, rfl, ?_⟩
      rw [copy_zero]
      rfl
    | true =>
      have hpartial : (0 : Int) > 0 ∨ (size : Int) < (nextChunk data size offset).sectorLeft := by
        rw [ok.left_eq, hofs]
        omega
      have hpatch := copy_patch s.disk (fun _ => 0) buffer
        (sectorSize * (nextChunk data size offset).sectorIdx) written 0 sectorSize size
        (by simp only [sectorSize]; omega)
      rw [haddr, Nat.add_zero] at hpatch
      simp only [if_true, if_pos hpartial, wp_bind, wp_blockRead, wp_blockWrite,
        Fs.spend_size, Fs.spend_disk, ok.sector_lt, true_and, haddr, Int.toNat_natCast,
        Int.toNat_zero, hpatch, hdone]
      have hwr : AlignedWrite s size size 1 := ⟨by simp [hmem], fun h => by omega⟩
      cases fuel with
      | zero => exact ⟨size, 1, hwr, rfl, rfl⟩
      | succ fuel =>
        rw [writeLoop, if_pos (le_refl 0)]
        exact ⟨size, 1, hwr, rfl, rfl⟩

/-! ## Through an open file -/

/-- The state after `cnt` allocations, with new contents of the device and `handle` at `pos`. -/
def Fs.overwritten (s : Fs) (cnt : Nat) (disk : Memory) (handle : Nat) (pos : Int) : Fs :=
  ((s.spend cnt).setDisk disk).setFiles (updateAt File.addr s.files handle ({ · with pos }))

section Overwritten

variable {handle header : Nat} {file : File} {inode : Inode}

@[simp] lemma Fs.overwritten_disk (s : Fs) (cnt : Nat) (disk : Memory) (handle : Nat)
    (pos : Int) : (s.overwritten cnt disk handle pos).disk = disk := rfl

lemma Fs.overwritten_overwritten (s : Fs) (handle cnt cnt' : Nat) (disk disk' : Memory)
    (pos pos' : Int) : (s.overwritten cnt disk handle pos).overwritten cnt' disk' handle pos' =
      s.overwritten (cnt + cnt') disk' handle pos' := by
  simp only [Fs.overwritten, Fs.spend, Fs.setDisk, Fs.setFiles, Nat.add_assoc]
  rw [updateAt_updateAt (by exact fun _ => rfl)]

lemma eq_of_findAt_file (hnodup : (s.files.map File.addr).Nodup)
    (hfile : findAt File.addr s.files handle = some file) {g : File} (hg : g ∈ s.files)
    (haddr : g.addr = handle) : g = file := by
  obtain ⟨hf, hfaddr⟩ := (findAt_eq_some hnodup).mp hfile
  exact eq_of_addr_eq hnodup hg hf (haddr.trans hfaddr.symm)

lemma Fs.overwritten_self (hnodup : (s.files.map File.addr).Nodup)
    (hfile : findAt File.addr s.files handle = some file) :
    s.overwritten 0 s.disk handle file.pos = s := by
  have hfiles : updateAt File.addr s.files handle ({ · with pos := file.pos }) =
      updateAt File.addr s.files handle id :=
    updateAt_congr fun g hg haddr => by rw [eq_of_findAt_file hnodup hfile hg haddr]; rfl
  have hid : updateAt File.addr s.files handle id = s.files := by simp [updateAt]
  rw [Fs.overwritten, hfiles, hid]
  rfl

section

variable (hfile : findAt File.addr s.files handle = some file)

include hfile

lemma findAt_overwritten (cnt : Nat)
    (disk : Memory) (pos : Int) :
    findAt File.addr (s.overwritten cnt disk handle pos).files handle = some { file with pos } := by
  rw [Fs.overwritten, Fs.setFiles_files, findAt_updateAt_self (by exact fun _ => rfl), hfile]
  rfl

lemma wp_fileSeek
    (hpos : 0 ≤ newPos) (Q : Unit → Fs → Prop) :
    wp (fileSeek handle newPos) Q s ↔ Q () (s.overwritten 0 s.disk handle newPos) := by
  simp only [fileSeek, updateFile, wp_bind, wp_require, wp_getFile hfile,
    wp_modify, ge_iff_le, hpos, true_and]
  exact Iff.rfl

end

lemma fileWrite_aligned (hnodup : (s.files.map File.addr).Nodup)
    (hfile : findAt File.addr s.files handle = some file)
    (hinode : findAt Inode.addr s.openInodes file.inode = some inode)
    (hdeny : inode.denyWriteCnt = 0) (hfit : Fits s.size inode.data) (buffer : Memory)
    (hpos : file.pos = offset) (halign : offset % 512 = 0)
    (hlen : ((offset + size : Nat) : Int) ≤ inode.data.length) : wp (fileWrite handle buffer size)
      (fun _ t => ∃ n cnt, AlignedWrite s size n cnt ∧
        t = s.overwritten cnt (copy s.disk (dataAddress inode.data offset) buffer 0 n) handle
          (offset + n : Nat)) s := by
  have hnodeny : ¬ inode.denyWriteCnt ≠ 0 := fun h => h hdeny
  simp only [fileWrite, updateFile, inodeWriteAt, if_neg hnodeny, wp_bind, wp_getFile hfile,
    wp_getInode hinode, hpos, wp_modify, wp_pure, Int.toNat_natCast]
  refine wp_mono (writeLoop_aligned inode.data buffer size size offset 0 s hfit halign
    (le_refl _) hlen) ?_
  rintro r t ⟨n, cnt, hn, rfl, rfl⟩
  refine ⟨n, cnt, hn, ?_⟩
  rw [Fs.overwritten, Fs.setDisk_files, Fs.spend_files]
  refine congrArg _ (updateAt_congr fun g hg haddr => ?_)
  rw [eq_of_findAt_file hnodup hfile hg haddr, hpos, Nat.zero_add, Nat.cast_add]

lemma fileWrite_overwritten (hnodup : (s.files.map File.addr).Nodup)
    (hfile : findAt File.addr s.files handle = some file)
    (hinode : findAt Inode.addr s.openInodes file.inode = some inode)
    (hdeny : inode.denyWriteCnt = 0) (hfit : Fits s.size inode.data) (disk buffer : Memory)
    (halign : offset % 512 = 0)
    (hlen : ((offset + size : Nat) : Int) ≤ inode.data.length) : wp (fileWrite handle buffer size)
      (fun _ t => ∃ n cnt, AlignedWrite s size n cnt ∧
        t = s.overwritten cnt (copy disk (dataAddress inode.data offset) buffer 0 n) handle
          (offset + n : Nat)) (s.overwritten 0 disk handle offset) := by
  have hnodup' : ((s.overwritten 0 disk handle offset).files.map File.addr).Nodup := by
    rw [Fs.overwritten, Fs.setFiles_files, map_updateAt File.addr (by exact fun _ => rfl)]
    exact hnodup
  refine wp_mono (fileWrite_aligned hnodup' (findAt_overwritten hfile 0 disk offset)
    (by exact hinode) hdeny hfit buffer rfl halign hlen) ?_
  rintro _ t ⟨n, cnt, hn, rfl⟩
  refine ⟨n, cnt, ⟨hn.bytes, hn.memory⟩, ?_⟩
  rw [Fs.overwritten_overwritten, Nat.zero_add]
  rfl

lemma DenySound.overwritten (h : DenySound s) {pos : Int}
    (hc : ClientHandle s handle header pos) (hpos : 0 ≤ newPos) {disk : Memory}
    (hchanges : ChangesOnly (InExtent (headerAt s.disk header)) s.disk disk) (cnt : Nat) :
    DenySound (s.overwritten cnt disk handle newPos) ∧
      ClientHandle (s.overwritten cnt disk handle newPos) handle header newPos := by
  have hc' := (clientHandle_undenied s handle header pos).mpr hc
  obtain ⟨_, inode, -, hi, -, -, -, hsec, -, -, hroot, hmap, -⟩ := h.sound.handle hc'
  have hlive : Live s.undenied header := hsec ▸ live_open hi
  have hkeep := h.sound.device.keeps_of_extent hlive hchanges
  have hst : SameTables s.undenied ((s.undenied.spend cnt).setDisk disk) :=
    ⟨rfl, rfl, rfl, rfl, rfl, le_refl _⟩
  have hsound := h.sound.keepsData hst hkeep (Ne.symm hroot) (Ne.symm hmap) rfl
  have hundenied : (s.overwritten cnt disk handle newPos).undenied =
      s.undenied.overwritten cnt disk handle newPos := by
    simp only [Fs.undenied, Fs.overwritten, Fs.setFiles_files, Fs.setTables_files]
    rw [updateAt_map File.undenied_addr (by exact fun _ => rfl)]
    rfl
  have hcounts : ∀ addr, deniedBy (s.overwritten cnt disk handle newPos).files addr =
      deniedBy s.files addr := by
    intro addr
    rw [deniedBy, Fs.overwritten, Fs.setFiles_files, updateAt, List.countP_map]
    refine List.countP_congr fun g _ => ?_
    by_cases haddr : g.addr = handle <;> simp [haddr]
  refine ⟨⟨?_, fun i hi => ?_, fun g hg hptr => ?_⟩, ?_⟩
  · rw [hundenied]
    exact hsound.updateFile handle (fun _ => rfl) (fun _ => rfl) fun _ _ _ => ⟨hpos, rfl⟩
  · rw [hcounts]
    exact h.counts i hi
  · refine forall_mem_updateAt h.mapFile ?_ g hg hptr
    exact fun f hf _ => h.mapFile f hf
  · rw [← clientHandle_undenied, hundenied]
    have hmoved := moved_updateFile hsound (f := ({ · with pos := newPos })) hc' (fun _ => rfl)
      (fun _ => rfl) fun _ _ _ => rfl
    exact (hmoved handle header newPos).mpr (.inr ⟨rfl, rfl, rfl⟩)

end Overwritten

end Pintos.Filesys
