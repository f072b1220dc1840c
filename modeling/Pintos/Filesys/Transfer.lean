import Pintos.Filesys.Device
import Pintos.Foundation.Heap

/-!
# Reading and writing the bytes of an inode

`inode_read_at` and `inode_write_at` move one sector's share of the request per
iteration, through a bounce buffer unless it is a whole sector.  The data of an
inode is one contiguous extent, so a completed transfer of `n` bytes is a single
`copy` between the caller's buffer and the device.  A failed bounce allocation
ends the loop early, between two chunks.
-/

namespace Pintos.Filesys

open Foundation

variable {data : InodeDisk} {offset size : Int} {addr deviceSize n : Nat} {s : Fs} {bounce : Bool}
  {granted : Prop} {inode : Inode}

def byteToSector (data : InodeDisk) (pos : Int) : Nat :=
  if pos < data.length then toUnsigned32 (data.start + pos.tdiv 512)
  else toUnsigned32 (-1)

structure Chunk where
  sectorIdx : Nat
  sectorOfs : Int
  sectorLeft : Int
  chunkSize : Int

-- The computation at the head of both loops.
def nextChunk (data : InodeDisk) (size offset : Int) : Chunk :=
  let sectorOfs := offset.tmod 512
  let inodeLeft := data.length - offset
  let sectorLeft := 512 - sectorOfs
  let minLeft := if inodeLeft < sectorLeft then inodeLeft else sectorLeft
  { sectorIdx := byteToSector data offset
    sectorOfs
    sectorLeft
    chunkSize := if size < minLeft then size else minLeft }

/-- `bounce = malloc (BLOCK_SECTOR_SIZE)`, unless that was done before. -/
def ensureBounce (bounce : Bool) : FsAction Bool := if bounce then pure true else malloc

def readLoop (data : InodeDisk) : Nat → Memory → Int → Int → Int → Bool → FsAction (Int × Memory)
  | 0, buffer, _, _, bytesRead, _ => pure (bytesRead, buffer)
  | fuel + 1, buffer, size, offset, bytesRead, bounce =>
    if size ≤ 0 then pure (bytesRead, buffer)
    else
      let c := nextChunk data size offset
      if c.chunkSize ≤ 0 then pure (bytesRead, buffer)
      else if c.sectorOfs = 0 ∧ c.chunkSize = 512 then do
        let buffer ← blockRead c.sectorIdx buffer bytesRead.toNat
        readLoop data fuel buffer (size - c.chunkSize) (offset + c.chunkSize)
          (bytesRead + c.chunkSize) bounce
      else do
        let bounce ← ensureBounce bounce
        if bounce then do
          let sector ← blockRead c.sectorIdx (fun _ => 0) 0
          let buffer := copy buffer bytesRead.toNat sector c.sectorOfs.toNat c.chunkSize.toNat
          readLoop data fuel buffer (size - c.chunkSize)
            (offset + c.chunkSize) (bytesRead + c.chunkSize) bounce
        else pure (bytesRead, buffer)

-- Every iteration takes at least one byte, so `size` iterations suffice.
def inodeReadAt (inode : Inode) (buffer : Memory) (size offset : Int) : FsAction (Int × Memory) :=
  readLoop inode.data size.toNat buffer size offset 0 false

def writeLoop (data : InodeDisk) (buffer : Memory) : Nat → Int → Int → Int → Bool → FsAction Int
  | 0, _, _, bytesWritten, _ => pure bytesWritten
  | fuel + 1, size, offset, bytesWritten, bounce =>
    if size ≤ 0 then pure bytesWritten
    else
      let c := nextChunk data size offset
      if c.chunkSize ≤ 0 then pure bytesWritten
      else if c.sectorOfs = 0 ∧ c.chunkSize = 512 then do
        blockWrite c.sectorIdx buffer bytesWritten.toNat
        writeLoop data buffer fuel (size - c.chunkSize) (offset + c.chunkSize)
          (bytesWritten + c.chunkSize) bounce
      else do
        let bounce ← ensureBounce bounce
        if bounce then do
          let sector ←
            if c.sectorOfs > 0 ∨ c.chunkSize < c.sectorLeft then
              blockRead c.sectorIdx (fun _ => 0) 0
            else pure (fill (fun _ => 0) 0 0 sectorSize)
          let sector := copy sector c.sectorOfs.toNat buffer bytesWritten.toNat c.chunkSize.toNat
          blockWrite c.sectorIdx sector 0
          writeLoop data buffer fuel (size - c.chunkSize)
            (offset + c.chunkSize) (bytesWritten + c.chunkSize) bounce
        else pure bytesWritten

def inodeWriteAt (inode : Inode) (buffer : Memory) (size offset : Int) : FsAction Int :=
  if inode.denyWriteCnt ≠ 0 then pure 0
  else writeLoop inode.data buffer size.toNat size offset 0 false

/-! ## What one iteration moves -/

structure Fits (size : Nat) (data : InodeDisk) : Prop where
  size_le : size ≤ 2 ^ 32 - 32
  length_nonneg : 0 ≤ data.length
  length_lt : data.length < 2 ^ 31
  extent_le : data.start + bytesToSectors data.length ≤ size

def available (data : InodeDisk) (size offset : Int) : Nat :=
  (min size (data.length - offset)).toNat

def dataAddress (data : InodeDisk) (offset : Int) : Nat := sectorSize * data.start + offset.toNat

lemma nextChunk_stop (hoff : 0 ≤ offset) (hsize : 0 < size)
    (h : (nextChunk data size offset).chunkSize ≤ 0) : available data size offset = 0 := by
  simp only [nextChunk] at h
  have hmod : offset.tmod 512 = offset % 512 := Int.tmod_eq_emod_of_nonneg hoff
  rw [hmod] at h
  simp only [available]
  split at h <;> split at h <;> omega

structure ChunkOk (deviceSize : Nat) (data : InodeDisk) (size offset : Int)
    (c : Chunk) : Prop where
  sector_lt : c.sectorIdx < deviceSize
  address : sectorSize * c.sectorIdx + c.sectorOfs.toNat = dataAddress data offset
  ofs_nonneg : 0 ≤ c.sectorOfs
  ofs_eq : c.sectorOfs = offset % 512
  left_eq : c.sectorLeft = 512 - c.sectorOfs
  fits_sector : c.sectorOfs + c.chunkSize ≤ 512
  le_available : c.chunkSize.toNat ≤ available data size offset
  rest : available data (size - c.chunkSize) (offset + c.chunkSize) =
    available data size offset - c.chunkSize.toNat
  whole : offset % 512 + size ≤ 512 → c.chunkSize.toNat = available data size offset

lemma nextChunk_ok (hfit : Fits deviceSize data) (hoff : 0 ≤ offset) (hsize : 0 < size)
    (h : 0 < (nextChunk data size offset).chunkSize) :
    ChunkOk deviceSize data size offset (nextChunk data size offset) := by
  obtain ⟨hsz, hlen0, hlen, hext⟩ := hfit
  have hmod : offset.tmod 512 = offset % 512 := Int.tmod_eq_emod_of_nonneg hoff
  have hdiv : offset.tdiv 512 = offset / 512 := Int.tdiv_eq_ediv_of_nonneg hoff
  simp only [nextChunk, hmod] at h
  have hlt : offset < data.length := by split at h <;> split at h <;> omega
  have hcover := length_le_bytesToSectors hlen0 hlen
  have hsec : byteToSector data offset = data.start + offset.toNat / 512 := by
    rw [byteToSector, if_pos hlt, hdiv, toUnsigned32]
    omega
  have hsize' : (if size < (if data.length - offset < 512 - offset % 512
      then data.length - offset else 512 - offset % 512) then size
      else if data.length - offset < 512 - offset % 512
      then data.length - offset else 512 - offset % 512) =
      min size (min (data.length - offset) (512 - offset % 512)) := by
    split <;> split <;> omega
  refine ⟨?_, ?_, ?_, ?_, ?_, ?_, ?_, ?_, ?_⟩ <;>
    simp only [nextChunk, hmod, hsec, hsize', available, dataAddress, sectorSize]
  all_goals omega

/-! ## What a whole request moves -/

/--
What is known of the number `n` of bytes moved by a request: it never exceeds
what is available, it reaches it when no allocation fails, and a request that
stays inside one sector moves all or nothing.
-/
structure Progress (s : Fs) (data : InodeDisk) (size offset : Int) (n : Nat) :
    Prop where
  le : n ≤ available data size offset
  full : s.HeapOk → n = available data size offset
  atomic : offset % 512 + size ≤ 512 → n = 0 ∨ n = available data size offset

/-- The same, where `granted` says that the request gets a bounce buffer if it needs one. -/
structure MovedBytes (granted : Prop) (data : InodeDisk) (size offset : Int) (n : Nat) : Prop where
  le : n ≤ available data size offset
  full : granted → n = available data size offset
  atomic : offset % 512 + size ≤ 512 → n = 0 ∨ n = available data size offset

def BounceOk (s : Fs) (bounce : Bool) : Prop := bounce = true ∨ s.heapOk s.allocations = true

lemma MovedBytes.progress
    (h : MovedBytes (BounceOk s bounce) data size offset n) : Progress s data size offset n :=
  ⟨h.le, fun hok => h.full (.inr (hok _)), h.atomic⟩

lemma MovedBytes.stopped
    (h : granted → available data size offset = 0) : MovedBytes granted data size offset 0 :=
  ⟨Nat.zero_le _, fun hok => (h hok).symm, fun _ => .inl rfl⟩

lemma MovedBytes.cons {granted' : Prop} {c : Chunk}
    (h : MovedBytes granted' data (size - c.chunkSize) (offset + c.chunkSize) n)
    (hgranted : granted → granted') (hc : ChunkOk deviceSize data size offset c) :
    MovedBytes granted data size offset (c.chunkSize.toNat + n) := by
  have hle := h.le
  have hrest := hc.rest
  have hchunk := hc.le_available
  refine ⟨by omega, ?_, ?_⟩
  · intro hok
    have hfull := h.full (hgranted hok)
    omega
  · intro hone
    have hwhole := hc.whole hone
    right
    omega

lemma dataAddress_add {c : Int} (hoff : 0 ≤ offset) (hc : 0 ≤ c) :
    dataAddress data (offset + c) = dataAddress data offset + c.toNat := by
  simp only [dataAddress]
  omega

lemma wp_ensureBounce {Q : Bool → Fs → Prop} (hgranted : ∀ k, Q true (s.spend k))
    (hdenied : ¬ BounceOk s bounce → Q false (s.spend 1)) : wp (ensureBounce bounce) Q s := by
  cases bounce with
  | true => simpa [ensureBounce] using hgranted 0
  | false =>
    simp only [ensureBounce, Bool.false_eq_true, if_false, wp_malloc]
    cases hok : s.heapOk s.allocations with
    | true => exact hgranted 1
    | false => exact hdenied (by simp [BounceOk, hok])

lemma readLoop_spec (data : InodeDisk) (fuel : Nat) :
    ∀ (buffer : Memory) (size offset bytesRead : Int) (bounce : Bool) (s : Fs),
      Fits s.size data → 0 ≤ offset → 0 ≤ bytesRead → size ≤ fuel →
      wp (readLoop data fuel buffer size offset bytesRead bounce)
        (fun r t => ∃ k n, t = s.spend k ∧ MovedBytes (BounceOk s bounce) data size offset n ∧
          r = (bytesRead + n, copy buffer bytesRead.toNat s.disk
            (dataAddress data offset) n)) s := by
  induction fuel with
  | zero =>
    intro buffer size offset bytesRead bounce s _ _ _ hfuel
    refine ⟨0, 0, rfl, .stopped fun _ => ?_, by simp⟩
    simp only [available]
    omega
  | succ fuel ih =>
    intro buffer size offset bytesRead bounce s hfit hoff hread hfuel
    -- every way out of the loop leaves the buffer as it is
    have leave : ∀ k, (BounceOk s bounce → available data size offset = 0) →
        ∃ k' n, s.spend k = s.spend k' ∧ MovedBytes (BounceOk s bounce) data size offset n ∧
          (bytesRead, buffer) = (bytesRead + (n : Int), copy buffer
            bytesRead.toNat s.disk (dataAddress data offset) n) :=
      fun k hstop => ⟨k, 0, rfl, .stopped hstop, by simp⟩
    by_cases hsize : size ≤ 0
    · simp only [readLoop, hsize, if_true, wp_pure]
      refine leave 0 fun _ => ?_
      simp only [available]
      omega
    simp only [readLoop, hsize, if_false, wp_ite]
    generalize hc : nextChunk data size offset = c
    by_cases hstop : c.chunkSize ≤ 0
    · simp only [hstop, if_true, wp_pure]
      exact leave 0 fun _ => nextChunk_stop hoff (by omega) (hc ▸ hstop)
    have ok : ChunkOk s.size data size offset c :=
      hc ▸ nextChunk_ok hfit hoff (by omega) (by rw [hc]; omega)
    -- the rest of the loop, once this chunk is in the buffer
    have continue_ : ∀ (k : Nat) (bounce' : Bool),
        (BounceOk s bounce → BounceOk (s.spend k) bounce') → wp (readLoop data fuel
            (copy buffer bytesRead.toNat s.disk (dataAddress data offset) c.chunkSize.toNat)
            (size - c.chunkSize) (offset + c.chunkSize) (bytesRead + c.chunkSize) bounce')
          (fun r t => ∃ k n, t = s.spend k ∧ MovedBytes (BounceOk s bounce) data size offset n ∧
            r = (bytesRead + n, copy buffer bytesRead.toNat s.disk
              (dataAddress data offset) n)) (s.spend k) := by
      intro k bounce' hbounce
      refine wp_mono (ih _ _ _ _ bounce' (s.spend k) hfit (by omega) (by omega) (by omega)) ?_
      rintro r t ⟨k', n, rfl, hmoved, rfl⟩
      refine ⟨k + k', c.chunkSize.toNat + n, by simp, hmoved.cons hbounce ok, ?_⟩
      rw [dataAddress_add hoff (by omega), ← copy_append]
      refine Prod.ext (by push_cast; omega) ?_
      simp only [Fs.spend_disk]
      congr 1
      omega
    simp only [hstop, if_false]
    by_cases hwhole : c.sectorOfs = 0 ∧ c.chunkSize = 512
    · simp only [hwhole, and_self, if_true, wp_bind, wp_blockRead]
      refine ⟨ok.sector_lt, ?_⟩
      have haddr : sectorSize * c.sectorIdx = dataAddress data offset := by
        simpa [hwhole.1] using ok.address
      rw [haddr]
      simpa [hwhole.2, sectorSize] using continue_ 0 bounce id
    simp only [hwhole, if_false, wp_bind]
    refine wp_ensureBounce ?_ fun hbad => leave 1 fun hok => absurd hok hbad
    intro k
    simp only [if_true, wp_bind, wp_blockRead, Fs.spend_size, Fs.spend_disk]
    refine ⟨ok.sector_lt, ?_⟩
    have hin := ok.fits_sector
    have hofs := ok.ofs_nonneg
    have hvia := copy_via buffer (fun _ => 0) s.disk bytesRead.toNat 0
      (sectorSize * c.sectorIdx) c.sectorOfs.toNat sectorSize c.chunkSize.toNat
      (by simp only [sectorSize]; omega)
    rw [Nat.zero_add, ok.address] at hvia
    rw [hvia]
    exact continue_ k true fun _ => .inl rfl

lemma inodeReadAt_spec (buffer : Memory) (hfit : Fits s.size inode.data) (hoff : 0 ≤ offset) :
    wp (inodeReadAt inode buffer size offset)
      (fun r t => ∃ k n, t = s.spend k ∧ Progress s inode.data size offset n ∧
        r = ((n : Int), copy buffer 0 s.disk (dataAddress inode.data offset) n)) s := by
  refine wp_mono (readLoop_spec inode.data size.toNat buffer size offset 0 false s hfit hoff
    (le_refl _) (by omega)) ?_
  rintro r t ⟨k, n, ht, hmoved, hr⟩
  exact ⟨k, n, ht, hmoved.progress, by simpa using hr⟩

lemma writeLoop_spec (data : InodeDisk) (buffer : Memory) (fuel : Nat) :
    ∀ (size offset bytesWritten : Int) (bounce : Bool) (s : Fs),
      Fits s.size data → 0 ≤ offset → 0 ≤ bytesWritten → size ≤ fuel →
      wp (writeLoop data buffer fuel size offset bytesWritten bounce)
        (fun r t => ∃ k n, MovedBytes (BounceOk s bounce) data size offset n ∧
          r = bytesWritten + n ∧
          t = (s.spend k).setDisk (copy s.disk (dataAddress data offset) buffer
            bytesWritten.toNat n)) s := by
  induction fuel with
  | zero =>
    intro size offset bytesWritten bounce s _ _ _ hfuel
    refine ⟨0, 0, .stopped fun _ => ?_, by simp, by simp [Fs.setDisk]⟩
    simp only [available]
    omega
  | succ fuel ih =>
    intro size offset bytesWritten bounce s hfit hoff hwr hfuel
    have leave : ∀ k, (BounceOk s bounce → available data size offset = 0) →
        ∃ k' n, MovedBytes (BounceOk s bounce) data size offset n ∧
          bytesWritten = bytesWritten + (n : Int) ∧ s.spend k = (s.spend k').setDisk (copy s.disk
            (dataAddress data offset) buffer bytesWritten.toNat n) :=
      fun k hstop => ⟨k, 0, .stopped hstop, by simp, by simp [Fs.spend, Fs.setDisk]⟩
    by_cases hsize : size ≤ 0
    · simp only [writeLoop, hsize, if_true, wp_pure]
      refine leave 0 fun _ => ?_
      simp only [available]
      omega
    simp only [writeLoop, hsize, if_false, wp_ite]
    generalize hc : nextChunk data size offset = c
    by_cases hstop : c.chunkSize ≤ 0
    · simp only [hstop, if_true, wp_pure]
      exact leave 0 fun _ => nextChunk_stop hoff (by omega) (hc ▸ hstop)
    have ok : ChunkOk s.size data size offset c :=
      hc ▸ nextChunk_ok hfit hoff (by omega) (by rw [hc]; omega)
    -- the rest of the loop, once this chunk is on the device
    have continue_ : ∀ (k : Nat) (bounce' : Bool),
        (BounceOk s bounce → BounceOk (s.spend k) bounce') → wp (writeLoop data buffer fuel
            (size - c.chunkSize) (offset + c.chunkSize) (bytesWritten + c.chunkSize) bounce')
          (fun r t => ∃ k n, MovedBytes (BounceOk s bounce) data size offset n ∧
            r = bytesWritten + n ∧ t = (s.spend k).setDisk (copy s.disk (dataAddress data offset)
              buffer bytesWritten.toNat n))
          ((s.spend k).setDisk (copy s.disk (dataAddress data offset) buffer
            bytesWritten.toNat c.chunkSize.toNat)) := by
      intro k bounce' hbounce
      refine wp_mono (ih _ _ _ bounce' _ hfit (by omega) (by omega) (by omega)) ?_
      rintro r t ⟨k', n, hmoved, rfl, rfl⟩
      refine ⟨k + k', c.chunkSize.toNat + n, hmoved.cons hbounce ok, by push_cast; omega, ?_⟩
      rw [dataAddress_add hoff (by omega), ← copy_append]
      simp only [Fs.spend, Fs.setDisk, Fs.mk.injEq, true_and, and_true, Nat.add_assoc]
      congr 1
      omega
    simp only [hstop, if_false]
    by_cases hwhole : c.sectorOfs = 0 ∧ c.chunkSize = 512
    · simp only [hwhole, and_self, if_true, wp_bind, wp_blockWrite]
      refine ⟨ok.sector_lt, ?_⟩
      have haddr : sectorSize * c.sectorIdx = dataAddress data offset := by
        simpa [hwhole.1] using ok.address
      rw [haddr]
      simpa [hwhole.2, sectorSize] using continue_ 0 bounce id
    simp only [hwhole, if_false, wp_bind]
    refine wp_ensureBounce ?_ fun hbad => leave 1 fun hok => absurd hok hbad
    intro k
    have hin := ok.fits_sector
    have hofs := ok.ofs_nonneg
    have hleft := ok.left_eq
    -- a chunk that fills its sector was handled above
    have hpartial : c.sectorOfs > 0 ∨ c.chunkSize < c.sectorLeft := by
      by_contra hnone
      exact hwhole (by omega)
    simp only [if_true, hpartial, wp_bind, wp_blockRead, Fs.spend_size,
      Fs.spend_disk, wp_blockWrite, ok.sector_lt, true_and]
    have hpatch := copy_patch s.disk (fun _ => 0) buffer
      (sectorSize * c.sectorIdx) bytesWritten.toNat c.sectorOfs.toNat sectorSize
      c.chunkSize.toNat (by simp only [sectorSize]; omega)
    rw [ok.address] at hpatch
    rw [hpatch]
    exact continue_ k true fun _ => .inl rfl

lemma inodeWriteAt_spec (buffer : Memory) (hfit : Fits s.size inode.data)
    (hdeny : inode.denyWriteCnt = 0) (hoff : 0 ≤ offset) :
    wp (inodeWriteAt inode buffer size offset)
      (fun r t => ∃ k n, Progress s inode.data size offset n ∧ r = (n : Int) ∧
        t = (s.spend k).setDisk (copy s.disk (dataAddress inode.data offset) buffer 0 n)) s := by
  rw [inodeWriteAt, if_neg (by simp [hdeny])]
  refine wp_mono (writeLoop_spec inode.data buffer size.toNat size offset 0 false s hfit hoff
    (le_refl _) (by omega)) ?_
  rintro r t ⟨k, n, hmoved, hr, ht⟩
  exact ⟨k, n, hmoved.progress, by simpa using hr, ht⟩

/-! ## The rounds of a request -/

/-- The variables at the head of one iteration, and what is computed from them. -/
structure Round where
  size : Int
  offset : Int
  done : Int
  chunk : Chunk

/-- The iterations of both loops; the last one may be left by `break`. -/
def rounds (data : InodeDisk) : Nat → Int → Int → Int → List Round
  | 0, _, _, _ => []
  | fuel + 1, size, offset, done =>
    let c := nextChunk data size offset
    if size ≤ 0 then []
    else ⟨size, offset, done, c⟩ :: if c.chunkSize ≤ 0 then [] else
      rounds data fuel (size - c.chunkSize) (offset + c.chunkSize) (done + c.chunkSize)

def readRounds : List Round → Memory → Int → Bool → FsAction (Int × Memory)
  | [], buffer, done, _ => pure (done, buffer)
  | r :: rest, buffer, done, bounce =>
    if r.chunk.chunkSize ≤ 0 then pure (done, buffer)
    else if r.chunk.sectorOfs = 0 ∧ r.chunk.chunkSize = 512 then do
      let buffer ← blockRead r.chunk.sectorIdx buffer done.toNat
      readRounds rest buffer (done + r.chunk.chunkSize) bounce
    else do
      let bounce ← ensureBounce bounce
      if bounce then do
        let sector ← blockRead r.chunk.sectorIdx (fun _ => 0) 0
        let buffer := copy buffer done.toNat sector r.chunk.sectorOfs.toNat r.chunk.chunkSize.toNat
        readRounds rest buffer (done + r.chunk.chunkSize) bounce
      else pure (done, buffer)

def writeRounds (buffer : Memory) : List Round → Int → Bool → FsAction Int
  | [], done, _ => pure done
  | r :: rest, done, bounce =>
    if r.chunk.chunkSize ≤ 0 then pure done
    else if r.chunk.sectorOfs = 0 ∧ r.chunk.chunkSize = 512 then do
      blockWrite r.chunk.sectorIdx buffer done.toNat
      writeRounds buffer rest (done + r.chunk.chunkSize) bounce
    else do
      let bounce ← ensureBounce bounce
      if bounce then do
        let sector ←
          if r.chunk.sectorOfs > 0 ∨ r.chunk.chunkSize < r.chunk.sectorLeft then
            blockRead r.chunk.sectorIdx (fun _ => 0) 0
          else pure (fill (fun _ => 0) 0 0 sectorSize)
        blockWrite r.chunk.sectorIdx (copy sector r.chunk.sectorOfs.toNat buffer done.toNat
          r.chunk.chunkSize.toNat) 0
        writeRounds buffer rest (done + r.chunk.chunkSize) bounce
      else pure done

lemma readLoop_eq (data : InodeDisk) (fuel : Nat) : ∀ (buffer : Memory) (size offset done : Int)
    (bounce : Bool), readLoop data fuel buffer size offset done bounce =
      readRounds (rounds data fuel size offset done) buffer done bounce := by
  induction fuel with
  | zero => exact fun _ _ _ _ _ => rfl
  | succ fuel ih =>
    intro buffer size offset done bounce
    simp only [readLoop, rounds]
    split
    · rfl
    simp only [readRounds]
    split
    · rfl
    · simp only [ih]

lemma writeLoop_eq (data : InodeDisk) (buffer : Memory) (fuel : Nat) :
    ∀ (size offset done : Int) (bounce : Bool), writeLoop data buffer fuel size offset done bounce =
      writeRounds buffer (rounds data fuel size offset done) done bounce := by
  induction fuel with
  | zero => exact fun _ _ _ _ => rfl
  | succ fuel ih =>
    intro size offset done bounce
    simp only [writeLoop, rounds]
    split
    · rfl
    simp only [writeRounds]
    split
    · rfl
    · simp only [ih]

def IsOff (i : Int) : Prop := -2 ^ 31 ≤ i ∧ i < 2 ^ 31

/-- A transfer stays in the extent, and every `off_t` and `int` of the iteration is in range. -/
structure RoundOk (data : InodeDisk) (r : Round) : Prop where
  sector : 0 < r.chunk.chunkSize → data.start ≤ r.chunk.sectorIdx ∧
    r.chunk.sectorIdx < data.start + bytesToSectors data.length
  counters : IsOff r.size ∧ IsOff r.offset ∧ IsOff r.done
  computed : IsOff (data.length - r.offset) ∧ IsOff r.chunk.sectorOfs ∧ IsOff r.chunk.sectorLeft ∧
    IsOff r.chunk.chunkSize
  advanced : 0 < r.chunk.chunkSize → IsOff (r.size - r.chunk.chunkSize) ∧
    IsOff (r.offset + r.chunk.chunkSize) ∧ IsOff (r.done + r.chunk.chunkSize)

lemma roundOk_nextChunk {done : Int} (hfit : Fits deviceSize data) (hoff : 0 ≤ offset)
    (hoff' : offset < 2 ^ 31) (hsize : 0 < size) (hdone : 0 ≤ done) (hsum : done + size < 2 ^ 31) :
    RoundOk data ⟨size, offset, done, nextChunk data size offset⟩ := by
  have hlow := hfit.length_nonneg
  have hhigh := hfit.length_lt
  have hcover := length_le_bytesToSectors hlow hhigh
  have hmod : offset.tmod 512 = offset % 512 := Int.tmod_eq_emod_of_nonneg hoff
  have hchunk : (nextChunk data size offset).chunkSize ≤ size ∧
      (nextChunk data size offset).chunkSize ≤ data.length - offset ∧
      (-2 ^ 31 ≤ (nextChunk data size offset).chunkSize) := by
    simp only [nextChunk, hmod]
    split <;> split <;> omega
  obtain ⟨hle, hleft, hge⟩ := hchunk
  refine ⟨fun hpos => ?_, ?_, ?_, fun hpos => ?_⟩
  · have ok := nextChunk_ok hfit hoff hsize hpos
    have haddr := ok.address
    have hofs := ok.ofs_eq
    dsimp only at hpos ⊢
    simp only [dataAddress, sectorSize] at haddr
    omega
  · dsimp only [IsOff]
    omega
  · simp only [IsOff, nextChunk, hmod] at hle hge ⊢
    omega
  · dsimp only [IsOff] at hpos ⊢
    omega

lemma roundOk_of_mem (hfit : Fits deviceSize data) (fuel : Nat) :
    ∀ {size offset done : Int}, 0 ≤ offset → offset < 2 ^ 31 → 0 ≤ done → done + size < 2 ^ 31 →
      ∀ r ∈ rounds data fuel size offset done, RoundOk data r := by
  induction fuel with
  | zero =>
    intro size offset done _ _ _ _ r hr
    simp [rounds] at hr
  | succ fuel ih =>
    intro size offset done hoff hoff' hdone hsum r hr
    simp only [rounds] at hr
    split at hr
    · simp at hr
    · next hsize =>
        have ok := roundOk_nextChunk hfit hoff hoff' (not_le.mp hsize) hdone hsum
        rcases mem_cons.mp hr with rfl | hr
        · exact ok
        split at hr
        · simp at hr
        · next hstop =>
            obtain ⟨-, ⟨-, hnext⟩, -⟩ := ok.advanced (not_le.mp hstop)
            dsimp only at hnext
            exact ih (by omega) hnext (by omega) (by omega) r hr

/-- A request that gets its bounce buffer moves exactly the bytes there are, between the buffer and
the extent of the inode, and no computation on the way overflows. -/
theorem inodeTransfer_exact {inode : Inode} {size offset : Int} {s : Fs} (buffer : Memory)
    (hfit : Fits s.size inode.data) (hoff : 0 ≤ offset) (hoff' : offset < 2 ^ 31)
    (hsize : size < 2 ^ 31) (hbounce : s.heapOk s.allocations = true)
    (hdeny : inode.denyWriteCnt = 0)
    {n : Nat} (hn : (n : Int) = max 0 (min size (inode.data.length - offset))) :
    wp (inodeReadAt inode buffer size offset) (fun r t => (∃ k, t = s.spend k) ∧
      r = ((n : Int), copy buffer 0 s.disk (dataAddress inode.data offset) n)) s ∧
    wp (inodeWriteAt inode buffer size offset) (fun r t => r = (n : Int) ∧ ∃ k, t =
      (s.spend k).setDisk (copy s.disk (dataAddress inode.data offset) buffer 0 n)) s ∧
    inodeReadAt inode buffer size offset =
      readRounds (rounds inode.data size.toNat size offset 0) buffer 0 false ∧
    inodeWriteAt inode buffer size offset =
      writeRounds buffer (rounds inode.data size.toNat size offset 0) 0 false ∧
    ∀ r ∈ rounds inode.data size.toNat size offset 0, RoundOk inode.data r := by
  have havailable : n = available inode.data size offset := by
    simp only [available]
    omega
  have hallowed : inodeWriteAt inode buffer size offset =
      writeLoop inode.data buffer size.toNat size offset 0 false := by
    rw [inodeWriteAt, if_neg (by simp [hdeny])]
  refine ⟨?_, ?_, readLoop_eq .., hallowed.trans (writeLoop_eq ..),
    roundOk_of_mem hfit _ hoff hoff' le_rfl (by omega)⟩
  · refine wp_mono (readLoop_spec inode.data size.toNat buffer size offset 0 false s hfit hoff
      le_rfl (by omega)) ?_
    rintro r t ⟨k, m, ht, hmoved, hr⟩
    obtain rfl : m = n := (hmoved.full (.inr hbounce)).trans havailable.symm
    exact ⟨⟨k, ht⟩, by simpa using hr⟩
  · rw [hallowed]
    refine wp_mono (writeLoop_spec inode.data buffer size.toNat size offset 0 false s hfit hoff
      le_rfl (by omega)) ?_
    rintro r t ⟨k, m, hmoved, hr, ht⟩
    obtain rfl : m = n := (hmoved.full (.inr hbounce)).trans havailable.symm
    exact ⟨by simpa using hr, k, ht⟩

/-- A device on which every sector starts with its own number. -/
def numbered : Fs where
  size := 8
  disk i := if i % 512 = 0 then UInt8.ofNat (i / 512) else 0
  freeMap := ⟨0, [], rfl, by decide⟩
  freeMapFile := none
  openInodes := []
  files := []
  nextAddress := 1
  heapOk _ := true
  garbage _ _ := 0
  allocations := 0

theorem inodeTransfer_exact_numbered : Fits numbered.size ⟨3, 600⟩ ∧
    wp (inodeReadAt ⟨1, 2, 1, false, 0, ⟨3, 600⟩⟩ (fun _ => 0) 1000 500) (fun r _ =>
      r = ((100 : Int),
        copy (fun _ => 0) 0 numbered.disk (dataAddress ⟨3, 600⟩ 500) 100)) numbered := by
  have hfit : Fits numbered.size ⟨3, 600⟩ := ⟨by decide, by decide, by decide, by decide⟩
  have hexact := @inodeTransfer_exact ⟨1, 2, 1, false, 0, ⟨3, 600⟩⟩ 1000 500 numbered (fun _ => 0)
    hfit (by decide) (by decide) (by decide) rfl rfl 100 (by decide)
  exact ⟨hfit, wp_mono hexact.1 fun _ _ h => h.2⟩

/-! ## Through an open file -/

def getInode (addr : Nat) : FsAction Inode := do
  let s ← Action.get
  match findAt Inode.addr s.openInodes addr with
  | some inode => return inode
  | none => stop .misuse

def getFile (addr : Nat) : FsAction File := do
  let s ← Action.get
  match findAt File.addr s.files addr with
  | some file => return file
  | none => stop .misuse

def fileReadAt (file : Nat) (buffer : Memory) (size offset : Int) : FsAction (Int × Memory) := do
  let file ← getFile file
  let inode ← getInode file.inode
  inodeReadAt inode buffer size offset

def fileWriteAt (file : Nat) (buffer : Memory) (size offset : Int) : FsAction Int := do
  let file ← getFile file
  let inode ← getInode file.inode
  inodeWriteAt inode buffer size offset

lemma wp_getInode (h : findAt Inode.addr s.openInodes addr = some inode)
    (Q : Inode → Fs → Prop) : wp (getInode addr) Q s ↔ Q inode s := by
  simp [getInode, h]

lemma wp_getFile {file : File} (h : findAt File.addr s.files addr = some file)
    (Q : File → Fs → Prop) : wp (getFile addr) Q s ↔ Q file s := by
  simp [getFile, h]

end Pintos.Filesys
