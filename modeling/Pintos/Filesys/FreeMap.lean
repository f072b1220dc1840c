import Pintos.Filesys.Transfer

/-!
# The free map

`filesys/free-map.c` and the file functions of `lib/kernel/bitmap.c`.  The map is
kept in memory and, while its file is open, every change is also written to that
file.  A write that runs out of memory leaves a part of the new map on the
device; an allocation is then undone in memory, a release is not.
-/

namespace Pintos.Filesys

open Foundation

variable {s : Fs} {store : Option InodeDisk} {map map' map'' : Bitmap} {cnt sector : Nat}
  {used : Bool} {more requests : List Nat}

def bitmapWrite (b : Bitmap) (file : Nat) : FsAction Bool := do
  let size : Int := Bitmap.byteCnt b.bitCnt
  let written ← fileWriteAt file b.bytes size 0
  return written = size

def freeMapAllocate (cnt : Nat) : FsAction (Option Nat) := do
  let s ← Action.get
  let (sector, freeMap) ← Action.ofExcept (s.freeMap.scanAndFlip 0 cnt false)
  Action.modify (·.setMap freeMap)
  match sector, s.freeMapFile with
  | some sector, some file => do
    if ← bitmapWrite freeMap file then return some sector
    else
      let freeMap ← Action.ofExcept (freeMap.setMultiple sector cnt false)
      Action.modify (·.setMap freeMap)
      return none
  | some sector, none => return some sector
  | none, _ => return none

def freeMapRelease (sector cnt : Nat) : FsAction Unit := do
  let s ← Action.get
  let all ← Action.ofExcept (s.freeMap.all sector cnt)
  require (all = true) (.assertion "bitmap_all (free_map, sector, cnt)")
  let freeMap ← Action.ofExcept (s.freeMap.setMultiple sector cnt false)
  Action.modify (·.setMap freeMap)
  match s.freeMapFile with
  | some file => do
    let _ ← bitmapWrite freeMap file
    return ()
  | none => stop .wildAccess

/-! ## Where the map is saved -/

inductive MapStore (s : Fs) : Option InodeDisk → Prop
  | closed (h : s.freeMapFile = none) : MapStore s none
  | opened (file : File) (inode : Inode) (hfile : s.freeMapFile = some file.addr)
      (hopen : findAt File.addr s.files file.addr = some file)
      (hinode : findAt Inode.addr s.openInodes file.inode = some inode)
      (hwrite : inode.denyWriteCnt = 0) (hfit : Fits s.size inode.data)
      (hlength : inode.data.length = Bitmap.byteCnt s.freeMap.bitCnt) : MapStore s (some inode.data)

def saveTo : Option InodeDisk → Memory → Bitmap → Nat → Memory
  | none, disk, _, _ => disk
  | some data, disk, map, n => copy disk (sectorSize * data.start) map.bytes 0 n

@[simps! -fullyApplied] def Fs.save (s : Fs) (store : Option InodeDisk) (k : Nat)
    (map written : Bitmap)
    (n : Nat) : Fs :=
  ((s.spend k).setMap map).setDisk (saveTo store s.disk written n)

@[simp] lemma saveTo_zero (store : Option InodeDisk) (disk : Memory)
    (map : Bitmap) : saveTo store disk map 0 = disk := by
  cases store <;> simp [saveTo]

lemma Fs.save_zero (s : Fs) (store : Option InodeDisk) (k : Nat)
    (written : Bitmap) : s.save store k s.freeMap written 0 = s.spend k := by
  simp [Fs.save, Fs.setMap, Fs.setDisk, Fs.spend]

@[simp] lemma Fs.spend_save (s : Fs) (store : Option InodeDisk) (j k : Nat) (map written : Bitmap)
    (n : Nat) : (s.spend j).save store k map written n = s.save store (j + k) map written n := by
  simp [Fs.save]

lemma MapStore.spend (h : MapStore s store) (k : Nat) : MapStore (s.spend k) store := by
  cases h with
  | closed h => exact .closed h
  | opened file inode hfile hopen hinode hwrite hfit hlen =>
    exact .opened file inode hfile hopen hinode hwrite hfit hlen

lemma bitmapWrite_spec {b : Bitmap} {file : File} {inode : Inode}
    (hopen : findAt File.addr s.files file.addr = some file)
    (hinode : findAt Inode.addr s.openInodes file.inode = some inode)
    (hwrite : inode.denyWriteCnt = 0) (hfit : Fits s.size inode.data)
    (hlen : inode.data.length = Bitmap.byteCnt b.bitCnt) : wp (bitmapWrite b file.addr)
      (fun r t => ∃ k n, n ≤ Bitmap.byteCnt b.bitCnt ∧
        (r = true ↔ n = Bitmap.byteCnt b.bitCnt) ∧ (s.HeapOk → r = true) ∧
        t = s.save (some inode.data) k s.freeMap b n) s := by
  have hall : available inode.data (Bitmap.byteCnt b.bitCnt) 0 = Bitmap.byteCnt b.bitCnt := by
    simp [available, hlen]
  have haddr : dataAddress inode.data 0 = sectorSize * inode.data.start := by simp [dataAddress]
  simp only [bitmapWrite, fileWriteAt, wp_bind, wp_getFile hopen, wp_getInode hinode]
  refine wp_mono (inodeWriteAt_spec _ hfit hwrite (le_refl _)) ?_
  rintro r t ⟨k, n, hprogress, rfl, rfl⟩
  have hle := hprogress.le
  have hfull := hprogress.full
  rw [hall] at hle hfull
  refine ⟨k, n, hle, by simp, fun hok => by simp [hfull hok], ?_⟩
  rw [haddr]
  rfl

/-! ## Allocation and release -/

def FirstFit (map : Bitmap) (cnt sector : Nat) : Prop :=
  map.Run sector cnt false ∧ ∀ k < sector, ¬ map.Run k cnt false

/-- `map'` is `map` with `cnt` sectors from `sector` on given the value `used`. -/
structure Marked (map map' : Bitmap) (sector cnt : Nat) (used : Bool) : Prop where
  bitCnt_eq : map'.bitCnt = map.bitCnt
  get_eq : ∀ j, map'.get j =
    if sector ≤ j ∧ j < sector + cnt then used else map.get j

lemma Marked.undo (h : Marked map map' sector cnt used) (h' : Marked map' map'' sector cnt (!used))
    (hrun : map.Run sector cnt (!used)) : map'' = map := by
  apply Bitmap.ext_get (h'.bitCnt_eq.trans h.bitCnt_eq)
  intro j _
  rw [h'.get_eq, h.get_eq]
  by_cases hj : sector ≤ j ∧ j < sector + cnt
  · rw [if_pos hj, hrun.2 j hj.1 hj.2]
  · rw [if_neg hj, if_neg hj]

inductive Allots : Bitmap → List Nat → Bitmap → Prop
  | nil (map : Bitmap) : Allots map [] map
  | cons {map map' map'' : Bitmap} {cnt sector : Nat} {requests : List Nat}
      (first : FirstFit map cnt sector) (marked : Marked map map' sector cnt true)
      (rest : Allots map' requests map'') : Allots map (cnt :: requests) map''

lemma FirstFit.unique {i j : Nat} (hi : FirstFit map cnt i) (hj : FirstFit map cnt j) : i = j := by
  rcases Nat.lt_trichotomy i j with hlt | heq | hgt
  · exact absurd hi.1 (hj.2 i hlt)
  · exact heq
  · exact absurd hj.1 (hi.2 j hgt)

lemma Marked.unique
    (h : Marked map map' sector cnt used) (h' : Marked map map'' sector cnt used) : map' = map'' :=
  Bitmap.ext_get (h.bitCnt_eq.trans h'.bitCnt_eq.symm) fun j _ => by rw [h.get_eq, h'.get_eq]

def allot (map : Bitmap) : List Nat → Option Bitmap
  | [] => some map
  | cnt :: requests =>
    match map.scanAndFlip 0 cnt false with
    | .ok (some _, map') => allot map' requests
    | _ => none

lemma allots_of_allot (h : allot map requests = some map') : Allots map requests map' := by
  induction requests generalizing map with
  | nil =>
    cases h
    exact .nil _
  | cons cnt requests ih =>
    rcases map.scanAndFlip_spec cnt false (Nat.zero_le _) with
      ⟨sector, next, hscan, -, hrun, hmin, hcnt, hget⟩ | ⟨hscan, -⟩
    · rw [allot, hscan] at h
      exact .cons ⟨hrun, fun k hk => hmin k (Nat.zero_le _) hk⟩ ⟨hcnt, by simpa using hget⟩ (ih h)
    · rw [allot, hscan] at h
      contradiction

lemma Allots.rest (h : Allots map requests map') (hall : Allots map (requests ++ more) map'') :
    Allots map' more map'' := by
  induction h with
  | nil map => exact hall
  | cons first marked rest ih =>
    cases hall with
    | cons first' marked' rest' =>
      obtain rfl := first.unique first'
      obtain rfl := marked.unique marked'
      exact ih rest'

lemma Allots.first
    (hall : Allots map (requests ++ more) map'') : ∃ map', Allots map requests map' := by
  induction requests generalizing map with
  | nil => exact ⟨map, .nil map⟩
  | cons cnt requests ih =>
    cases hall with
    | cons first marked rest =>
      obtain ⟨map', hrest⟩ := ih rest
      exact ⟨map', .cons first marked hrest⟩

lemma freeMapAllocate_spec (hstore : MapStore s store) (cnt : Nat) : wp (freeMapAllocate cnt)
      (fun r t => ∃ k, (∃ sector map, r = some sector ∧ FirstFit s.freeMap cnt sector ∧
          Marked s.freeMap map sector cnt true ∧
          t = s.save store k map map (Bitmap.byteCnt s.freeMap.bitCnt)) ∨
        (∃ written n, r = none ∧ n ≤ Bitmap.byteCnt s.freeMap.bitCnt ∧
          (s.HeapOk → n = 0 ∧ ∀ i, ¬ s.freeMap.Run i cnt false) ∧
          t = s.save store k s.freeMap written n)) s := by
  simp only [freeMapAllocate, wp_bind, wp_get]
  rcases s.freeMap.scanAndFlip_spec cnt false (Nat.zero_le _) with
    ⟨sector, map, hscan, -, hrun, hmin, hcnt, hget⟩ | ⟨hscan, hnone⟩
  · have hmarked : Marked s.freeMap map sector cnt true := ⟨hcnt, by simpa using hget⟩
    have hfirst : FirstFit s.freeMap cnt sector := ⟨hrun, fun k hk => hmin k (Nat.zero_le _) hk⟩
    rw [wp_ofExcept hscan]
    simp only [wp_modify]
    cases hstore with
    | closed hfile =>
      simp only [hfile, wp_pure]
      exact ⟨0, .inl ⟨sector, map, rfl, hfirst, hmarked, rfl⟩⟩
    | opened file inode hfile hopen hinode hwrite hfit hlen =>
      simp only [hfile, wp_bind]
      refine wp_mono (bitmapWrite_spec (s := s.setMap map) hopen
        hinode hwrite hfit (by rw [hlen, hcnt])) ?_
      rintro r t ⟨k, n, hle, hiff, hheap, rfl⟩
      cases r with
      | true =>
        have hn : n = Bitmap.byteCnt s.freeMap.bitCnt := by
          rw [← hcnt]
          exact hiff.mp rfl
        simp only [if_true, wp_pure]
        exact ⟨k, .inl ⟨sector, map, rfl, hfirst, hmarked, by rw [hn]; rfl⟩⟩
      | false =>
        have hroom : sector + cnt ≤ map.bitCnt := hcnt ▸ hrun.1
        obtain ⟨back, hback, hbcnt, hbget⟩ := map.setMultiple_spec false hroom
        have hundo : back = s.freeMap := hmarked.undo ⟨hbcnt, hbget⟩ hrun
        simp only [Bool.false_eq_true, if_false, wp_bind, wp_ofExcept hback, wp_modify, wp_pure]
        refine ⟨k, .inr ⟨map, n, trivial, hcnt ▸ hle, fun hok => ?_, by rw [hundo]; rfl⟩⟩
        simpa using hheap hok
  · rw [wp_ofExcept hscan]
    simp only [wp_modify, wp_pure]
    refine ⟨0, .inr ⟨s.freeMap, 0, trivial, Nat.zero_le _, fun _ => ⟨rfl, fun i => ?_⟩, ?_⟩⟩
    · exact hnone i (Nat.zero_le _)
    · exact (s.save_zero store 0 s.freeMap).symm

lemma freeMapRelease_spec {data : InodeDisk}
    (hstore : MapStore s (some data)) (hrun : s.freeMap.Run sector cnt true) :
    wp (freeMapRelease sector cnt) (fun _ t => ∃ k map n, Marked s.freeMap map sector cnt false ∧
        n ≤ Bitmap.byteCnt s.freeMap.bitCnt ∧ (s.HeapOk → n = Bitmap.byteCnt s.freeMap.bitCnt) ∧
        t = s.save (some data) k map map n) s := by
  cases hstore with
  | opened file inode hfile hopen hinode hwrite hfit hlen =>
    obtain ⟨all, hall, hiff⟩ := s.freeMap.all_spec hrun.1
    obtain ⟨map, hmap, hcnt, hget⟩ := s.freeMap.setMultiple_spec false hrun.1
    have htrue : all = true := hiff.mpr hrun.2
    simp only [freeMapRelease, wp_bind, wp_get, wp_ofExcept hall, wp_require, htrue, true_and,
      wp_ofExcept hmap, wp_modify, hfile, wp_pure]
    refine wp_mono (bitmapWrite_spec (s := s.setMap map) hopen
      hinode hwrite hfit (by rw [hlen, hcnt])) ?_
    rintro r t ⟨k, n, hle, hsaved, hheap, rfl⟩
    refine ⟨k, map, n, ⟨hcnt, hget⟩, hcnt ▸ hle, fun hok => ?_, rfl⟩
    rw [← hcnt]
    exact hsaved.mp (hheap hok)

end Pintos.Filesys
