import Pintos.Filesys.Access

/-!
# Formatting and starting

`filesys_init` makes the free map, formats the device and opens the free map.
It stops when memory runs out, when the device has no room for the free map and
the root directory, and when the device is too large for a bitmap.  Otherwise it
ends in a sound state with an empty root directory.
-/

namespace Pintos.Filesys

open Foundation

variable {b map : Bitmap} {i j size start : Nat} {disk : Memory}

lemma noBits_length : ([] : List (BitVec 32)).length = (0 + 31) / 32 := rfl

lemma noBits_le : 0 ≤ 2 ^ 32 - 32 := by decide

def Fs.unstarted (size : Nat) (disk : Memory) (heapOk : Nat → Bool)
    (garbage : Nat → Memory) : Fs where
  size
  disk
  freeMap := { bitCnt := 0, bits := [], length_bits := noBits_length, bitCnt_le := noBits_le }
  freeMapFile := none
  openInodes := []
  files := []
  nextAddress := 1
  heapOk
  garbage
  allocations := 0

def CannotStart (s : Fs) : Prop := s.size < 4 ∨ 2 ^ 32 - 32 < s.size ∨ ¬ s.HeapOk

/-! ## The map in memory -/

lemma bitmapCreate_spec (s : Fs) (bitCnt : Nat) : wp (bitmapCreate bitCnt)
      (fun r t => ∃ k, t = s.spend k ∧
        ((∃ b, r = some b ∧ bitCnt ≤ 2 ^ 32 - 32 ∧ b.bitCnt = bitCnt ∧
            ∀ j < bitCnt, b.get j = false) ∨
          (r = none ∧ (2 ^ 32 - 32 < bitCnt ∨ ¬ s.HeapOk)))) s := by
  have hfail : ∀ n, s.heapOk n = false → ¬ s.HeapOk := fun n hn hok => by simp [hok n] at hn
  simp only [bitmapCreate, uninitialised, wp_bind, wp_malloc, wp_ite, wp_get, wp_pure]
  cases hfirst : s.heapOk s.allocations with
  | false => exact ⟨1, rfl, .inr ⟨trivial, .inr (hfail _ hfirst)⟩⟩
  | true =>
    simp only [if_true]
    split
    · by_cases hcnt : bitCnt ≤ 2 ^ 32 - 32
      · obtain ⟨b, hb, hbcnt, hget⟩ := Bitmap.create_spec _ hcnt
        rw [wp_ofExcept hb]
        exact ⟨2, rfl, .inl ⟨b, rfl, hcnt, hbcnt, hget⟩⟩
      · rw [wp_ofExcept (a := none) (by simp only [Bitmap.create, dif_neg hcnt]; rfl)]
        exact ⟨2, rfl, .inr ⟨rfl, .inl (by omega)⟩⟩
    · rename_i hsecond
      refine ⟨2, rfl, .inr ⟨trivial, .inr fun hok => hsecond (.inl ?_)⟩⟩
      exact hok _

structure Reserved (size : Nat) (map : Bitmap) : Prop where
  size_pos : 0 < size
  size_le : size ≤ 2 ^ 32 - 32
  bitCnt_eq : map.bitCnt = size
  get_eq : ∀ j < size, map.get j = decide (j < 2)

lemma freeMapInit_outcome (s : Fs) : outcome freeMapInit
      (fun _ t => ∃ k map, t = (s.spend k).setMap map ∧ Reserved s.size map)
      (fun _ => s.size = 0 ∨ 2 ^ 32 - 32 < s.size ∨ ¬ s.HeapOk) s := by
  simp only [freeMapInit, outcome_bind, outcome_get]
  refine outcome_mono (outcome_of_wp (bitmapCreate_spec s s.size)) ?_ fun _ => id
  rintro r t ⟨k, rfl, ⟨b, rfl, hle, hcnt, hget⟩ | ⟨rfl, hbad⟩⟩
  · by_cases hpos : 0 < s.size
    · have hlen := b.length_bits
      have hidx : ∀ i < 32, Bitmap.elemIdx i < b.bits.length := by
        intro i hi
        rw [hlen, Bitmap.elemIdx]
        omega
      obtain ⟨c, hc, hccnt, hcget⟩ := b.mark_spec (hidx 0 (by omega))
      have hclen : Bitmap.elemIdx 1 < c.bits.length := by
        rw [c.length_bits, hccnt, ← hlen]
        exact hidx 1 (by omega)
      obtain ⟨d, hd, hdcnt, hdget⟩ := c.mark_spec hclen
      simp only [outcome_bind, outcome_ofExcept hc, outcome_ofExcept hd,
        freeMapSector, rootDirSector, outcome_modify]
      refine ⟨k, d, rfl, hpos, hle, (hdcnt.trans hccnt).trans hcnt, fun j hj => ?_⟩
      rw [hdget, hcget, hget j hj]
      rcases j with _ | _ | j <;> simp
    · -- a map without elements: the first store leaves the array
      have hmark : b.mark freeMapSector = .error .wildAccess := by
        refine if_neg ?_
        rw [b.length_bits]
        simp only [freeMapSector, Bitmap.elemIdx]
        omega
      simp only [hmark, outcome]
      exact .inl (by omega)
  · rw [outcome_stop]
    exact .inr hbad

/-! ## The file of the free map -/

structure OnlyMapOpen (s : Fs) (addr : Nat) (data : InodeDisk) : Prop where
  inodes : s.openInodes = [⟨addr, freeMapSector, 1, false, 0, data⟩]
  files : s.files = [⟨addr + 1, addr, 0, false⟩]
  mapFile : s.freeMapFile = some (addr + 1)
  fresh : addr + 2 ≤ s.nextAddress

section MapFile

variable {s t : Fs} {addr : Nat} {data : InodeDisk}

def mapOpened (s : Fs) (k : Nat) : Fs :=
  { (s.spend k).bump.bump with
    openInodes := [newInode s freeMapSector]
    files := [⟨s.nextAddress + 1, s.nextAddress, 0, false⟩]
    freeMapFile := some (s.nextAddress + 1) }

lemma onlyMapOpen_mapOpened (s : Fs) (k : Nat) :
    OnlyMapOpen (mapOpened s k) s.nextAddress (headerAt s.disk freeMapSector) :=
  ⟨rfl, rfl, rfl, le_refl _⟩

lemma openFreeMapFile_outcome (hinodes : s.openInodes = []) (hfiles : s.files = [])
    (hsize : 0 < s.size) : outcome openFreeMapFile
      (fun r t => ∃ k, r = s.nextAddress + 1 ∧ t = mapOpened s k) (fun _ => ¬ s.HeapOk) s := by
  have hopen : wp (inodeOpen freeMapSector) (fun r t => (r = some s.nextAddress ∧
          t = (s.spend 1).bump.setInodes [newInode s freeMapSector]) ∨
        (r = none ∧ ¬ s.HeapOk)) s := by
    simp only [inodeOpen, wp_bind, wp_get, hinodes, List.find?_nil, wp_malloc]
    split
    · simp only [wp_bind, wp_newAddress, wp_blockRead, wp_modify, wp_pure]
      refine ⟨hsize, .inl ⟨rfl, ?_⟩⟩
      simp only [Fs.setInodes, Fs.bump, Fs.spend, hinodes, newInode, headerAt_eq_decode]
    · rename_i hgrant
      exact .inr ⟨rfl, fun hok => hgrant (hok _)⟩
  simp only [openFreeMapFile, outcome_bind]
  refine outcome_mono (outcome_of_wp hopen) ?_ fun _ => id
  rintro r u (⟨rfl, rfl⟩ | ⟨rfl, hbad⟩)
  · simp only [fileOpen, outcome_bind, outcome_malloc]
    cases hgrant : ((s.spend 1).bump.setInodes [newInode s freeMapSector]).heapOk _ with
    | true =>
      simp only [outcome_bind, outcome_newAddress, outcome_modify, outcome_pure]
      refine ⟨2, rfl, ?_⟩
      simp [mapOpened, Fs.spend, Fs.bump, Fs.setInodes, Fs.setFiles, hfiles]
    | false =>
      have hbad : ¬ s.HeapOk := fun hok => by
        have := hok (s.allocations + 1)
        simp_all
      simp only [outcome_bind, outcome_pure, outcome_modify, outcome_stop]
      exact outcome_of_stops _ _ hbad
  · simp only [fileOpen, inodeClose, outcome_bind, outcome_malloc, outcome_pure,
      outcome_modify, outcome_stop]
    exact hbad

namespace OnlyMapOpen

variable (h : OnlyMapOpen s addr data)

include h

lemma findFile : findAt File.addr s.files (addr + 1) = some ⟨addr + 1, addr, 0, false⟩ := by
  simp [h.files, findAt]

lemma findInode : findAt Inode.addr s.openInodes addr =
      some ⟨addr, freeMapSector, 1, false, 0, data⟩ := by
  simp [h.inodes, findAt]

section

variable (hfit : Fits s.size data)

include hfit

lemma bitmapWrite_spec (hlen : data.length = Bitmap.byteCnt b.bitCnt) :
    wp (bitmapWrite b (addr + 1)) (fun r t => ∃ k n, n ≤ Bitmap.byteCnt b.bitCnt ∧
        (r = true ↔ n = Bitmap.byteCnt b.bitCnt) ∧ (s.HeapOk → r = true) ∧
        t = s.save (some data) k s.freeMap b n) s :=
  @Filesys.bitmapWrite_spec s b ⟨addr + 1, addr, 0, false⟩
    ⟨addr, freeMapSector, 1, false, 0, data⟩ h.findFile h.findInode rfl hfit hlen

lemma bitmapRead_spec (hpos : 0 < b.bitCnt) (hlen : data.length = Bitmap.byteCnt b.bitCnt) :
    wp (bitmapRead b (addr + 1))
      (fun r t => ∃ k n, t = s.spend k ∧ (s.HeapOk → n = Bitmap.byteCnt b.bitCnt) ∧
        r = (decide (n = Bitmap.byteCnt b.bitCnt),
          b.ofBytes (copy b.bytes 0 s.disk (sectorSize * data.start) n))) s := by
  have hall : available data (Bitmap.byteCnt b.bitCnt) 0 = Bitmap.byteCnt b.bitCnt := by
    simp [available, hlen]
  have haddr : dataAddress data 0 = sectorSize * data.start := by simp [dataAddress]
  simp only [bitmapRead, fileReadAt, gt_iff_lt, hpos, if_true, wp_bind,
    wp_getFile h.findFile, wp_getInode h.findInode]
  refine wp_mono (inodeReadAt_spec _ hfit (le_refl _)) ?_
  rintro _ t ⟨k, n, rfl, hprogress, rfl⟩
  refine ⟨k, n, rfl, fun hok => by rw [hprogress.full hok, hall], ?_⟩
  simp [haddr]

lemma mapStore
    (hlen : data.length = Bitmap.byteCnt s.freeMap.bitCnt) : MapStore s (some data) :=
  .opened ⟨addr + 1, addr, 0, false⟩ ⟨addr, freeMapSector, 1, false, 0, data⟩
    h.mapFile h.findFile h.findInode rfl hfit hlen

end

end OnlyMapOpen

lemma freeMapClose_last {file : File} {inode : Inode} (hfiles : s.files = [file])
    (hinodes : s.openInodes = [inode]) (hptr : s.freeMapFile = some file.addr)
    (haddr : inode.addr = file.inode) (hcnt : inode.openCnt = 1) (hrem : inode.removed = false)
    (hdeny : file.denyWrite = false) :
    wp freeMapClose (fun _ t => t = (s.setFiles []).setInodes []) s := by
  have hfile : findAt File.addr s.files file.addr = some file := by simp [hfiles, findAt]
  have hinode : findAt Inode.addr s.openInodes file.inode = some inode := by
    simp [hinodes, findAt, haddr]
  have hempty : removeAt File.addr s.files file.addr = [] := by simp [hfiles, removeAt]
  have hclosed : removeAt Inode.addr (closed s.openInodes file.inode) file.inode = [] := by
    simp [hinodes, closed, updateAt, removeAt, haddr]
  simp only [freeMapClose, fileClose, fileAllowWrite, hptr, wp_bind, wp_get,
    wp_getFile hfile, hdeny]
  simp only [Bool.false_eq_true, if_false, wp_pure, wp_modify, hempty, inodeClose, wp_bind]
  rw [wp_getInode (s := s.setFiles []) hinode]
  simp [hclosed, Fs.setInodes, hcnt, hrem]

lemma OnlyMapOpen.close (h : OnlyMapOpen s addr data) :
    wp freeMapClose (fun _ t => t = (s.setFiles []).setInodes []) s :=
  freeMapClose_last h.files h.inodes h.mapFile rfl rfl rfl rfl

end MapFile

/-! ## The formatted device -/

/-- The contents of the inode that holds a map of `size` bits and starts at `start`. -/
def mapData (size start : Nat) : InodeDisk := ⟨start, Bitmap.byteCnt size⟩

def rootData (start : Nat) : InodeDisk := ⟨start, 320⟩

lemma byteCnt_lt (size : Nat) : Bitmap.byteCnt size < 2 ^ 30 := by
  have hmod : (size + 31) % 2 ^ 32 < 2 ^ 32 := Nat.mod_lt _ (by decide)
  rw [Bitmap.byteCnt, Bitmap.elemCnt]
  omega

def mapSectors (size : Nat) : Nat := bytesToSectors (Bitmap.byteCnt size)

lemma mapSectors_eq (size : Nat) : mapSectors size = (Bitmap.byteCnt size + 511) / 512 := by
  have hlt := byteCnt_lt size
  have hsum : toSigned32 (toUnsigned32 ((Bitmap.byteCnt size : Int) + 511)) =
      (Bitmap.byteCnt size : Int) + 511 := toSigned32_toUnsigned32 (by omega) (by omega)
  rw [mapSectors, bytesToSectors, hsum, Int.tdiv_eq_ediv_of_nonneg (by omega), toUnsigned32]
  omega

lemma mapSectors_pos (hpos : 0 < size) (hle : size ≤ 2 ^ 32 - 32) : 0 < mapSectors size := by
  have hmod : (size + 31) % 2 ^ 32 = size + 31 := Nat.mod_eq_of_lt (by omega)
  rw [mapSectors_eq, Bitmap.byteCnt, Bitmap.elemCnt, hmod]
  omega

lemma mapSectors_lt (hpos : 4 ≤ size) (hle : size ≤ 2 ^ 32 - 32) : mapSectors size + 2 < size := by
  have hmod : (size + 31) % 2 ^ 32 = size + 31 := Nat.mod_eq_of_lt (by omega)
  rw [mapSectors_eq, Bitmap.byteCnt, Bitmap.elemCnt, hmod]
  omega

structure Formatted (size : Nat) (disk : Memory) (map : Bitmap) : Prop where
  bitCnt_eq : map.bitCnt = size
  mapHeader : ∃ start, headerAt disk freeMapSector = mapData size start
  rootHeader : ∃ start, headerAt disk rootDirSector = rootData start
  mapFits : Fits size (headerAt disk freeMapSector)
  rootFits : Fits size (headerAt disk rootDirSector)
  mapStart : 2 ≤ (headerAt disk freeMapSector).start
  rootStart : 2 ≤ (headerAt disk rootDirSector).start
  disjoint : ∀ j, InExtent (headerAt disk freeMapSector) j →
    ¬ InExtent (headerAt disk rootDirSector) j
  used : ∀ j < size, j < 2 ∨ InExtent (headerAt disk freeMapSector) j ∨
    InExtent (headerAt disk rootDirSector) j → map.get j = true
  saved : MapSaved disk map
  empty : ∀ a, InExtent (headerAt disk rootDirSector) (a / sectorSize) → disk a = 0

section Layout

variable {a b : Nat} {map' map'' : Bitmap}

lemma Reserved.start_ge (h : Reserved size map) {cnt : Nat}
    (hrun : map.Run start cnt false) (hcnt : 0 < cnt) : 2 ≤ start := by
  by_contra hlow
  have hlt : start < size := by
    have := hrun.1
    rw [h.bitCnt_eq] at this
    omega
  have hfree := hrun.2 start (le_refl _) (by omega)
  rw [h.get_eq start hlt] at hfree
  simp at hfree
  omega

/-- The device once the free map was written out, twice, and the root directory is there. -/
def formattedDisk (disk : Memory) (size a b : Nat) (map map' : Bitmap) : Memory :=
  newInodeDisk (copy (copy (newInodeDisk disk freeMapSector (mapData size a))
      (sectorSize * a) map.bytes 0 (Bitmap.byteCnt size))
      (sectorSize * a) map'.bytes 0 (Bitmap.byteCnt size)) rootDirSector (rootData b)

lemma changesOnly_map (disk : Memory) (size a : Nat) (map : Bitmap) :
    ChangesOnly (InExtent (mapData size a)) disk
      (copy disk (sectorSize * a) map.bytes 0 (Bitmap.byteCnt size)) := by
  have hroom : 0 + Bitmap.byteCnt size ≤ sectorSize * mapSectors size := by
    rw [mapSectors_eq]
    simp only [sectorSize]
    omega
  exact changesOnly_copy disk map.bytes a _ 0 hroom

lemma inExtent_rootData : InExtent (rootData b) j ↔ j = b := by
  have hone : bytesToSectors (rootData b).length = 1 := bytesToSectors_root
  rw [InExtent, hone]
  simp only [rootData]
  omega

lemma inExtent_mapData : InExtent (mapData size a) j ↔ a ≤ j ∧ j < a + mapSectors size := Iff.rfl

lemma headerAt_formattedDisk_root (disk : Memory) (map map' : Bitmap) (hb : 2 ≤ b)
    (hlt : b < 2 ^ 32) :
    headerAt (formattedDisk disk size a b map map') rootDirSector = rootData b := by
  refine headerAt_newInodeDisk _ hlt (by simp [rootData]) (by simp [rootData]) ?_
  rw [inExtent_rootData, rootDirSector]
  omega

lemma headerAt_formattedDisk_map (disk : Memory) (map map' : Bitmap) (ha : 2 ≤ a)
    (hb : 2 ≤ b) (hlt : a < 2 ^ 32) :
    headerAt (formattedDisk disk size a b map map') freeMapSector = mapData size a := by
  have hlen := byteCnt_lt size
  have hout : ¬ InExtent (mapData size a) freeMapSector := by
    simp only [InExtent, mapData, freeMapSector]
    omega
  have hroot : ¬ (freeMapSector = rootDirSector ∨ InExtent (rootData b) freeMapSector) := by
    rw [inExtent_rootData, freeMapSector, rootDirSector]
    omega
  rw [formattedDisk, headerAt_of_changesOnly (changesOnly_newInodeDisk _ _ _) hroot,
    headerAt_of_changesOnly (changesOnly_map _ _ _ _) hout,
    headerAt_of_changesOnly (changesOnly_map _ _ _ _) hout]
  refine headerAt_newInodeDisk _ hlt ?_ ?_ hout
  · simp [mapData]
  simp only [mapData]
  omega

lemma bitAt_formattedDisk (disk : Memory) (map : Bitmap) (hcnt : map'.bitCnt = size)
    (hi : i < map'.bitCnt) (ha : 2 ≤ a) (hb : ¬ (a ≤ b ∧ b < a + mapSectors size)) :
    bitAt (formattedDisk disk size a b map map') (sectorSize * a) i = map'.get i := by
  have hbyte := Bitmap.div_lt_byteCnt map'.bitCnt_le hi
  have hsec : a ≤ (sectorSize * a + i / 8) / sectorSize ∧
      (sectorSize * a + i / 8) / sectorSize < a + mapSectors size := by
    rw [hcnt] at hbyte
    rw [mapSectors_eq]
    simp only [sectorSize]
    omega
  have hroot : ¬ ((sectorSize * a + i / 8) / sectorSize = rootDirSector ∨
      InExtent (rootData b) ((sectorSize * a + i / 8) / sectorSize)) := by
    rw [inExtent_rootData]
    rintro (hone | heq)
    · rw [hone, rootDirSector] at hsec
      omega
    · exact hb (heq ▸ hsec)
  have hkept := changesOnly_newInodeDisk (copy (copy (newInodeDisk disk freeMapSector
    (mapData size a)) (sectorSize * a) map.bytes 0 (Bitmap.byteCnt size))
    (sectorSize * a) map'.bytes 0 (Bitmap.byteCnt size)) rootDirSector (rootData b) _ hroot
  rw [bitAt, formattedDisk, hkept, ← hcnt]
  exact map'.bitAt_copy_bytes _ _ hi

lemma formatted_formattedDisk (disk : Memory) (hres : Reserved size map)
    (hrun : map.Run a (mapSectors size) false) (hmarked : Marked map map' a (mapSectors size) true)
    (hrun' : map'.Run b 1 false) (hmarked' : Marked map' map'' b 1 true) :
    Formatted size (formattedDisk disk size a b map' map'') map'' := by
  have hle := hres.size_le
  have ha : 2 ≤ a := hres.start_ge hrun (mapSectors_pos hres.size_pos hle)
  have haroom : a + mapSectors size ≤ size := by
    rw [← hres.bitCnt_eq]
    simpa only [hres.bitCnt_eq] using hrun.1
  have hcnt' : map'.bitCnt = size := hmarked.bitCnt_eq.trans hres.bitCnt_eq
  have hcnt'' : map''.bitCnt = size := hmarked'.bitCnt_eq.trans hcnt'
  have hbroom : b + 1 ≤ size := hcnt' ▸ hrun'.1
  have hbfree : map'.get b = false := hrun'.2 b (le_refl _) (by omega)
  have hbout : ¬ (a ≤ b ∧ b < a + mapSectors size) := fun hin => by
    rw [hmarked.get_eq, if_pos hin] at hbfree
    exact absurd hbfree (by decide)
  have hb : 2 ≤ b := by
    by_contra hlow
    rw [hmarked.get_eq, if_neg hbout, hres.get_eq b (by omega)] at hbfree
    simp at hbfree
    omega
  have hroot : headerAt (formattedDisk disk size a b map' map'') rootDirSector = rootData b :=
    headerAt_formattedDisk_root disk map' map'' hb (by omega)
  have hmap : headerAt (formattedDisk disk size a b map' map'') freeMapSector =
      mapData size a := headerAt_formattedDisk_map disk map' map'' ha hb (by omega)
  have hlen := byteCnt_lt size
  refine ⟨hcnt'', ⟨a, hmap⟩, ⟨b, hroot⟩, ?_, ?_, ?_, ?_, ?_, ?_, ?_, ?_⟩
  · rw [hmap]
    exact ⟨hle, by simp [mapData], by simp only [mapData]; omega, haroom⟩
  · rw [hroot]
    exact ⟨hle, by simp [rootData], by simp [rootData], by
      rw [show bytesToSectors (rootData b).length = 1 from bytesToSectors_root]; exact hbroom⟩
  · rw [hmap]
    exact ha
  · rw [hroot]
    exact hb
  · rw [hmap, hroot]
    intro j hj hj'
    rw [inExtent_rootData] at hj'
    exact hbout (hj' ▸ hj)
  · rw [hmap, hroot]
    rintro j hj (hj' | hj' | hj')
    · rw [hmarked'.get_eq, if_neg (by omega), hmarked.get_eq, if_neg (by omega), hres.get_eq j hj]
      simpa using hj'
    · rw [hmarked'.get_eq]
      split
      · rfl
      · rw [hmarked.get_eq, if_pos (inExtent_mapData.mp hj')]
    · rw [inExtent_rootData] at hj'
      rw [hmarked'.get_eq, if_pos (by omega)]
  · intro i hi
    rw [hmap]
    exact bitAt_formattedDisk disk map' hcnt'' hi ha hbout
  · rw [hroot]
    intro x hx
    exact newInodeDisk_data _ _ _ hx

end Layout

/-! ## Formatting -/

section Steps

variable {s : Fs}

lemma not_cannotStart (h : ¬ CannotStart s) : 4 ≤ s.size ∧ s.size ≤ 2 ^ 32 - 32 ∧ s.HeapOk := by
  simp only [CannotStart, not_or, not_lt, not_not] at h
  exact h

lemma Reserved.run_map (h : Reserved s.size s.freeMap) (hstart : ¬ CannotStart s) :
    s.freeMap.Run 2 (mapSectors s.size) false := by
  obtain ⟨hfour, hle, -⟩ := not_cannotStart hstart
  have hlt := mapSectors_lt hfour hle
  refine ⟨by rw [h.bitCnt_eq]; omega, fun j hj hj' => ?_⟩
  rw [h.get_eq j (by omega)]
  simp
  omega

structure MapCreated (s t : Fs) (addr start : Nat) : Prop where
  opened : OnlyMapOpen t addr (mapData s.size start)
  size : t.size = s.size
  heapOk : t.heapOk = s.heapOk
  first : FirstFit s.freeMap (mapSectors s.size) start
  marked : Marked s.freeMap t.freeMap start (mapSectors s.size) true
  disk : t.disk = copy (newInodeDisk s.disk freeMapSector (mapData s.size start))
    (sectorSize * start) t.freeMap.bytes 0 (Bitmap.byteCnt s.size)

lemma writeNewMap_outcome (hinodes : s.openInodes = []) (hfiles : s.files = [])
    (hres : Reserved s.size s.freeMap) {k : Nat}
    (hfirst : FirstFit s.freeMap (mapSectors s.size) start)
    (hmarked : Marked s.freeMap map start (mapSectors s.size) true) : outcome (do
        let file ← openFreeMapFile
        let s ← Action.get
        let written ← bitmapWrite s.freeMap file
        require (written = true) (.panic "can't write free map"))
      (fun _ t => ∃ addr start, MapCreated s t addr start) (fun _ => CannotStart s)
      (((s.spend k).setMap map).setDisk
        (newInodeDisk s.disk freeMapSector (mapData s.size start))) := by
  have hle := hres.size_le
  have hstart := hres.start_ge hfirst.1 (mapSectors_pos hres.size_pos hle)
  have hroom : start + mapSectors s.size ≤ s.size := by simpa only [hres.bitCnt_eq] using hfirst.1.1
  have hlen := byteCnt_lt s.size
  have hhdr : headerAt (newInodeDisk s.disk freeMapSector (mapData s.size start))
      freeMapSector = mapData s.size start := by
    refine headerAt_newInodeDisk _ ?_ ?_ ?_ ?_
    · simp only [mapData]
      omega
    · simp [mapData]
    · simp only [mapData]
      omega
    · rw [inExtent_mapData, freeMapSector]
      omega
  have hfit : Fits s.size (mapData s.size start) :=
    ⟨hle, by simp [mapData], by simp only [mapData]; omega, hroom⟩
  have hcnt : map.bitCnt = s.size := hmarked.bitCnt_eq.trans hres.bitCnt_eq
  simp only [outcome_bind, outcome_get]
  refine outcome_mono (openFreeMapFile_outcome hinodes hfiles hres.size_pos) ?_
    fun _ hbad => .inr (.inr hbad)
  rintro _ t ⟨k', rfl, rfl⟩
  have hopened := onlyMapOpen_mapOpened (((s.spend k).setMap map).setDisk
    (newInodeDisk s.disk freeMapSector (mapData s.size start))) k'
  simp only [Fs.setDisk_disk, hhdr] at hopened
  have hwrite := hopened.bitmapWrite_spec hfit (b := map) (by rw [hcnt]; rfl)
  refine outcome_mono (outcome_of_wp hwrite) ?_ fun _ => id
  rintro r t ⟨j, n, -, hfull, hheap, rfl⟩
  refine outcome_require (fun hr => ?_) fun hr => ?_
  · refine ⟨_, start, ⟨hopened.inodes, hopened.files, hopened.mapFile, hopened.fresh⟩, rfl, rfl,
      hfirst, hmarked, ?_⟩
    rw [hfull.mp hr, hcnt]
    rfl
  · exact .inr (.inr fun hok => hr (hheap hok))

lemma freeMapCreate_outcome (hinodes : s.openInodes = []) (hfiles : s.files = [])
    (hfile : s.freeMapFile = none) (hres : Reserved s.size s.freeMap) : outcome freeMapCreate
    (fun _ t => ∃ addr start, MapCreated s t addr start) (fun _ => CannotStart s) s := by
  have hsize := byteCnt_lt s.size
  have hlen : toSigned32 (Bitmap.byteCnt s.freeMap.bitCnt) = Bitmap.byteCnt s.size := by
    rw [hres.bitCnt_eq]
    exact toSigned32_of_lt (by omega)
  simp only [freeMapCreate, outcome_bind, outcome_get, hlen]
  refine outcome_mono (outcome_of_wp (inodeCreate_spec (.closed hfile)
    (by omega) hres.size_pos hres.bitCnt_eq)) ?_ fun _ => id
  rintro r t ⟨k, ⟨start, map, rfl, hfirst, hmarked, rfl⟩ | ⟨written, n, rfl, -, hheap, rfl⟩⟩
  · refine outcome_require (fun _ => ?_) (by simp)
    have hwrite := writeNewMap_outcome (k := k) hinodes hfiles hres hfirst hmarked
    simp only [outcome_bind, outcome_get] at hwrite
    exact hwrite
  · refine outcome_require (by simp) fun _ => ?_
    by_contra hstart
    exact (hheap (not_cannotStart hstart).2.2).2 2 (hres.run_map hstart)

lemma MapCreated.free_sector {t : Fs} {addr : Nat} (h : MapCreated s t addr start)
    (hres : Reserved s.size s.freeMap) (hstart : ¬ CannotStart s) :
    t.freeMap.Run (2 + mapSectors s.size) 1 false := by
  obtain ⟨hfour, hle, -⟩ := not_cannotStart hstart
  have hlt := mapSectors_lt hfour hle
  have hge := hres.start_ge h.first.1 (mapSectors_pos hres.size_pos hle)
  have htwo : start = 2 := by
    by_contra hne
    exact h.first.2 2 (by omega) (hres.run_map hstart)
  refine ⟨by rw [h.marked.bitCnt_eq, hres.bitCnt_eq]; omega, fun j hj hj' => ?_⟩
  rw [h.marked.get_eq, if_neg (by omega), hres.get_eq j (by omega)]
  simp
  omega

lemma doFormat_outcome (hinodes : s.openInodes = []) (hfiles : s.files = [])
    (hfile : s.freeMapFile = none) (hres : Reserved s.size s.freeMap) : outcome doFormat
      (fun _ t => t.openInodes = [] ∧ t.files = [] ∧ t.size = s.size ∧ t.heapOk = s.heapOk ∧
        Formatted t.size t.disk t.freeMap) (fun _ => CannotStart s) s := by
  simp only [doFormat, outcome_bind]
  refine outcome_mono (freeMapCreate_outcome hinodes hfiles hfile hres) ?_ fun _ => id
  rintro _ t ⟨addr, start, hcreated⟩
  have hle := hres.size_le
  have hge := hres.start_ge hcreated.first.1 (mapSectors_pos hres.size_pos hle)
  have hroom : start + mapSectors s.size ≤ s.size := by
    simpa only [hres.bitCnt_eq] using hcreated.first.1.1
  have hlength := byteCnt_lt s.size
  have hcnt : t.freeMap.bitCnt = s.size := hcreated.marked.bitCnt_eq.trans hres.bitCnt_eq
  have hfit : Fits t.size (mapData s.size start) := by
    rw [hcreated.size]
    exact ⟨hle, by simp [mapData], by simp only [mapData]; omega, hroom⟩
  have hstore := hcreated.opened.mapStore hfit (by rw [hcnt]; rfl)
  have hlen : toSigned32 (16 * dirEntrySize) = 320 := by decide
  rw [dirCreate, hlen]
  refine outcome_mono (outcome_of_wp (inodeCreate_spec hstore
    (by decide) (by rw [hcreated.size, rootDirSector]; omega)
    (by rw [hcnt, hcreated.size]))) ?_ fun _ => id
  rintro r u ⟨k, ⟨b, map, rfl, hfirst, hmarked, rfl⟩ | ⟨written, n, rfl, -, hheap, rfl⟩⟩
  · refine outcome_require (fun _ => ?_) (by simp)
    have hopened := hcreated.opened
    have hformat := formatted_formattedDisk s.disk hres hcreated.first.1 hcreated.marked
      hfirst.1 hmarked
    refine outcome_of_wp (wp_mono (OnlyMapOpen.close
      ⟨hopened.inodes, hopened.files, hopened.mapFile, hopened.fresh⟩) ?_)
    rintro _ v rfl
    refine ⟨rfl, rfl, hcreated.size, hcreated.heapOk, ?_⟩
    simp only [Fs.setInodes_size, Fs.setFiles_size, Fs.setDisk_size, Fs.save_size,
      Fs.setInodes_disk, Fs.setFiles_disk, Fs.setDisk_disk, Fs.setInodes_freeMap,
      Fs.setFiles_freeMap, Fs.setDisk_freeMap, Fs.save_freeMap, hcreated.size, hcnt, saveTo]
    rw [hcreated.disk]
    exact hformat
  · refine outcome_require (by simp) fun _ => ?_
    by_contra hstart
    have hok : t.HeapOk := by simpa [Fs.HeapOk, hcreated.heapOk] using (not_cannotStart hstart).2.2
    exact (hheap hok).2 _ (hcreated.free_sector hres hstart)

end Steps

/-! ## Starting -/

section Start

variable {s : Fs} {addr : Nat}

namespace Formatted

variable (h : Formatted s.size s.disk s.freeMap)

include h

lemma not_inUse (hi : i < rootEntryCnt) : ¬ slotInUse s.disk i := by
  obtain ⟨start, hroot⟩ := h.rootHeader
  have hin : InExtent (headerAt s.disk rootDirSector)
      ((slotAddress s.disk i + 19) / sectorSize) := by
    rw [hroot, inExtent_rootData, slotAddress, hroot]
    simp only [rootData, sectorSize, dirEntrySize, rootEntryCnt] at hi ⊢
    omega
  simp [slotInUse, entryInUse, h.empty _ hin]

lemma not_named (x : Nat) : ¬ Named s.disk x := fun ⟨_, hi, huse, _⟩ => h.not_inUse hi huse

section

variable (hopen : OnlyMapOpen s addr (headerAt s.disk freeMapSector))

include hopen

lemma live_iff (x : Nat) :
    Live s x ↔ x = freeMapSector ∨ x = rootDirSector := by
  simp only [Live, h.not_named, hopen.inodes, mem_singleton, false_or, exists_eq_left, eq_comm]
  tauto

lemma device :
    DeviceOk s.size s.disk s.freeMap (Live s) := by
  have hlive := h.live_iff hopen
  have hmap := h.mapStart
  have hroot := h.rootStart
  have hfits : ∀ {x}, Live s x → Fits s.size (headerAt s.disk x) := fun {x} hx => by
    rcases (hlive x).mp hx with rfl | rfl
    · exact h.mapFits
    · exact h.rootFits
  have hstart : ∀ {x}, Live s x → x < 2 ∧ 2 ≤ (headerAt s.disk x).start := fun {x} hx => by
    rcases (hlive x).mp hx with rfl | rfl
    · exact ⟨by decide, hmap⟩
    · exact ⟨by decide, hroot⟩
  have hsize : 2 < s.size := by
    have := h.rootFits.extent_le
    obtain ⟨start, hdata⟩ := h.rootHeader
    rw [hdata, show bytesToSectors (rootData start).length = 1 from bytesToSectors_root] at this
    rw [hdata] at hroot
    omega
  refine ⟨h.rootFits.size_le, h.bitCnt_eq, fun hx => (hstart hx).1.trans hsize, hfits, ?_, ?_,
    ?_, ?_⟩
  · intro x hx hin
    have := hstart hx
    have := hin.1
    omega
  · refine ⟨?_, ?_⟩
    · rintro x y hx (rfl | hin)
      · have := hstart hx
        exact h.used _ (by omega) (.inl (by omega))
      have hlt := hin.2.trans_le (hfits hx).extent_le
      rcases (hlive x).mp hx with rfl | rfl
      · exact h.used _ hlt (.inr (.inl hin))
      · exact h.used _ hlt (.inr (.inr hin))
    intro x x' y hx hx' ho ho'
    by_contra hne
    have hlow := hstart hx
    have hlow' := hstart hx'
    rcases ho with rfl | hin <;> rcases ho' with rfl | hin'
    · exact hne rfl
    · have := hin'.1
      omega
    · have := hin.1
      omega
    rcases (hlive x).mp hx with rfl | rfl <;> rcases (hlive x').mp hx' with rfl | rfl
    · exact hne rfl
    · exact h.disjoint y hin hin'
    · exact h.disjoint y hin' hin
    · exact hne rfl
  · obtain ⟨start, hdata⟩ := h.mapHeader
    rw [hdata]
    rfl
  · obtain ⟨start, hdata⟩ := h.rootHeader
    refine ⟨by rw [hdata]; rfl, ?_, ?_, ?_⟩
    · exact fun i hi huse => absurd huse (h.not_inUse hi)
    · exact fun i hi j _ huse => absurd huse (h.not_inUse hi)
    · exact fun i hi huse => absurd huse (h.not_inUse hi)

end

end Formatted

lemma OnlyMapOpen.tables {data : InodeDisk} (h : OnlyMapOpen s addr data) : TablesOk s [] := by
  have hfresh := h.fresh
  refine ⟨⟨?_, ?_, ?_, ?_⟩, ?_, ?_, ?_, ?_, ?_, ?_⟩ <;>
    simp only [references, h.inodes, h.files, h.mapFile, mem_singleton, forall_eq]
  · simp
  · simp
  · simp
  · simp
  · simp
  · simp
  · omega
  · omega
  · simp
  · simp [freeMapSector, rootDirSector]

lemma OnlyMapOpen.sound (h : OnlyMapOpen s addr (headerAt s.disk freeMapSector))
    (hdev : DeviceOk s.size s.disk s.freeMap (Live s)) (hsaved : MapSaved s.disk s.freeMap) :
    Sound s [] where
  device := hdev
  tables := h.tables
  inodes inode hi := by
    rw [h.inodes, mem_singleton] at hi
    subst hi
    exact ⟨rfl, rfl, by simp⟩
  mapFile := by
    rw [h.files, h.mapFile, h.inodes]
    exact ⟨_, mem_singleton.mpr rfl, rfl, _, mem_singleton.mpr rfl, rfl, rfl⟩
  saved _ := hsaved

lemma Formatted.sound (h : Formatted s.size s.disk s.freeMap)
    (hopen : OnlyMapOpen s addr (headerAt s.disk freeMapSector)) : Sound s [] :=
  hopen.sound (h.device hopen) h.saved

lemma Formatted.congr_map {map' : Bitmap}
    (h : Formatted size disk map) (hcnt : map'.bitCnt = map.bitCnt)
    (hget : ∀ i < map.bitCnt, map'.get i = map.get i) : Formatted size disk map' where
  bitCnt_eq := hcnt.trans h.bitCnt_eq
  mapHeader := h.mapHeader
  rootHeader := h.rootHeader
  mapFits := h.mapFits
  rootFits := h.rootFits
  mapStart := h.mapStart
  rootStart := h.rootStart
  disjoint := h.disjoint
  used j hj hin := by
    rw [hget j (by rw [h.bitCnt_eq]; exact hj)]
    exact h.used j hj hin
  saved i hi := by
    rw [hcnt] at hi
    rw [hget i hi]
    exact h.saved i hi
  empty := h.empty

/-- A state right after the start: sound, nothing named and nothing open but the free map. -/
structure Started (s : Fs) : Prop where
  sound : Sound s []
  formatted : Formatted s.size s.disk s.freeMap
  opened : ∃ addr, OnlyMapOpen s addr (headerAt s.disk freeMapSector)

lemma Formatted.readBack {n : Nat}
    (h : Formatted size disk map) (hn : n = Bitmap.byteCnt map.bitCnt) : Formatted size disk
    (map.ofBytes (copy map.bytes 0 disk (sectorSize * (headerAt disk freeMapSector).start) n)) := by
  refine h.congr_map rfl fun i hi => ?_
  have hbyte := Bitmap.div_lt_byteCnt map.bitCnt_le hi
  rw [Bitmap.get_ofBytes _ _ hi, ← h.saved i hi, bitAt, bitAt,
    copy_inside _ _ _ (by omega) (by omega)]
  simp

lemma Formatted.started (h : Formatted s.size s.disk map)
    (hopen : OnlyMapOpen s addr (headerAt s.disk freeMapSector)) :
    Started ((s.spend j).setMap map) := by
  have hopen' : OnlyMapOpen ((s.spend j).setMap map) addr (headerAt s.disk freeMapSector) :=
    ⟨hopen.inodes, hopen.files, hopen.mapFile, hopen.fresh⟩
  exact ⟨Formatted.sound h hopen', h, addr, hopen'⟩

lemma freeMapOpen_reads (hinodes : s.openInodes = []) (hfiles : s.files = []) (hsize : 0 < s.size)
    (hcnt : s.freeMap.bitCnt = s.size) (hfits : Fits s.size (headerAt s.disk freeMapSector))
    (hlen : (headerAt s.disk freeMapSector).length = Bitmap.byteCnt s.size) :
    outcome freeMapOpen (fun _ t => ∃ k j, t = ((mapOpened s k).spend j).setMap
      (s.freeMap.ofBytes (copy s.freeMap.bytes 0 s.disk
        (sectorSize * (headerAt s.disk freeMapSector).start) (Bitmap.byteCnt s.freeMap.bitCnt))))
      (fun _ => ¬ s.HeapOk) s := by
  simp only [freeMapOpen, outcome_bind, outcome_get]
  refine outcome_mono (openFreeMapFile_outcome hinodes hfiles hsize) ?_ fun _ => id
  rintro _ t ⟨k, rfl, rfl⟩
  have hread := (onlyMapOpen_mapOpened s k).bitmapRead_spec hfits (b := s.freeMap)
    (by rw [hcnt]; exact hsize) (by rw [hlen, hcnt])
  refine outcome_mono (outcome_of_wp hread) ?_ fun _ => id
  rintro _ t ⟨j, n, rfl, hheap, rfl⟩
  simp only [outcome_modify]
  refine outcome_require (fun hall => ?_) fun hshort hok => hshort ?_
  · obtain rfl : n = Bitmap.byteCnt s.freeMap.bitCnt := of_decide_eq_true hall
    exact ⟨k, j, rfl⟩
  · simpa using hheap hok

lemma freeMapOpen_outcome (hinodes : s.openInodes = []) (hfiles : s.files = [])
    (h : Formatted s.size s.disk s.freeMap) : outcome freeMapOpen
      (fun _ t => Started t ∧ t.size = s.size ∧ t.heapOk = s.heapOk) (fun _ => ¬ s.HeapOk) s := by
  have hsize : 0 < s.size := by
    have := h.mapFits.extent_le
    have := h.mapStart
    omega
  obtain ⟨start, hhdr⟩ := h.mapHeader
  refine outcome_mono (freeMapOpen_reads hinodes hfiles hsize h.bitCnt_eq h.mapFits
    (by rw [hhdr]; rfl)) ?_ fun _ => id
  rintro _ t ⟨k, j, rfl⟩
  have hformat : Formatted (mapOpened s k).size (mapOpened s k).disk _ := h.readBack rfl
  exact ⟨hformat.started (onlyMapOpen_mapOpened s k), rfl, rfl⟩

lemma filesysInit_outcome (size : Nat) (disk : Memory) (heapOk : Nat → Bool)
    (garbage : Nat → Memory) : outcome (filesysInit true)
      (fun _ t => Started t ∧ t.size = size ∧ t.heapOk = heapOk)
      (fun _ => CannotStart (.unstarted size disk heapOk garbage))
      (.unstarted size disk heapOk garbage) := by
  simp only [filesysInit, outcome_bind, outcome_modify, if_true]
  refine outcome_mono (freeMapInit_outcome _) ?_ fun _ hbad =>
    hbad.imp_left fun hzero => hzero.trans_lt (by norm_num)
  rintro _ t ⟨k, map, rfl, hres⟩
  refine outcome_mono (doFormat_outcome rfl rfl rfl hres) ?_ fun _ => id
  rintro _ u ⟨hinodes, hfiles, hsize, hheap, hformat⟩
  refine outcome_mono (freeMapOpen_outcome hinodes hfiles hformat) ?_ ?_
  · rintro _ v ⟨hv, hsize', hheap'⟩
    exact ⟨hv, hsize'.trans hsize, hheap'.trans hheap⟩
  · intro _ hbad
    refine .inr (.inr fun hok => hbad ?_)
    simpa [Fs.HeapOk, hheap] using hok

lemma CannotStart.of_unstarted {size : Nat} {disk : Memory} {heapOk : Nat → Bool}
    {garbage : Nat → Memory} (h : CannotStart (.unstarted size disk heapOk garbage)) :
    size < 4 ∨ 2 ^ 32 - 32 < size ∨ ∃ n, heapOk n = false := by
  simpa [CannotStart, Fs.HeapOk, Fs.unstarted] using h

end Start

end Pintos.Filesys
