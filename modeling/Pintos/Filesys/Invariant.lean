import Pintos.Filesys.Layout
import Pintos.Foundation.Ownership

/-!
# The invariant of the file system

`Sound s extra` holds between operations, with `extra` empty, and inside them,
where `extra` lists the references to open inodes that local variables hold.
-/

namespace Pintos.Filesys

open Foundation

structure DirectoryOk (disk : Memory) : Prop where
  length_eq : (headerAt disk rootDirSector).length = 320
  ordinary : ∀ k < rootEntryCnt, slotInUse disk k →
    slotSector disk k ≠ freeMapSector ∧ slotSector disk k ≠ rootDirSector
  distinct : ∀ j < rootEntryCnt, ∀ k < rootEntryCnt, slotInUse disk j →
    slotInUse disk k → slotSector disk j = slotSector disk k → j = k
  hasName : ∀ k < rootEntryCnt, slotInUse disk k → ∃ name, ValidName name ∧ slotHasName disk k name

/-- The inodes `live` have their sectors for themselves, and the map marks them. -/
structure SectorsOk (size : Nat) (disk : Memory) (map : Bitmap) (live : Nat → Prop) : Prop where
  size_le : size ≤ 2 ^ 32 - 32
  bitCnt_eq : map.bitCnt = size
  header_lt : ∀ {h}, live h → h < size
  fits : ∀ {h}, live h → Fits size (headerAt disk h)
  apart : ∀ {h}, live h → ¬ InExtent (headerAt disk h) h
  owned : Owned live (Occupies disk) (fun sector => map.get sector = true)

structure DeviceOk (size : Nat) (disk : Memory) (map : Bitmap)
    (live : Nat → Prop) : Prop where
  size_le : size ≤ 2 ^ 32 - 32
  bitCnt_eq : map.bitCnt = size
  header_lt : ∀ {h}, live h → h < size
  fits : ∀ {h}, live h → Fits size (headerAt disk h)
  apart : ∀ {h}, live h → ¬ InExtent (headerAt disk h) h
  owned : Owned live (Occupies disk) (fun sector => map.get sector = true)
  mapLength : (headerAt disk freeMapSector).length = Bitmap.byteCnt size
  directory : DirectoryOk disk

def references (s : Fs) (extra : List Nat) : List Nat := extra ++ s.files.map File.inode

structure TablesOk (s : Fs) (extra : List Nat) : Prop where
  counted : Counted Inode.addr Inode.openCnt s.openInodes (references s extra)
  sectors : (s.openInodes.map Inode.sector).Nodup
  files : (s.files.map File.addr).Nodup
  inodes_fresh : ∀ inode ∈ s.openInodes, inode.addr < s.nextAddress
  files_fresh : ∀ file ∈ s.files, file.addr < s.nextAddress
  handles : ∀ file ∈ s.files, 0 ≤ file.pos ∧ file.denyWrite = false
  ordinary : ∀ file ∈ s.files, ∀ inode ∈ s.openInodes, inode.addr = file.inode →
    inode.sector ≠ rootDirSector ∧ (inode.sector = freeMapSector → s.freeMapFile = some file.addr)

structure InodeOk (disk : Memory) (inode : Inode) : Prop where
  cached : inode.data = headerAt disk inode.sector
  writable : inode.denyWriteCnt = 0
  removed : inode.removed = true → ¬ Named disk inode.sector ∧
    inode.sector ≠ freeMapSector ∧ inode.sector ≠ rootDirSector

def MapSaved (disk : Memory) (map : Bitmap) : Prop :=
  ∀ i < map.bitCnt, bitAt disk (sectorSize * (headerAt disk freeMapSector).start) i = map.get i

structure Sound (s : Fs) (extra : List Nat) : Prop where
  device : DeviceOk s.size s.disk s.freeMap (Live s)
  tables : TablesOk s extra
  inodes : ∀ inode ∈ s.openInodes, InodeOk s.disk inode
  mapFile : ∃ file ∈ s.files, s.freeMapFile = some file.addr ∧
    ∃ inode ∈ s.openInodes, inode.addr = file.inode ∧ inode.sector = freeMapSector
  saved : s.HeapOk → MapSaved s.disk s.freeMap

/-! ## Live inodes -/

lemma live_map (s : Fs) : Live s freeMapSector := .inl rfl

lemma live_root (s : Fs) : Live s rootDirSector := .inr (.inl rfl)

lemma live_open {s : Fs} {inode : Inode} (h : inode ∈ s.openInodes) :
    Live s inode.sector := .inr (.inr (.inr ⟨inode, h, rfl⟩))

lemma live_named {s : Fs} {k : Nat} (hk : k < rootEntryCnt)
    (huse : slotInUse s.disk k) : Live s (slotSector s.disk k) :=
  .inr (.inr (.inl ⟨k, hk, huse, rfl⟩))

section Device

variable {size : Nat} {disk disk' : Memory} {map map' : Bitmap} {live W : Nat → Prop}

namespace SectorsOk

variable (h : SectorsOk size disk map live)

include h

lemma extent_disjoint {x y t : Nat} (hx : live x) (hy : live y) (hne : x ≠ y)
    (ht : InExtent (headerAt disk x) t) : ¬ InExtent (headerAt disk y) t := fun ht' =>
  hne (h.owned.owner_unique hx hy (.inr ht) (.inr ht'))

lemma header_not_inExtent {x y : Nat}
    (hx : live x) (hy : live y) : ¬ InExtent (headerAt disk x) y := by
  intro hin
  have heq : x = y := h.owned.owner_unique hx hy (.inr hin) (.inl rfl)
  exact h.apart hx (heq ▸ hin)

lemma keeps_of_extent {x : Nat}
    (hx : live x) (hch : ChangesOnly (InExtent (headerAt disk x)) disk disk') :
    Keeps live (· = x) disk disk' := by
  refine .of_changesOnly hch ?_ ?_
  · intro y hy
    exact h.header_not_inExtent hx hy
  · intro y hy hne t ht
    exact h.extent_disjoint hy hx hne ht

lemma keeps (hkeep : Keeps live W disk disk') (hcnt : map'.bitCnt = map.bitCnt)
    (hused : ∀ x t, live x → Occupies disk x t → map'.get t = true) :
    SectorsOk size disk' map' live := by
  have hocc : ∀ x t, live x → Occupies disk' x t → Occupies disk x t := by
    intro x t hx ho
    simpa only [Occupies, hkeep.header hx] using ho
  exact
    { size_le := h.size_le
      bitCnt_eq := hcnt.trans h.bitCnt_eq
      header_lt := h.header_lt
      fits := fun hx => by rw [hkeep.header hx]; exact h.fits hx
      apart := fun hx => by rw [hkeep.header hx]; exact h.apart hx
      owned :=
        { used_of_occupies := fun hx ho => hused _ _ hx (hocc _ _ hx ho)
          owner_unique := fun hx hy ho ho' =>
            h.owned.owner_unique hx hy (hocc _ _ hx ho) (hocc _ _ hy ho') } }

lemma restrict {live' : Nat → Prop}
    (hlive : ∀ x, live' x → live x) : SectorsOk size disk map live' where
  size_le := h.size_le
  bitCnt_eq := h.bitCnt_eq
  header_lt hx := h.header_lt (hlive _ hx)
  fits hx := h.fits (hlive _ hx)
  apart hx := h.apart (hlive _ hx)
  owned := h.owned.restrict hlive (fun _ _ _ ho => ho) (fun _ hu => hu)

end SectorsOk

lemma DeviceOk.sectors (h : DeviceOk size disk map live) : SectorsOk size disk map live :=
  ⟨h.size_le, h.bitCnt_eq, h.header_lt, h.fits, h.apart, h.owned⟩

lemma DeviceOk.of_sectors (h : SectorsOk size disk map live)
    (hlen : (headerAt disk freeMapSector).length = Bitmap.byteCnt size) (hdir : DirectoryOk disk) :
    DeviceOk size disk map live :=
  ⟨h.size_le, h.bitCnt_eq, h.header_lt, h.fits, h.apart, h.owned, hlen, hdir⟩

lemma DeviceOk.keeps_of_extent (h : DeviceOk size disk map live) {x : Nat}
    (hx : live x) (hch : ChangesOnly (InExtent (headerAt disk x)) disk disk') :
    Keeps live (· = x) disk disk' := h.sectors.keeps_of_extent hx hch

lemma DirectoryOk.congr (h : DirectoryOk disk)
    (hhdr : headerAt disk' rootDirSector = headerAt disk rootDirSector)
    (hslot : ∀ k < rootEntryCnt, SameSlot disk disk' k) : DirectoryOk disk' where
  length_eq := by rw [hhdr, h.length_eq]
  ordinary k hk huse := by
    rw [(hslot k hk).sector]
    exact h.ordinary k hk ((hslot k hk).inUse.mp huse)
  distinct j hj k hk huse huse' heq := by
    rw [(hslot j hj).sector, (hslot k hk).sector] at heq
    exact h.distinct j hj k hk ((hslot j hj).inUse.mp huse) ((hslot k hk).inUse.mp huse') heq
  hasName k hk huse := by
    obtain ⟨name, hvalid, hname⟩ := h.hasName k hk ((hslot k hk).inUse.mp huse)
    exact ⟨name, hvalid, ((hslot k hk).hasName hvalid).mpr hname⟩

lemma DeviceOk.keeps (h : DeviceOk size disk map live)
    (hkeep : Keeps live W disk disk') (hmap : live freeMapSector)
    (hroot : live rootDirSector) (hW : ¬ W rootDirSector) (hcnt : map'.bitCnt = map.bitCnt)
    (hused : ∀ x t, live x → Occupies disk x t → map'.get t = true) :
    DeviceOk size disk' map' live := by
  have hsecs := h.sectors.keeps hkeep hcnt hused
  have hslot : ∀ k < rootEntryCnt, SameSlot disk disk' k := fun k hk =>
    (hkeep.sameFile hroot hW).slot h.directory.length_eq hk
  exact .of_sectors hsecs (by rw [hkeep.header hmap, h.mapLength])
    (h.directory.congr (hkeep.header hroot) hslot)

end Device

/-! ## Changes that leave the tables alone -/

structure SameTables (s t : Fs) : Prop where
  size : t.size = s.size
  freeMapFile : t.freeMapFile = s.freeMapFile
  openInodes : t.openInodes = s.openInodes
  files : t.files = s.files
  heapOk : t.heapOk = s.heapOk
  nextAddress : s.nextAddress ≤ t.nextAddress

lemma SameTables.refl (s : Fs) : SameTables s s := ⟨rfl, rfl, rfl, rfl, rfl, le_refl _⟩

lemma SameTables.trans {s t u : Fs} (h : SameTables s t) (h' : SameTables t u) : SameTables s u :=
  ⟨h'.size.trans h.size, h'.freeMapFile.trans h.freeMapFile, h'.openInodes.trans h.openInodes,
    h'.files.trans h.files, h'.heapOk.trans h.heapOk, h.nextAddress.trans h'.nextAddress⟩

lemma TablesOk.congr {s t : Fs} {extra : List Nat} (h : TablesOk s extra)
    (hst : SameTables s t) : TablesOk t extra where
  counted := by
    simp only [references, hst.openInodes, hst.files]
    exact h.counted
  sectors := by rw [hst.openInodes]; exact h.sectors
  files := by rw [hst.files]; exact h.files
  inodes_fresh inode hi := (h.inodes_fresh inode (hst.openInodes ▸ hi)).trans_le hst.nextAddress
  files_fresh file hf := (h.files_fresh file (hst.files ▸ hf)).trans_le hst.nextAddress
  handles file hf := h.handles file (hst.files ▸ hf)
  ordinary file hf inode hi := by
    rw [hst.freeMapFile]
    exact h.ordinary file (hst.files ▸ hf) inode (hst.openInodes ▸ hi)

namespace Sound

variable {s t : Fs} {extra : List Nat} {W : Nat → Prop}

section

variable (h : Sound s extra)

include h

lemma slots_of_keeps {disk : Memory} (hkeep : Keeps (Live s) W s.disk disk)
    (hW : ¬ W rootDirSector) : ∀ k < rootEntryCnt, SameSlot s.disk disk k := fun _ hk =>
  (hkeep.sameFile (live_root s) hW).slot h.device.directory.length_eq hk

lemma live_iff_of_keeps (hst : SameTables s t) (hkeep : Keeps (Live s) W s.disk t.disk)
    (hW : ¬ W rootDirSector) (x : Nat) : Live t x ↔ Live s x := by
  simp only [Live, hst.openInodes, named_congr (h.slots_of_keeps hkeep hW)]

lemma keeps (hst : SameTables s t) (hkeep : Keeps (Live s) W s.disk t.disk)
    (hW : ¬ W rootDirSector) (hcnt : t.freeMap.bitCnt = s.freeMap.bitCnt)
    (hused : ∀ x sector, Live s x → Occupies s.disk x sector → t.freeMap.get sector = true)
    (hsaved : t.HeapOk → MapSaved t.disk t.freeMap) : Sound t extra := by
  have hlive : Live t = Live s := by
    funext x
    exact propext (h.live_iff_of_keeps hst hkeep hW x)
  refine ⟨?_, h.tables.congr hst, ?_, ?_, hsaved⟩
  · rw [hlive, hst.size]
    exact h.device.keeps hkeep (live_map s) (live_root s) hW hcnt hused
  · intro inode hi
    rw [hst.openInodes] at hi
    have hok := h.inodes inode hi
    refine ⟨by rw [hkeep.header (live_open hi)]; exact hok.cached, hok.writable, ?_⟩
    rw [named_congr (h.slots_of_keeps hkeep hW)]
    exact hok.removed
  · rw [hst.files, hst.freeMapFile, hst.openInodes]
    exact h.mapFile

lemma used {x sector : Nat} (hx : Live s x)
    (ho : Occupies s.disk x sector) : s.freeMap.get sector = true :=
  h.device.owned.used_of_occupies hx ho

lemma mapSaved_of_keeps (hst : SameTables s t)
    (hkeep : Keeps (Live s) W s.disk t.disk) (hW : ¬ W freeMapSector)
    (hmap : t.freeMap = s.freeMap) : t.HeapOk → MapSaved t.disk t.freeMap := by
  intro hok i hi
  have hfit := h.device.fits (live_map s)
  have hlen := length_le_bytesToSectors hfit.length_nonneg hfit.length_lt
  rw [h.device.mapLength] at hlen
  rw [hmap] at hi
  have hbyte : i / 8 < Bitmap.byteCnt s.size :=
    Bitmap.div_lt_byteCnt h.device.size_le (by rw [← h.device.bitCnt_eq]; exact hi)
  have hin : InExtent (headerAt s.disk freeMapSector)
      ((sectorSize * (headerAt s.disk freeMapSector).start + i / 8) / sectorSize) := by
    rw [← h.device.mapLength] at hlen
    simp only [InExtent, sectorSize]
    rw [h.device.mapLength] at hlen ⊢
    omega
  have hold := h.saved (by simpa [Fs.HeapOk, hst.heapOk] using hok) i hi
  rw [hkeep.header (live_map s), hmap, bitAt, hkeep.data (live_map s) hW _ hin]
  exact hold

lemma keepsData (hst : SameTables s t)
    (hkeep : Keeps (Live s) W s.disk t.disk) (hW : ¬ W rootDirSector)
    (hW' : ¬ W freeMapSector) (hmap : t.freeMap = s.freeMap) : Sound t extra := by
  refine h.keeps hst hkeep hW (by rw [hmap]) ?_ (h.mapSaved_of_keeps hst hkeep hW' hmap)
  intro x sector hx ho
  rw [hmap]
  exact h.used hx ho

lemma mapStore : MapStore s (some (headerAt s.disk freeMapSector)) := by
  obtain ⟨file, hfile, hptr, inode, hinode, haddr, hsec⟩ := h.mapFile
  have hdata : inode.data = headerAt s.disk freeMapSector := hsec ▸ (h.inodes inode hinode).cached
  rw [← hdata]
  refine .opened file inode hptr ((findAt_eq_some h.tables.files).mpr ⟨hfile, rfl⟩)
    ((findAt_eq_some h.tables.counted.nodup).mpr ⟨hinode, haddr⟩)
    (h.inodes inode hinode).writable ?_ ?_
  · rw [hdata]
    exact h.device.fits (live_map s)
  · rw [hdata, h.device.mapLength, h.device.bitCnt_eq]

end

end Sound

end Pintos.Filesys
