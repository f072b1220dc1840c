import Pintos.Filesys.Filesys

/-!
# Who uses which sector

An inode occupies its header sector and its extent.  The inodes that count are
those of the free map and the root directory, those named by a directory entry
in use, and those that are open.  `Keeps` says that a change of the device
spares the headers of all of them and the data of all but some.
-/

namespace Pintos.Filesys

open Foundation

variable {header k : Nat} {P : Nat → Prop} {disk disk' : Memory} {name : CString}

def InExtent (data : InodeDisk) (sector : Nat) : Prop :=
  data.start ≤ sector ∧ sector < data.start + bytesToSectors data.length

def Occupies (disk : Memory) (header sector : Nat) : Prop :=
  sector = header ∨ InExtent (headerAt disk header) sector

/-! ## The entries of the root directory -/

def rootEntryCnt : Nat := 16

def slotAddress (disk : Memory) (k : Nat) : Nat :=
  sectorSize * (headerAt disk rootDirSector).start + dirEntrySize * k

def slotInUse (disk : Memory) (k : Nat) : Prop := entryInUse disk (slotAddress disk k) = true

def slotSector (disk : Memory) (k : Nat) : Nat := entrySector disk (slotAddress disk k)

def slotHasName (disk : Memory) (k : Nat) (name : CString) : Prop :=
  entryHasName disk (slotAddress disk k) name = true

def Named (disk : Memory) (header : Nat) : Prop :=
  ∃ k < rootEntryCnt, slotInUse disk k ∧ slotSector disk k = header

def Live (s : Fs) (header : Nat) : Prop :=
  header = freeMapSector ∨ header = rootDirSector ∨ Named s.disk header ∨
    ∃ inode ∈ s.openInodes, inode.sector = header

/-! ## Changes of the device -/

def ChangesOnly (P : Nat → Prop) (disk disk' : Memory) : Prop :=
  ∀ a, ¬ P (a / sectorSize) → disk' a = disk a

lemma div_sectorSize {sector : Nat} (hk : k < sectorSize) :
    (sectorSize * sector + k) / sectorSize = sector := by
  simp only [sectorSize] at hk ⊢
  omega

lemma ChangesOnly.refl (P : Nat → Prop) (disk : Memory) : ChangesOnly P disk disk := fun _ _ => rfl

lemma ChangesOnly.trans {disk'' : Memory}
    (h : ChangesOnly P disk disk') (h' : ChangesOnly P disk' disk'') :
    ChangesOnly P disk disk'' := fun a ha => (h' a ha).trans (h a ha)

lemma ChangesOnly.mono {Q : Nat → Prop}
    (h : ChangesOnly P disk disk') (hPQ : ∀ sector, P sector → Q sector) :
    ChangesOnly Q disk disk' := fun a ha => h a fun hp => ha (hPQ _ hp)

lemma changesOnly_copy (disk src : Memory) (start cnt s : Nat) {ofs n : Nat}
    (h : ofs + n ≤ sectorSize * cnt) :
    ChangesOnly (fun sector => start ≤ sector ∧ sector < start + cnt) disk
      (copy disk (sectorSize * start + ofs) src s n) := by
  intro a ha
  apply copy_outside
  simp only [sectorSize] at h ha ⊢
  omega

lemma headerAt_of_changesOnly (h : ChangesOnly P disk disk') (hout : ¬ P header) :
    headerAt disk' header = headerAt disk header := by
  apply InodeDisk.decode_congr
  intro k hk
  apply h
  rwa [div_sectorSize (by simp only [sectorSize]; omega)]

def SameFile (disk disk' : Memory) (header : Nat) : Prop :=
  headerAt disk' header = headerAt disk header ∧
    ∀ a, InExtent (headerAt disk header) (a / sectorSize) → disk' a = disk a

lemma bytesToSectors_root : bytesToSectors 320 = 1 := by decide

lemma inExtent_slot {j : Nat} (hlen : (headerAt disk rootDirSector).length = 320)
    (hk : k < rootEntryCnt) (hj : j < dirEntrySize) :
    InExtent (headerAt disk rootDirSector) ((slotAddress disk k + j) / sectorSize) := by
  simp only [InExtent, hlen, bytesToSectors_root, slotAddress, sectorSize,
    dirEntrySize, rootEntryCnt] at hk hj ⊢
  omega

/-- The entry at `a` and the entry at `a'` consist of the same bytes. -/
def SameEntry (m : Memory) (a : Nat) (m' : Memory) (a' : Nat) : Prop :=
  ∀ j < dirEntrySize, m' (a' + j) = m (a + j)

def ValidName (name : CString) : Prop := 0 < name.strlen ∧ name.strlen ≤ nameMax

namespace SameEntry

variable {m m' : Memory} {a a' : Nat} (h : SameEntry m a m' a')

include h

lemma trans {m'' : Memory} {a'' : Nat} (h' : SameEntry m' a' m'' a'') :
    SameEntry m a m'' a'' := fun j hj => (h' j hj).trans (h j hj)

lemma inUse : entryInUse m' a' = entryInUse m a := by
  simp only [entryInUse, h 19 (by simp [dirEntrySize])]

lemma sector : entrySector m' a' = entrySector m a :=
  word32_congr fun j hj => h j (by simp only [dirEntrySize]; omega)

lemma hasName (hname : ValidName name) : entryHasName m' a' name = entryHasName m a name := by
  have hlen := hname.2
  simp only [nameMax] at hlen
  refine name.sameAs_congr fun i hi => ?_
  have := h (4 + i) (by simp only [dirEntrySize]; omega)
  simpa [Nat.add_assoc] using this

end SameEntry

def SameSlot (disk disk' : Memory) (k : Nat) : Prop :=
  SameEntry disk (slotAddress disk k) disk' (slotAddress disk' k)

namespace SameSlot

variable (h : SameSlot disk disk' k)

include h

lemma inUse : slotInUse disk' k ↔ slotInUse disk k := by simp only [slotInUse, SameEntry.inUse h]

lemma sector : slotSector disk' k = slotSector disk k := SameEntry.sector h

lemma hasName (hname : ValidName name) : slotHasName disk' k name ↔ slotHasName disk k name := by
  simp only [slotHasName, SameEntry.hasName h hname]

end SameSlot

lemma SameFile.slot (h : SameFile disk disk' rootDirSector)
    (hlen : (headerAt disk rootDirSector).length = 320)
    (hk : k < rootEntryCnt) : SameSlot disk disk' k := by
  intro j hj
  have haddr : slotAddress disk' k = slotAddress disk k := by simp only [slotAddress, h.1]
  rw [haddr]
  exact h.2 _ (inExtent_slot hlen hk hj)

lemma named_congr (h : ∀ k < rootEntryCnt, SameSlot disk disk' k) (header : Nat) :
    Named disk' header ↔ Named disk header := by
  constructor
  · rintro ⟨k, hk, huse, hsec⟩
    exact ⟨k, hk, (h k hk).inUse.mp huse, (h k hk).sector ▸ hsec⟩
  · rintro ⟨k, hk, huse, hsec⟩
    exact ⟨k, hk, (h k hk).inUse.mpr huse, (h k hk).sector.trans hsec⟩

structure Keeps (live W : Nat → Prop) (disk disk' : Memory) : Prop where
  header : ∀ {h}, live h → headerAt disk' h = headerAt disk h
  data : ∀ {h}, live h → ¬ W h → ∀ a, InExtent (headerAt disk h) (a / sectorSize) → disk' a = disk a

namespace Keeps

variable {live W W' : Nat → Prop} {disk'' : Memory}

lemma refl (live W : Nat → Prop) (disk : Memory) : Keeps live W disk disk :=
  ⟨fun _ => rfl, fun _ _ _ _ => rfl⟩

section

variable (h : Keeps live W disk disk')

include h

lemma trans (h' : Keeps live W disk' disk'') : Keeps live W disk disk'' where
  header hl := (h'.header hl).trans (h.header hl)
  data hl hw a ha := (h'.data hl hw a (by rw [h.header hl]; exact ha)).trans (h.data hl hw a ha)

lemma mono (hW : ∀ x, W x → W' x) : Keeps live W' disk disk' :=
  ⟨h.header, fun hl hw a ha => h.data hl (fun hx => hw (hW _ hx)) a ha⟩

lemma restrict {live' : Nat → Prop} (hlive : ∀ x, live' x → live x) : Keeps live' W disk disk' :=
  ⟨fun hl => h.header (hlive _ hl), fun hl hw a ha => h.data (hlive _ hl) hw a ha⟩

lemma sameFile (hl : live header)
    (hw : ¬ W header) : SameFile disk disk' header := ⟨h.header hl, h.data hl hw⟩

end

lemma of_changesOnly (h : ChangesOnly P disk disk') (hhdr : ∀ x, live x → ¬ P x)
    (hdata : ∀ x, live x → ¬ W x → ∀ t, InExtent (headerAt disk x) t → ¬ P t) :
    Keeps live W disk disk' :=
  ⟨fun hl => headerAt_of_changesOnly h (hhdr _ hl), fun hl hw a ha => h a (hdata _ hl hw _ ha)⟩

end Keeps

end Pintos.Filesys
