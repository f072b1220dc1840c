import Pintos.Filesys.Model

/-!
# The file system refines the model

`Located s a place` relates a state to a model: `place` gives the header sector
of each live file.  Every operation answers as the model does and keeps the two
related; the place of a file never changes while the file lives.
-/

namespace Pintos.Filesys

open Foundation

variable {header i n : Nat} {newPos pos : Int} {op : Op} {r : Result} {s t : Fs} {a : Model}

/-! ## The contents of a file -/

def contents (disk : Memory) (header : Nat) : List Byte :=
  (List.range (headerAt disk header).length.toNat).map fun i =>
    disk (sectorSize * (headerAt disk header).start + i)

section Contents

variable {disk disk' : Memory} {size : Nat}

lemma length_contents (disk : Memory) (header : Nat) :
    (contents disk header).length = (headerAt disk header).length.toNat := by
  simp [contents]

lemma getElem?_contents (disk : Memory) (header i : Nat) :
    (contents disk header)[i]? = if i < (headerAt disk header).length.toNat then
      some (disk (sectorSize * (headerAt disk header).start + i)) else none := by
  by_cases hi : i < (headerAt disk header).length.toNat
  · simp [contents, hi]
  · simp [contents, hi]

lemma Fits.inExtent {data : InodeDisk} (h : Fits size data) (hi : i < data.length.toNat) :
    InExtent data ((sectorSize * data.start + i) / sectorSize) := by
  have hlen := length_le_bytesToSectors h.length_nonneg h.length_lt
  simp only [InExtent, sectorSize]
  omega

lemma contents_of_sameFile (h : SameFile disk disk' header)
    (hfit : Fits size (headerAt disk header)) : contents disk' header = contents disk header := by
  rw [contents, contents, h.1]
  refine map_congr_left fun i hi => ?_
  exact h.2 _ (hfit.inExtent (mem_range.mp hi))

lemma contents_of_zero {length : Int} (hlen : (headerAt disk header).length = length)
    (hfit : Fits size (headerAt disk header))
    (hzero : ∀ a, InExtent (headerAt disk header) (a / sectorSize) → disk a = 0) :
    contents disk header = replicate length.toNat 0 := by
  refine List.eq_replicate_iff.mpr ⟨by rw [length_contents, hlen], fun b hb => ?_⟩
  obtain ⟨i, hi, rfl⟩ := mem_map.mp hb
  exact hzero _ (hfit.inExtent (mem_range.mp hi))

lemma count_contents (hfit : Fits size (headerAt disk header)) (n pos : Int) :
    Model.count (contents disk header) n pos = available (headerAt disk header) n pos := by
  have hlen := hfit.length_nonneg
  rw [Model.count, available, length_contents, Int.toNat_of_nonneg hlen]

lemma copy_contents (buffer : Memory)
    (hpos : 0 ≤ pos) (hn : pos + n ≤ (headerAt disk header).length ∨ n = 0) :
    copy buffer 0 disk (dataAddress (headerAt disk header) pos) n =
      copy buffer 0 (Model.image (contents disk header)) pos.toNat n := by
  refine copy_congr fun k hk => ?_
  have hin : pos.toNat + k < (headerAt disk header).length.toNat := by omega
  rw [Model.image, List.getD_eq_getElem?_getD, getElem?_contents, if_pos hin, dataAddress,
    Nat.add_assoc]
  rfl

lemma contents_write (buffer : Memory) (hhdr : headerAt disk' header = headerAt disk header)
    (hdisk : disk' = copy disk (dataAddress (headerAt disk header) pos) buffer 0 n) :
    contents disk' header = Model.overwrite (contents disk header) pos.toNat buffer n := by
  apply List.ext_getElem?
  intro i
  rw [Model.overwrite, List.getElem?_mapIdx, getElem?_contents, getElem?_contents, hhdr]
  by_cases hi : i < (headerAt disk header).length.toNat
  · rw [if_pos hi, if_pos hi, Option.map_some, hdisk, dataAddress]
    by_cases hin : pos.toNat ≤ i ∧ i < pos.toNat + n
    · rw [if_pos hin, copy_inside _ _ _ (by omega) (by omega)]
      congr 2
      omega
    · rw [if_neg hin, copy_outside _ _ _ (by omega)]
  · rw [if_neg hi, if_neg hi]
    rfl

end Contents

/-! ## The relation -/

structure Indexed (s : Fs) (a : Model) (place : Nat → Nat) : Prop where
  names : ∀ name x, (∃ i, Binds s.disk name i ∧ slotSector s.disk i = x) ↔
    ∃ file, a.names name = some file ∧ place file = x
  handles : ∀ handle x pos, ClientHandle s handle x pos ↔
    ∃ file, a.handles handle = some (file, pos) ∧ place file = x

structure Located (s : Fs) (a : Model) (place : Nat → Nat) : Prop where
  sound : Sound s []
  heap : s.HeapOk
  index : Indexed s a place
  injective : ∀ f g, a.Live f → a.Live g → place f = place g → f = g
  bytes : ∀ f, a.Live f → a.bytes f = contents s.disk (place f)
  below : ∀ f, a.Live f → f < a.next

section Relation

variable {b : Model} {place : Nat → Nat} {file handle : Nat}
variable {name : CString}

namespace Indexed

variable (h : Indexed s a place)

include h

lemma live (hs : Sound s []) (hf : a.Live file) :
    Live s (place file) ∧ place file ≠ rootDirSector ∧ place file ≠ freeMapSector := by
  rcases hf with ⟨name, hname⟩ | ⟨handle, pos, hhandle⟩
  · obtain ⟨i, hb, hsec⟩ := (h.names name _).mpr ⟨file, hname, rfl⟩
    have hordinary := hs.device.directory.ordinary i hb.1 hb.2.1
    rw [← hsec]
    exact ⟨live_named hb.1 hb.2.1, hordinary.2, hordinary.1⟩
  · have hc := (h.handles handle _ pos).mpr ⟨file, hhandle, rfl⟩
    obtain ⟨-, inode, -, hi, -, -, -, hsec, -, -, hroot, hmap, -⟩ := hs.handle hc
    exact ⟨hsec ▸ live_open hi, hroot, hmap⟩

lemma unbound (hnone : ∀ i, ¬ Binds s.disk name i) : a.names name = none := by
  cases hname : a.names name with
  | none => rfl
  | some file =>
    obtain ⟨i, hb, -⟩ := (h.names name _).mpr ⟨file, hname, rfl⟩
    exact absurd hb (hnone i)

lemma bound (hb : Binds s.disk name i) :
    ∃ file, a.names name = some file ∧ place file = slotSector s.disk i :=
  (h.names name _).mp ⟨i, hb, rfl⟩

lemma stale (hstale : StaleHandle s handle) : a.handles handle = none := by
  cases hhandle : a.handles handle with
  | none => rfl
  | some target =>
    have hc := (h.handles handle _ target.2).mpr ⟨target.1, hhandle, rfl⟩
    exact absurd hc (hstale _ _)

end Indexed

lemma Located.live (h : Located s a place) (hf : a.Live file) : Live s (place file) :=
  (h.index.live h.sound hf).1

lemma Located.fits (h : Located s a place) (hf : a.Live file) :
    Fits s.size (headerAt s.disk (place file)) :=
  h.sound.device.fits (h.live hf)

lemma Located.entry_unique (h : Located s a place) {j : Nat} (hi : Binds s.disk name i)
    (hj : Binds s.disk name j) : i = j := by
  obtain ⟨f, hf, hplace⟩ := h.index.bound hi
  obtain ⟨g, hg, hplace'⟩ := h.index.bound hj
  rw [hf] at hg
  cases hg
  exact h.sound.device.directory.distinct i hi.1 j hj.1 hi.2.1 hj.2.1 (hplace ▸ hplace')

lemma Indexed.names_congr (h : Indexed s a place) (hs : Sound s []) (ht : Sound t [])
    (hslots : ∀ j < rootEntryCnt, SameSlot s.disk t.disk j) (name : CString) (x : Nat) :
    (∃ i, Binds t.disk name i ∧ slotSector t.disk i = x) ↔
      ∃ file, a.names name = some file ∧ place file = x := by
  rw [← h.names name x]
  refine exists_congr fun i => ⟨?_, ?_⟩
  · rintro ⟨hb, hsec⟩
    have hslot := hslots i hb.1
    exact ⟨(binds_congr hs.device.directory ht.device.directory hslot name).mp hb,
      hslot.sector ▸ hsec⟩
  · rintro ⟨hb, hsec⟩
    have hslot := hslots i hb.1
    exact ⟨(binds_congr hs.device.directory ht.device.directory hslot name).mpr hb,
      hslot.sector.trans hsec⟩

lemma Located.next (h : Located s a place) (ht : Sound t []) (hheap : t.heapOk = s.heapOk)
    (hindex : Indexed t b place) (hlive : ∀ f, b.Live f → a.Live f) (hnext : b.next = a.next)
    (hbytes : ∀ f, b.Live f → b.bytes f = contents t.disk (place f)) : Located t b place where
  sound := ht
  heap n := by rw [hheap]; exact h.heap n
  index := hindex
  injective f g hf hg := h.injective f g (hlive f hf) (hlive g hg)
  bytes := hbytes
  below f hf := hnext ▸ h.below f (hlive f hf)

/-! ## One operation -/

namespace Indexed

variable (h : Indexed s a place)

include h

lemma handles_opened {handle : Nat} (hopened : Opened s t (some handle) (place file))
    (handle' x : Nat) (pos : Int) : ClientHandle t handle' x pos ↔
      ∃ f, (a.setHandle handle (some (file, 0))).handles handle' = some (f, pos) ∧ place f = x := by
  rw [hopened.handles, h.handles]
  by_cases hsame : handle' = handle
  · subst hsame
    have hnone : a.handles handle' = none := h.stale (hopened.fresh handle' rfl)
    simp only [hnone, Model.setHandle, update_self, some.injEq, Prod.mk.injEq]
    constructor
    · rintro (⟨f, hf, -⟩ | ⟨-, rfl, rfl⟩)
      · contradiction
      · exact ⟨file, ⟨rfl, rfl⟩, rfl⟩
    · rintro ⟨f, ⟨rfl, rfl⟩, rfl⟩
      exact .inr ⟨trivial, rfl, rfl⟩
  · have hother : ¬ handle = handle' := fun heq => hsame heq.symm
    simp [Model.setHandle, hsame, hother]

lemma handles_moved (hmoved : Moved s t handle (place file) newPos)
    (handle' x : Nat) (pos : Int) : ClientHandle t handle' x pos ↔ ∃ f,
    (a.setHandle handle (some (file, newPos))).handles handle' = some (f, pos) ∧ place f = x := by
  rw [hmoved, h.handles]
  by_cases hsame : handle' = handle
  · subst hsame
    simp only [Model.setHandle, update_self, some.injEq, Prod.mk.injEq]
    constructor
    · rintro (⟨hne, -⟩ | ⟨-, rfl, rfl⟩)
      · exact absurd rfl hne
      · exact ⟨file, ⟨rfl, rfl⟩, rfl⟩
    · rintro ⟨f, ⟨rfl, rfl⟩, rfl⟩
      exact .inr ⟨trivial, rfl, rfl⟩
  · simp [Model.setHandle, hsame]

lemma handles_closed (hclosed : ∀ handle' x pos, ClientHandle t handle' x pos ↔
      ClientHandle s handle' x pos ∧ handle' ≠ handle) (handle' x : Nat) (pos : Int) :
    ClientHandle t handle' x pos ↔
      ∃ f, (a.setHandle handle none).handles handle' = some (f, pos) ∧ place f = x := by
  rw [hclosed, h.handles]
  by_cases hsame : handle' = handle
  · simp [Model.setHandle, hsame]
  · simp [Model.setHandle, hsame]

lemma handles_same (hsame : SameHandles s t) (handle x : Nat) (pos : Int) :
    ClientHandle t handle x pos ↔ ∃ f, a.handles handle = some (f, pos) ∧ place f = x := by
  rw [hsame, h.handles]

end Indexed

section

variable (h : Located s a place) (ht : Sound t [])

include h ht

lemma Located.sameDevice (hdev : SameDevice s t)
    (hnames : b.names = a.names) (hbytes : b.bytes = a.bytes) (hnext : b.next = a.next)
    (hlive : ∀ f, b.Live f → a.Live f) (hhandles : ∀ handle x pos, ClientHandle t handle x pos ↔
      ∃ f, b.handles handle = some (f, pos) ∧ place f = x) : Located t b place := by
  refine h.next ht hdev.heapOk ⟨fun name x => ?_, hhandles⟩ hlive hnext fun f hf => ?_
  · rw [hdev.disk, hnames]
    exact h.index.names name x
  · rw [hdev.disk, hbytes]
    exact h.bytes f (hlive f hf)

lemma Located.open (hf : a.Live file) {handle : Nat}
    (hopened : Opened s t (some handle) (place file)) :
    Located t (a.setHandle handle (some (file, 0))) place := by
  refine h.sameDevice ht hopened.device rfl rfl rfl (fun f hf' => ?_)
    (h.index.handles_opened hopened)
  exact Model.live_setHandle (fun g pos heq => by cases heq; exact hf) hf'

lemma Located.move (hf : a.Live file)
    (hdev : SameDevice s t) (hmoved : Moved s t handle (place file) newPos) :
    Located t (a.setHandle handle (some (file, newPos))) place := by
  refine h.sameDevice ht hdev rfl rfl rfl (fun f hf' => ?_) (h.index.handles_moved hmoved)
  exact Model.live_setHandle (fun g pos heq => by cases heq; exact hf) hf'

lemma Located.keeps (hheap : t.heapOk = s.heapOk)
    (hkeep : Keeps (Live s) (· = freeMapSector) s.disk t.disk) (hsame : SameHandles s t) :
    Located t a place := by
  refine h.next ht hheap ⟨?_, h.index.handles_same hsame⟩ (fun _ => id) rfl fun f hf => ?_
  · exact h.index.names_congr h.sound ht (h.sound.slots_of_keeps hkeep (by decide))
  obtain ⟨hlive, -, hmap⟩ := h.index.live h.sound hf
  rw [h.bytes f hf, contents_of_sameFile (hkeep.sameFile hlive hmap) (h.fits hf)]

lemma Located.write (hheap : t.heapOk = s.heapOk)
    (hhandle : a.handles handle = some (file, pos)) {buffer : Memory}
    (hdisk : t.disk = copy s.disk (dataAddress (headerAt s.disk (place file)) pos) buffer 0 n)
    (hkeep : Keeps (Live s) (· = place file) s.disk t.disk)
    (hmoved : Moved s t handle (place file) (pos + n)) :
    Located t ((a.setBytes file (Model.overwrite (a.bytes file) pos.toNat buffer n)).setHandle
      handle (some (file, pos + n))) place := by
  have hf : a.Live file := .inr ⟨handle, pos, hhandle⟩
  obtain ⟨hlive, hroot, -⟩ := h.index.live h.sound hf
  have hlive' : ∀ f,
    ((a.setBytes file (Model.overwrite (a.bytes file) pos.toNat buffer n)).setHandle
      handle (some (file, pos + n))).Live f → a.Live f := fun f hf' =>
    Model.live_setHandle (fun g pos heq => by cases heq; exact hf) hf'
  refine h.next ht hheap ⟨?_, h.index.handles_moved hmoved⟩ hlive' rfl fun f hf' => ?_
  · exact h.index.names_congr h.sound ht (h.sound.slots_of_keeps hkeep (Ne.symm hroot))
  by_cases hsame : f = file
  · subst hsame
    simp only [Model.setHandle, Model.setBytes, update_self]
    rw [h.bytes f hf]
    exact (contents_write buffer (hkeep.header hlive) hdisk).symm
  have hf₀ := hlive' f hf'
  have hother : place f ≠ place file := fun heq => hsame (h.injective f file hf₀ hf heq)
  simp only [Model.setHandle, Model.setBytes, update_of_ne hsame]
  rw [h.bytes f hf₀, contents_of_sameFile (hkeep.sameFile (h.live hf₀) hother) (h.fits hf₀)]

lemma Located.close (hheap : t.heapOk = s.heapOk)
    (hkeep : Keeps (Live t) (· = freeMapSector) s.disk t.disk)
    (hclosed : ∀ handle' x pos, ClientHandle t handle' x pos ↔
      ClientHandle s handle' x pos ∧ handle' ≠ handle) :
    Located t (a.setHandle handle none) place := by
  have hslots : ∀ j < rootEntryCnt, SameSlot s.disk t.disk j := fun j hj =>
    (hkeep.sameFile (live_root t) (by decide)).slot h.sound.device.directory.length_eq hj
  have hlive : ∀ f, (a.setHandle handle none).Live f → a.Live f := fun f hf =>
    Model.live_setHandle (fun _ _ heq => by cases heq) hf
  have hindex : Indexed t (a.setHandle handle none) place :=
    ⟨h.index.names_congr h.sound ht hslots, h.index.handles_closed hclosed⟩
  refine h.next ht hheap hindex hlive rfl fun f hf => ?_
  obtain ⟨hlive', -, hmap⟩ := hindex.live ht hf
  have hf₀ := hlive f hf
  exact (h.bytes f hf₀).trans (contents_of_sameFile (hkeep.sameFile hlive' hmap) (h.fits hf₀)).symm

lemma Located.remove (hheap : t.heapOk = s.heapOk) (hrem : Removed s t name i)
    (hsame : SameHandles s t) :
    Located t (a.unbind name) place := by
  have hlive : ∀ f, (a.unbind name).Live f → a.Live f := fun f hf => Model.live_unbind hf
  have hdir := h.sound.device.directory
  have hbinds : ∀ name' j, Binds t.disk name' j ↔ Binds s.disk name' j ∧ j ≠ i := by
    intro name' j
    by_cases hj : j = i
    · subst hj
      simp only [ne_eq, not_true_eq_false, and_false, iff_false]
      exact fun hb => hrem.unused hb.2.1
    simp only [ne_eq, hj, not_false_eq_true, and_true]
    constructor
    · intro hb
      exact (binds_congr hdir ht.device.directory (hrem.others j hb.1 hj) name').mp hb
    · intro hb
      exact (binds_congr hdir ht.device.directory (hrem.others j hb.1 hj) name').mpr hb
  have hindex : Indexed t (a.unbind name) place := by
    refine ⟨fun name' x => ?_, h.index.handles_same hsame⟩
    by_cases hname : name' = name
    · subst hname
      simp only [Model.unbind, update_self, reduceCtorEq, false_and, exists_false, iff_false]
      rintro ⟨j, hb, -⟩
      obtain ⟨hb, hj⟩ := (hbinds name' j).mp hb
      exact hj (h.entry_unique hb hrem.binds)
    simp only [Model.unbind, update_of_ne hname]
    rw [← h.index.names name' x]
    refine exists_congr fun j => ⟨?_, ?_⟩
    · rintro ⟨hb, hsec⟩
      obtain ⟨hb, hj⟩ := (hbinds name' j).mp hb
      exact ⟨hb, (hrem.others j hb.1 hj).sector ▸ hsec⟩
    · rintro ⟨hb, hsec⟩
      have hj : j ≠ i := by
        rintro rfl
        exact hname (CString.eq_of_sameAs hb.2.2 hrem.binds.2.2)
      exact ⟨(hbinds name' j).mpr ⟨hb, hj⟩, (hrem.others j hb.1 hj).sector.trans hsec⟩
  refine h.next ht hheap hindex hlive rfl fun f hf => ?_
  obtain ⟨hlive', hroot, hmap⟩ := hindex.live ht hf
  have hf₀ := hlive f hf
  exact (h.bytes f hf₀).trans (contents_of_sameFile
    (hrem.keeps.sameFile hlive' (not_or.mpr ⟨hmap, hroot⟩)) (h.fits hf₀)).symm

end

section Create

variable {length : Int} {slot : Nat}

namespace Located

variable (h : Located s a place)

include h

lemma binds_created (ht : Sound t [])
    (hcreated : Created s t name length header slot) (name' : CString) (i x : Nat) :
    Binds t.disk name' i ∧ slotSector t.disk i = x ↔ (name' = name ∧ i = slot ∧ x = header) ∨
        (name' ≠ name ∧ Binds s.disk name' i ∧ slotSector s.disk i = x) := by
  obtain ⟨hunused, hunbound⟩ := hcreated.free h.heap
  by_cases hi : i = slot
  · subst hi
    constructor
    · rintro ⟨hb, rfl⟩
      exact .inl ⟨CString.eq_of_sameAs hb.2.2 hcreated.hasName, rfl, hcreated.sector⟩
    · rintro (⟨rfl, -, rfl⟩ | ⟨-, hb, -⟩)
      · exact ⟨⟨hcreated.slot_lt, hcreated.inUse, hcreated.hasName⟩, hcreated.sector⟩
      · exact absurd hb.2.1 hunused
  constructor
  · rintro ⟨hb, hsec⟩
    have hslot := hcreated.others i hb.1 hi
    have hb' := (binds_congr h.sound.device.directory ht.device.directory hslot name').mp hb
    refine .inr ⟨?_, hb', hslot.sector ▸ hsec⟩
    rintro rfl
    exact hunbound i hb'
  · rintro (⟨-, rfl, -⟩ | ⟨-, hb, hsec⟩)
    · exact absurd rfl hi
    have hslot := hcreated.others i hb.1 hi
    exact ⟨(binds_congr h.sound.device.directory ht.device.directory hslot name').mpr hb,
      hslot.sector.trans hsec⟩

lemma place_old (header : Nat) (hf : a.Live file) : update place a.next header file = place file :=
  update_of_ne (h.below file hf).ne _ _

lemma index_created (ht : Sound t []) (hst : SameTables s t)
    (hcreated : Created s t name length header slot) :
    Indexed t (a.create name length.toNat) (update place a.next header) := by
  constructor
  · intro name' x
    simp only [h.binds_created ht hcreated]
    by_cases hname : name' = name
    · subst hname
      simp [Model.create, eq_comm]
    simp only [hname, false_and, ne_eq, not_false_eq_true, true_and, false_or, Model.create,
      update_of_ne hname]
    rw [h.index.names name' x]
    refine exists_congr fun f => and_congr_right fun hf => ?_
    rw [h.place_old header (.inl ⟨name', hf⟩)]
  · intro handle x pos
    rw [sameHandles_of_tables hst, h.index.handles]
    refine exists_congr fun f => and_congr_right fun hf => ?_
    rw [h.place_old header (.inr ⟨handle, pos, hf⟩)]

lemma create (ht : Sound t []) (hst : SameTables s t)
    (hcreated : Created s t name length header slot) :
    Located t (a.create name length.toNat) (update place a.next header) where
  sound := ht
  heap n := by rw [hst.heapOk]; exact h.heap n
  index := h.index_created ht hst hcreated
  injective f g hf hg heq := by
    have hnew : ∀ f, a.Live f → place f ≠ header := fun f hf heq => hcreated.fresh (heq ▸ h.live hf)
    rcases Model.live_create hf with rfl | hf <;> rcases Model.live_create hg with rfl | hg
    · rfl
    · rw [update_self, h.place_old header hg] at heq
      exact absurd heq.symm (hnew g hg)
    · rw [update_self, h.place_old header hf] at heq
      exact absurd heq (hnew f hf)
    · rw [h.place_old header hf, h.place_old header hg] at heq
      exact h.injective f g hf hg heq
  bytes f hf := by
    rcases Model.live_create hf with rfl | hf
    · have hnamed : Live t header := hcreated.sector ▸ live_named hcreated.slot_lt hcreated.inUse
      simp only [Model.create, update_self]
      exact (contents_of_zero hcreated.length_eq (ht.device.fits hnamed) hcreated.zero).symm
    obtain ⟨hlive, hroot, hmap⟩ := h.index.live h.sound hf
    simp only [Model.create, update_of_ne (h.below f hf).ne]
    rw [h.bytes f hf, contents_of_sameFile
      (hcreated.keeps.sameFile hlive (not_or.mpr ⟨hmap, hroot⟩)) (h.fits hf)]
  below f hf := by
    rcases Model.live_create hf with rfl | hf
    · exact Nat.lt_succ_self _
    · exact (h.below f hf).trans (Nat.lt_succ_self _)

end Located

end Create

lemma Indexed.illegal (h : Indexed s a place) (hop : Illegal s op) : a.Illegal op := by
  cases op with
  | create name initialSize => exact hop
  | «open» name => exact hop
  | reopen handle => exact h.stale hop
  | read handle buffer size => exact h.stale hop
  | write handle buffer size => exact h.stale hop
  | seek handle newPos => exact hop.imp h.stale id
  | remove name => exact hop
  | close handle => exact h.stale hop

lemma Located.opened {r : Option Nat} (h : Located s a place)
    (hopened : Opened s t r header) : ∃ handle, r = some handle ∧ a.handles handle = none := by
  cases r with
  | none => exact absurd rfl (hopened.heap h.heap)
  | some handle => exact ⟨handle, rfl, h.index.stale (hopened.fresh handle rfl)⟩

lemma Located.count_eq (h : Located s a place) (hf : a.Live file) {size : Int}
    (hprogress : Progress s (headerAt s.disk (place file)) size pos n) :
    n = Model.count (a.bytes file) size pos := by
  rw [h.bytes file hf, count_contents (h.fits hf), hprogress.full h.heap]

end Relation

def Refines (s : Fs) (a : Model) : Prop := ∃ place, Located s a place

lemma Effect.refines (effect : Effect s t op r) (h : Refines s a)
    (ht : Sound t []) (hheap : t.heapOk = s.heapOk) : ∃ b, a.Step op r b ∧ Refines t b := by
  obtain ⟨place, h⟩ := h
  cases effect with
  | create tables made =>
    rename_i name initialSize header slot
    have hunbound := h.index.unbound (made.free h.heap).2
    have hnonneg : 0 ≤ initialSize.1 := by
      rw [← made.length_eq]
      exact (ht.device.fits (made.sector ▸ live_named made.slot_lt made.inUse)).length_nonneg
    exact ⟨_, .create hunbound hnonneg, _, h.create ht tables made⟩
  | createFailed tables keeps =>
    exact ⟨a, .createFailed, place, h.keeps ht hheap keeps (sameHandles_of_tables tables)⟩
  | «open» bound opened =>
    obtain ⟨file, hname, hplace⟩ := h.index.bound bound
    obtain ⟨handle, rfl, hfresh⟩ := h.opened opened
    exact ⟨_, .open hname hfresh, place, h.open ht (.inl ⟨_, hname⟩) (hplace ▸ opened)⟩
  | openFailed device handles unbound =>
    refine ⟨a, .openFailed (h.index.unbound (unbound h.heap)), place, ?_⟩
    exact h.sameDevice ht device rfl rfl rfl (fun _ => id) (h.index.handles_same handles)
  | reopen handle_ok opened =>
    obtain ⟨file, hhandle, rfl⟩ := (h.index.handles _ _ _).mp handle_ok
    obtain ⟨handle', rfl, hfresh⟩ := h.opened opened
    exact ⟨_, .reopen hhandle hfresh, place, h.open ht (.inr ⟨_, _, hhandle⟩) opened⟩
  | read handle_ok device progress moved =>
    obtain ⟨file, hhandle, rfl⟩ := (h.index.handles _ _ _).mp handle_ok
    have hf : a.Live file := .inr ⟨_, _, hhandle⟩
    obtain ⟨-, -, -, -, -, -, -, -, -, -, -, -, hpos⟩ := h.sound.handle handle_ok
    have hle := progress.le
    refine ⟨_, ?_, place, h.move ht hf device moved⟩
    rw [copy_contents _ hpos (by simp only [available] at hle; omega), ← h.bytes file hf]
    exact .read hhandle (h.count_eq hf progress)
  | write handle_ok progress disk live keeps moved =>
    obtain ⟨file, hhandle, rfl⟩ := (h.index.handles _ _ _).mp handle_ok
    exact ⟨_, .write hhandle (h.count_eq (.inr ⟨_, _, hhandle⟩) progress), place,
      h.write ht hheap hhandle disk keeps moved⟩
  | seek handle_ok device nonneg moved =>
    obtain ⟨file, hhandle, rfl⟩ := (h.index.handles _ _ _).mp handle_ok
    exact ⟨_, .seek hhandle nonneg, place, h.move ht (.inr ⟨_, _, hhandle⟩) device moved⟩
  | remove handles removed =>
    obtain ⟨file, hname, -⟩ := h.index.bound removed.binds
    exact ⟨_, .remove hname, place, h.remove ht hheap removed handles⟩
  | removeFailed device handles unbound =>
    refine ⟨a, .removeFailed (h.index.unbound (unbound h.heap)), place, ?_⟩
    exact h.sameDevice ht device rfl rfl rfl (fun _ => id) (h.index.handles_same handles)
  | close handle_ok live keeps handles =>
    obtain ⟨file, hhandle, -⟩ := (h.index.handles _ _ _).mp handle_ok
    exact ⟨_, .close hhandle, place, h.close ht hheap keeps handles⟩

lemma runOp_refines (h : Refines s a) (op : Op) :
    outcome (runOp op) (fun r t => ∃ b, a.Step op r b ∧ Refines t b) (fun _ => a.Illegal op) s := by
  obtain ⟨place, hloc⟩ := h
  refine outcome_mono (runOp_outcome hloc.sound op) ?_ ?_
  · rintro r t ⟨ht, hheap, heffect⟩
    exact heffect.refines ⟨place, hloc⟩ ht hheap
  · rintro fault ⟨-, hillegal⟩
    exact hloc.index.illegal hillegal

lemma Started.refines (h : Started s) (hok : s.HeapOk) : Refines s .empty := by
  obtain ⟨addr, hopen⟩ := h.opened
  refine ⟨fun _ => 0, h.sound, hok, ⟨fun name x => ?_, fun handle x pos => ?_⟩, ?_, ?_, ?_⟩
  · simp only [Model.empty, reduceCtorEq, false_and, exists_false, iff_false]
    rintro ⟨i, hb, -⟩
    exact h.formatted.not_inUse hb.1 hb.2.1
  · simp only [Model.empty, reduceCtorEq, false_and, exists_false, iff_false]
    rintro ⟨hclient, file, hf, rfl, -⟩
    rw [hopen.files, mem_singleton] at hf
    rw [hf] at hclient
    exact hclient hopen.mapFile
  all_goals simp [Model.Live, Model.empty]

/-! ## Other files -/

def FileLive (s : Fs) (header : Nat) : Prop :=
  Named s.disk header ∨ ∃ handle pos, ClientHandle s handle header pos

def WritesTo (s : Fs) (op : Op) (header : Nat) : Prop :=
  ∃ handle buffer size pos, op = .write handle buffer size ∧ ClientHandle s handle header pos

lemma Sound.fileLive (h : Sound s []) (hf : FileLive s header) :
    Live s header ∧ header ≠ rootDirSector ∧ header ≠ freeMapSector := by
  rcases hf with ⟨i, hi, huse, rfl⟩ | ⟨handle, pos, hc⟩
  · have hordinary := h.device.directory.ordinary i hi huse
    exact ⟨live_named hi huse, hordinary.2, hordinary.1⟩
  · obtain ⟨-, inode, -, hi, -, -, -, rfl, -, -, hroot, hmap, -⟩ := h.handle hc
    exact ⟨live_open hi, hroot, hmap⟩

lemma Effect.keeps_others (effect : Effect s t op r)
    (h : Sound s []) (ht : Sound t []) (hs : FileLive s header) (hlive : FileLive t header)
    (hwrite : ¬ WritesTo s op header) : contents t.disk header = contents s.disk header := by
  obtain ⟨hx, hroot, hmap⟩ := h.fileLive hs
  obtain ⟨hx', -, -⟩ := ht.fileLive hlive
  have hfit := h.device.fits hx
  cases effect with
  | create tables made =>
    exact contents_of_sameFile (made.keeps.sameFile hx (not_or.mpr ⟨hmap, hroot⟩)) hfit
  | createFailed tables keeps => exact contents_of_sameFile (keeps.sameFile hx hmap) hfit
  | «open» bound opened => rw [opened.device.disk]
  | openFailed device handles unbound => rw [device.disk]
  | reopen handle_ok opened => rw [opened.device.disk]
  | read handle_ok device progress moved => rw [device.disk]
  | write handle_ok progress disk live keeps moved =>
    refine contents_of_sameFile (keeps.sameFile hx ?_) hfit
    rintro rfl
    exact hwrite ⟨_, _, _, _, rfl, handle_ok⟩
  | seek handle_ok device nonneg moved => rw [device.disk]
  | remove handles removed =>
    exact contents_of_sameFile (removed.keeps.sameFile hx' (not_or.mpr ⟨hmap, hroot⟩)) hfit
  | removeFailed device handles unbound => rw [device.disk]
  | close handle_ok live keeps handles => exact contents_of_sameFile (keeps.sameFile hx' hmap) hfit

lemma run_refines (size : Nat) (disk : Memory) (garbage : Nat → Memory) (ops : List Op) :
    outcome (filesysInit true) (fun _ started => outcome (runAll runOp ops)
        (fun results s => ∃ a, Steps Model.Step .empty ops results a ∧ Refines s a)
        (fun _ => StopsAt Model.Step Model.Illegal .empty ops) started)
      (fun _ => size < 4 ∨ 2 ^ 32 - 32 < size) (.unstarted size disk (fun _ => true) garbage) := by
  refine outcome_mono (filesysInit_outcome size disk _ garbage) ?_ ?_
  · rintro _ started ⟨hstarted, -, hheap⟩
    exact runAll_simulates (R := Refines) (fun op s a h => runOp_refines h op) ops
      (hstarted.refines fun n => by rw [hheap])
  · rintro _ (hsmall | hlarge | hheap)
    · exact .inl hsmall
    · exact .inr hlarge
    · exact absurd (fun _ => rfl) hheap

/-- Every sequence of operations on a formatted device answers as the model does. -/
theorem run_refines_model (size : Nat) (disk : Memory) (garbage : Nat → Memory) (ops : List Op) :
    outcome (filesysInit true) (fun _ started => outcome (runAll runOp ops)
        (fun results s => (∃ a, Steps Model.Step .empty ops results a ∧ Refines s a) ∧
          ∀ op, outcome (runOp op) (fun _ t => ∀ header, FileLive s header → FileLive t header →
              ¬ WritesTo s op header → contents t.disk header = contents s.disk header)
            (fun _ => Illegal s op) s)
        (fun _ => StopsAt Model.Step Model.Illegal .empty ops) started)
      (fun _ => size < 4 ∨ 2 ^ 32 - 32 < size) (.unstarted size disk (fun _ => true) garbage) := by
  refine outcome_mono (run_refines size disk garbage ops) ?_ fun _ => id
  intro _ started hrun
  refine outcome_mono hrun ?_ fun _ => id
  rintro results s ⟨a, hsteps, place, hloc⟩
  refine ⟨⟨a, hsteps, place, hloc⟩, fun op => ?_⟩
  refine outcome_mono (runOp_outcome hloc.sound op) ?_ fun _ hbad => hbad.2
  rintro r t ⟨ht, -, heffect⟩ header hs hlive hwrite
  exact heffect.keeps_others hloc.sound ht hs hlive hwrite

end Pintos.Filesys
