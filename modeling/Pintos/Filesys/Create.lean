import Pintos.Filesys.Root

/-!
# Creating a file

What `filesys_create` leaves behind when it succeeds and when it fails.  A
refused name costs the data extent of the new inode: the header sector is given
back, the extent is not.
-/

namespace Pintos.Filesys

open Foundation

variable {map : Bitmap} {header k start : Nat} {s₂ : Fs} {length : Int} {name : CString}

/-- `filesys_create` made a file of `length` zero bytes with its header in `header`. -/
structure Created (s t : Fs) (name : CString) (length : Int) (header slot : Nat) :
    Prop where
  valid : ValidName name
  slot_lt : slot < rootEntryCnt
  fresh : ¬ Live s header
  inUse : slotInUse t.disk slot
  sector : slotSector t.disk slot = header
  hasName : slotHasName t.disk slot name
  others : ∀ j < rootEntryCnt, j ≠ slot → SameSlot s.disk t.disk j
  length_eq : (headerAt t.disk header).length = length
  zero : ∀ a, InExtent (headerAt t.disk header) (a / sectorSize) → t.disk a = 0
  keeps : Keeps (Live s) (fun x => x = freeMapSector ∨ x = rootDirSector) s.disk t.disk
  free : s.HeapOk → ¬ slotInUse s.disk slot ∧ ∀ j, ¬ Binds s.disk name j

structure Leaked (map map' : Bitmap) (length : Int) (header start : Nat) : Prop where
  header_first : FirstFit map 1 header
  free : map.Run start (bytesToSectors length) false
  avoids : ¬ (start ≤ header ∧ header < start + bytesToSectors length)
  nonempty : 0 < bytesToSectors length
  marked : Marked map map' start (bytesToSectors length) true

lemma Marked.eq_of_empty {map' : Bitmap} {used : Bool}
    (h : Marked map map' start 0 used) : map' = map := by
  refine Bitmap.ext_get h.bitCnt_eq fun j _ => ?_
  rw [h.get_eq, if_neg (by omega)]

lemma Marked.skip {map₁ map₂ map₃ : Bitmap} {cnt : Nat}
    (h₁ : Marked map map₁ header 1 true) (h₂ : Marked map₁ map₂ start cnt true)
    (h₃ : Marked map₂ map₃ header 1 false) (hfree : map.get header = false)
    (hout : ¬ (start ≤ header ∧ header < start + cnt)) : Marked map map₃ start cnt true where
  bitCnt_eq := h₃.bitCnt_eq.trans (h₂.bitCnt_eq.trans h₁.bitCnt_eq)
  get_eq j := by
    rw [h₃.get_eq, h₂.get_eq, h₁.get_eq]
    by_cases hj : j = header
    · subst hj
      rw [if_pos (by omega), if_neg hout, hfree]
    · rw [if_neg (by omega), if_neg (show ¬ (header ≤ j ∧ j < header + 1) by omega)]

section Steps

variable {s t : Fs} {extra : List Nat}

lemma live_rootOpened (s : Fs) (k x : Nat) : Live (rootOpened s k) x ↔ Live s x := by
  constructor
  · rintro (hx | hx | hx | ⟨i, hi, hx⟩)
    · exact .inl hx
    · exact .inr (.inl hx)
    · exact .inr (.inr (.inl hx))
    rcases mem_cons.mp hi with rfl | hi
    · exact .inr (.inl hx.symm)
    · exact .inr (.inr (.inr ⟨i, hi, hx⟩))
  · rintro (hx | hx | hx | ⟨i, hi, hx⟩)
    · exact .inl hx
    · exact .inr (.inl hx)
    · exact .inr (.inr (.inl hx))
    · exact .inr (.inr (.inr ⟨i, mem_cons_of_mem _ hi, hx⟩))

lemma Sound.not_occupied_of_free (h : Sound s extra) {x y : Nat} (hx : Live s x)
    (hfree : s.freeMap.get y = false) : ¬ Occupies s.disk x y :=
  h.device.owned.not_occupied_of_unused hx (by simp [hfree])

lemma FirstFit.get_eq {sector : Nat} (h : FirstFit map 1 sector) :
    map.get sector = false := h.1.2 sector (le_refl _) (by omega)

lemma unnamed_of_create {s₀ s₁ : Fs}
    (h₀ : Sound s₀ extra) (h₁ : Evolves extra (· = freeMapSector) s₀ s₁)
    (h₂ : Evolves extra (· = freeMapSector) s₁ s₂) (hlo : 0 ≤ length) (hhi : length < 2 ^ 31)
    (hhdr : FirstFit s₀.freeMap 1 header) (hmark₁ : Marked s₀.freeMap s₁.freeMap header 1 true)
    (hstart : FirstFit s₁.freeMap (bytesToSectors length) start)
    (hmark₂ : Marked s₁.freeMap s₂.freeMap start (bytesToSectors length) true)
    (hdisk : headerAt s₂.disk header = ⟨start, length⟩) : Unnamed s₂ header := by
  have hsize : s₂.size = s₀.size := h₂.tables.size.trans h₁.tables.size
  have hreserved : s₁.freeMap.get header = true := by rw [hmark₁.get_eq, if_pos (by omega)]
  have hout : ¬ InExtent ⟨start, length⟩ header := by
    intro hin
    have := hstart.1.2 header hin.1 hin.2
    rw [hreserved] at this
    contradiction
  -- both the header and the extent were free before
  have hfree : ∀ y, Occupies s₂.disk header y → s₀.freeMap.get y = false := by
    rintro y (rfl | hin)
    · exact hhdr.get_eq
    rw [hdisk] at hin
    have hy := hstart.1.2 y hin.1 hin.2
    rw [hmark₁.get_eq] at hy
    split at hy
    · contradiction
    · exact hy
  have hcnt : s₁.freeMap.bitCnt = s₀.size := by rw [hmark₁.bitCnt_eq, h₀.device.bitCnt_eq]
  refine ⟨?_, ?_, ?_, ?_, ?_⟩
  · have := hhdr.1.1
    rw [h₀.device.bitCnt_eq] at this
    omega
  · rw [hdisk, hsize]
    exact ⟨h₀.device.size_le, hlo, hhi, hcnt ▸ hstart.1.1⟩
  · rw [hdisk]
    exact hout
  · rintro y (rfl | hin)
    · rw [hmark₂.get_eq]
      split
      · rfl
      · exact hreserved
    · rw [hdisk] at hin
      rw [hmark₂.get_eq, if_pos ⟨hin.1, hin.2⟩]
  · intro x y hx hoc hoc'
    have hx₁ := (h₂.live_iff h₁.sound (by decide) x).mp hx
    have hx₀ := (h₁.live_iff h₀ (by decide) x).mp hx₁
    refine h₀.not_occupied_of_free hx₀ (hfree y hoc) ?_
    simpa only [Occupies, h₂.keeps.header hx₁, h₁.keeps.header hx₀] using hoc'

structure Failed (s t : Fs) (name : CString) (length : Int) (header : Nat) : Prop where
  header_first : FirstFit s.freeMap 1 header
  outcome : (Marked s.freeMap t.freeMap header 1 true ∧
      (s.HeapOk → ∀ start, s.freeMap.Run start (bytesToSectors length) false →
        start ≤ header ∧ header < start + bytesToSectors length)) ∨
    (∃ map start, Marked s.freeMap map header 1 true ∧ FirstFit map (bytesToSectors length) start ∧
      Marked map t.freeMap start (bytesToSectors length) true ∧ (s.HeapOk → Refuses s.disk name))

lemma refuses_congr {disk disk' : Memory} (h : DirectoryOk disk) (h' : DirectoryOk disk')
    (hslot : ∀ j < rootEntryCnt, SameSlot disk disk' j)
    (href : Refuses disk' name) : Refuses disk name := by
  rcases href with hbad | ⟨j, hb⟩ | hfull
  · exact .inl hbad
  · exact .inr (.inl ⟨j, (binds_congr h h' (hslot j hb.1) name).mp hb⟩)
  · exact .inr (.inr fun i hi => (hslot i hi).inUse.mp (hfull i hi))

lemma created_of_add {i : Nat} (h : Sound s extra) (h₂ : Evolves extra (· = freeMapSector) s s₂)
    (hnew : Unnamed s₂ header) (hdisk : headerAt s₂.disk header = ⟨start, length⟩)
    (hzero : ∀ a, InExtent ⟨start, length⟩ (a / sectorSize) → s₂.disk a = 0)
    (hvalid : ValidName name) (hi : i < rootEntryCnt) (e : Memory)
    (hfree : s₂.HeapOk → ¬ slotInUse s₂.disk i ∧ ∀ j, ¬ Binds s₂.disk name j) : Created s
    ((s₂.spend k).setDisk (setSlot s₂.disk i (fillEntry e name header))) name length header i := by
  have hlt : header < 2 ^ 32 := by
    have hsize := h₂.sound.device.size_le
    have hhdr := hnew.header_lt
    omega
  have hslot := h.slots_of_keeps h₂.keeps (by decide)
  have hlive := h₂.live_iff h (by decide)
  have hch := changesOnly_setSlot h₂.sound hi (fillEntry e name header)
  -- the new inode shares no sector with the directory
  have hapart : ∀ y, Occupies s₂.disk header y →
      ¬ InExtent (headerAt s₂.disk rootDirSector) y := fun y ho hin =>
    hnew.alone rootDirSector y (live_root s₂) ho (.inr hin)
  have hhdr : headerAt (setSlot s₂.disk i (fillEntry e name header)) header = ⟨start, length⟩ :=
    (headerAt_of_changesOnly hch (hapart header (.inl rfl))).trans hdisk
  obtain ⟨huse, hsec, hname⟩ := addedSlot h₂.sound hi e hvalid hlt
  refine
    { valid := hvalid
      slot_lt := hi
      fresh := fun hx => hnew.not_live ((hlive header).mpr hx)
      inUse := huse
      sector := hsec
      hasName := hname
      others := fun j hj hne => (hslot j hj).trans (h₂.sound.setSlot_other hi _ hne)
      length_eq := by rw [Fs.setDisk_disk, hhdr]
      zero := fun a ha => ?_
      keeps := ?_
      free := fun hok => ?_ }
  · rw [Fs.setDisk_disk, hhdr] at ha
    rw [Fs.setDisk_disk, hch a (hapart _ (.inr (hdisk ▸ ha)))]
    exact hzero a ha
  · exact (h₂.keeps.mono fun _ => .inl).trans
      (((h₂.sound.keeps_setSlot hi _).mono fun _ => .inr).restrict fun x hx => (hlive x).mpr hx)
  · obtain ⟨hunused, hunbound⟩ := hfree (by simpa [Fs.HeapOk, h₂.tables.heapOk] using hok)
    refine ⟨fun hin => hunused ((hslot i hi).inUse.mpr hin), fun j hb => hunbound j ?_⟩
    exact (binds_congr h.device.directory h₂.sound.device.directory (hslot j hb.1) name).mpr hb

lemma createIn_spec (h : Sound s extra) {inode : Inode} (hroot : IsRoot s inode)
    (name : CString) (hlo : 0 ≤ length) (hhi : length < 2 ^ 31) :
    wp (createIn (some ⟨inode.addr⟩) (some name) length) (fun r t =>
        (∃ header slot, r = (true, header) ∧ Sound t extra ∧ SameTables s t ∧
          Created s t name length header slot ∧
          Allots s.freeMap [1, bytesToSectors length] t.freeMap) ∨
        (Evolves extra (· = freeMapSector) s t ∧ ((r = (false, 0) ∧ t.freeMap = s.freeMap ∧
              (s.HeapOk → ∀ i, ¬ s.freeMap.Run i 1 false)) ∨
            ∃ header, r = (false, header) ∧ Failed s t name length header))) s := by
  simp only [createIn, wp_bind]
  refine wp_mono (freeMapAllocate_sound h 1) ?_
  rintro r s₁ ⟨h₁, hsome, hnone⟩
  cases r with
  | none =>
    obtain ⟨hmap, hheap⟩ := hnone rfl
    exact .inr ⟨h₁, .inl ⟨rfl, hmap, fun hok => (hheap hok).2⟩⟩
  | some header =>
    obtain ⟨hfirst, hmark₁⟩ := hsome header rfl
    have hsize : header < s₁.size := by
      have hroom := hfirst.1.1
      rw [h.device.bitCnt_eq] at hroom
      rw [h₁.tables.size]
      omega
    have hidle : ∀ x, Live s₁ x → ¬ Occupies s₁.disk x header := by
      intro x hx ho
      have hx₀ := (h₁.live_iff h (by decide) x).mp hx
      refine h.not_occupied_of_free hx₀ hfirst.get_eq ?_
      simpa only [Occupies, h₁.keeps.header hx₀] using ho
    simp only [wp_bind]
    refine wp_mono (inodeCreate_sound h₁.sound hlo hhi hsize
      (by rw [hmark₁.get_eq, if_pos (by omega)]) hidle) ?_
    rintro r s₂ ⟨h₂, htrue, hfalse⟩
    have h₀₂ : Evolves extra (· = freeMapSector) s s₂ := (h₁.trans h (by decide) h₂).mono (by tauto)
    cases r with
    | false =>
      obtain ⟨hmap, hheap⟩ := hfalse rfl
      refine .inr ⟨h₀₂, .inr ⟨header, rfl, hfirst, .inl ⟨hmap ▸ hmark₁, ?_⟩⟩⟩
      intro hok start hrun
      by_contra hout
      refine (hheap (by simpa [Fs.HeapOk, h₁.tables.heapOk] using hok)).2 start ?_
      refine ⟨by rw [hmark₁.bitCnt_eq]; exact hrun.1, fun j hj hj' => ?_⟩
      rw [hmark₁.get_eq, if_neg (by omega)]
      exact hrun.2 j hj hj'
    | true =>
      obtain ⟨start, hstart, hmark₂, hdisk, hzero⟩ := htrue rfl
      have hnew := unnamed_of_create h h₁ h₂ hlo hhi hfirst hmark₁ hstart hmark₂ hdisk
      have hroot₂ : IsRoot s₂ inode := by
        rw [IsRoot, h₂.tables.openInodes, h₁.tables.openInodes]
        exact hroot
      simp only [if_true, wp_bind, wp_pure]
      refine wp_mono (dirAdd_spec h₂.sound hroot₂ name header) ?_
      rintro added t ⟨k, ⟨rfl, hvalid, i, e, hi, rfl, hfree⟩ | ⟨rfl, rfl, hrefuse⟩⟩
      · refine .inl ⟨header, i, rfl, h₂.sound.addName hi e hvalid hnew k, ?_,
          created_of_add h h₀₂ hnew hdisk hzero hvalid hi e hfree,
          .cons hfirst hmark₁ (.cons hstart hmark₂ (.nil _))⟩
        exact h₀₂.tables.trans ⟨rfl, rfl, rfl, rfl, rfl, le_refl _⟩
      · have h₀₃ : Evolves extra (· = freeMapSector) s (s₂.spend k) :=
          (h₀₂.trans h (by decide) (h₂.sound.spend (· = freeMapSector) k)).mono (by tauto)
        refine .inr ⟨h₀₃, .inr ⟨header, rfl, hfirst, .inr ⟨s₁.freeMap, start, hmark₁,
          hstart, hmark₂, fun hok => ?_⟩⟩⟩
        refine refuses_congr h.device.directory h₂.sound.device.directory
          (h.slots_of_keeps h₀₂.keeps (by decide)) (hrefuse ?_)
        simpa [Fs.HeapOk, h₀₂.tables.heapOk] using hok

def CannotCreate (s : Fs) (name : CString) (length : Int) : Prop :=
  Refuses s.disk name ∨ ∀ map, ¬ Allots s.freeMap [1, bytesToSectors length] map

lemma Failed.cannotCreate
    (h : Failed s t name length header) (hok : s.HeapOk) : CannotCreate s name length := by
  rcases h.outcome with ⟨hmark, hnone⟩ | ⟨_, _, -, -, -, hrefuse⟩
  · refine .inr fun map hallots => ?_
    cases hallots with
    | cons first marked rest =>
      obtain rfl := h.header_first.unique first
      obtain rfl := hmark.unique marked
      cases rest with
      | cons second _ _ =>
        -- the extent lies where the map was free before the header was taken
        have hrun := second.1
        have hfree : ∀ j, t.freeMap.get j = false → s.freeMap.get j = false := by
          intro j hj
          rw [hmark.get_eq] at hj
          split at hj
          · contradiction
          · exact hj
        have hin := hnone hok _ ⟨hmark.bitCnt_eq ▸ hrun.1, fun j hlo hhi =>
          hfree j (hrun.2 j hlo hhi)⟩
        have hhdr := hrun.2 header hin.1 hin.2
        rw [hmark.get_eq, if_pos (by omega)] at hhdr
        contradiction
  · exact .inl (hrefuse hok)

def CreateLeaks (s : Fs) (name : CString) (length : Int) : Prop :=
  0 < bytesToSectors length ∧ Refuses s.disk name ∧ ∃ header start, FirstFit s.freeMap 1 header ∧
      s.freeMap.Run start (bytesToSectors length) false ∧
      ¬ (start ≤ header ∧ header < start + bytesToSectors length)

def FailedMap (s t : Fs) (name : CString) (length : Int) : Prop :=
  (t.freeMap = s.freeMap ∧ (s.HeapOk → ¬ CreateLeaks s name length)) ∨ ∃ header start,
    Leaked s.freeMap t.freeMap length header start ∧ (s.HeapOk → Refuses s.disk name)

lemma Failed.release {u : Fs} (h : Failed s t name length header)
    (hmark : Marked t.freeMap u.freeMap header 1 false) : FailedMap s u name length := by
  have hfree := h.header_first.get_eq
  rcases h.outcome with ⟨hmark₁, hnone⟩ | ⟨map, start, hmark₁, hstart, hmark₂, hrefuse⟩
  · refine .inl ⟨hmark₁.undo hmark h.header_first.1, ?_⟩
    rintro hok ⟨-, -, header', start, hfirst, hrun, hout⟩
    rw [hfirst.unique h.header_first] at hout
    exact hout (hnone hok start hrun)
  have hreserved : map.get header = true := by rw [hmark₁.get_eq, if_pos (by omega)]
  have hout : ¬ (start ≤ header ∧ header < start + bytesToSectors length) := by
    rintro ⟨hlo, hhi⟩
    have := hstart.1.2 header hlo hhi
    rw [hreserved] at this
    contradiction
  have hskip := hmark₁.skip hmark₂ hmark hfree hout
  by_cases hcnt : 0 < bytesToSectors length
  · refine .inr ⟨header, start, ⟨h.header_first, ⟨?_, ?_⟩, hout, hcnt, hskip⟩, hrefuse⟩
    · rw [← hmark₁.bitCnt_eq]
      exact hstart.1.1
    · intro j hj hj'
      have := hstart.1.2 j hj hj'
      rwa [hmark₁.get_eq, if_neg (by omega)] at this
  · have hzero : bytesToSectors length = 0 := by omega
    rw [hzero] at hskip
    exact .inl ⟨hskip.eq_of_empty, fun _ hleak => hcnt hleak.1⟩

lemma Failed.get_header (h : Failed s t name length header) : t.freeMap.get header = true := by
  rcases h.outcome with ⟨hmark₁, -⟩ | ⟨map, start, hmark₁, -, hmark₂, -⟩
  · rw [hmark₁.get_eq, if_pos (by omega)]
  rw [hmark₂.get_eq]
  split
  · rfl
  · rw [hmark₁.get_eq, if_pos (by omega)]

lemma Failed.header_ne_zero (hs : Sound s extra) (h : Failed s t name length header) :
    header ≠ 0 := by
  rintro rfl
  exact hs.not_occupied_of_free (live_map s) h.header_first.get_eq (.inl rfl)

lemma releaseHeader_sound (hs : Sound s extra) (ht : Evolves extra (· = freeMapSector) s t)
    (h : Failed s t name length header) : wp (freeMapRelease header 1)
      (fun _ u => Evolves extra (· = freeMapSector) s u ∧ FailedMap s u name length) t := by
  refine wp_mono (freeMapRelease_sound ht.sound ⟨?_, ?_⟩ ?_) ?_
  · have hroom := h.header_first.1.1
    rw [hs.device.bitCnt_eq, ← ht.tables.size] at hroom
    rw [ht.sound.device.bitCnt_eq]
    exact hroom
  · intro j hj hj'
    rw [show j = header by omega]
    exact h.get_header
  · intro x y hx ho hy
    have hx' := (ht.live_iff hs (by decide) x).mp hx
    have hyheader : y = header := by omega
    refine hs.not_occupied_of_free hx' h.header_first.get_eq ?_
    simpa only [Occupies, ht.keeps.header hx', hyheader] using ho
  · rintro _ u ⟨hu, hmark⟩
    exact ⟨(ht.trans hs (by decide) hu.toEvolves).mono (by tauto), h.release hmark⟩

section

variable (h : Sound s [])

include h

lemma closeRoot_spec (ht : Sound t [s.nextAddress])
    (hst : SameTables (rootOpened s k) t) : wp (dirClose (some ⟨s.nextAddress⟩))
      (fun _ u => u = t.setInodes s.openInodes ∧ Sound u [] ∧ SameTables s u) t := by
  have hmem : newInode s rootDirSector ∈ t.openInodes := by
    rw [hst.openInodes]
    exact mem_cons_self
  refine wp_mono (dirClose_spec ht hmem rfl rfl) ?_
  rintro _ u ⟨rfl, hu⟩
  rw [h.closing_root hst] at hu ⊢
  refine ⟨rfl, hu, hst.size, hst.freeMapFile, rfl, hst.files, hst.heapOk, ?_⟩
  exact (Nat.le_succ _).trans hst.nextAddress

lemma filesysCreate_negative (name : CString) (hneg : length < 0) :
    outcome (filesysCreate (some name) length) (fun r t => r = false ∧ Sound t [] ∧ SameTables s t ∧
        Keeps (Live s) (· = freeMapSector) s.disk t.disk)
      (· = .assertion "length >= 0") s := by
  simp only [filesysCreate, outcome_bind]
  refine outcome_mono (outcome_of_wp (dirOpenRoot_spec h)) ?_ fun _ => id
  rintro dir s₀ (⟨k, rfl, rfl, -⟩ | ⟨rfl, -, h₀, hst, hdisk, -⟩)
  · simp only [createIn, outcome_bind]
    refine outcome_mono (outcome_of_wp (freeMapAllocate_sound (h.openRoot k) 1)) ?_ fun _ => id
    rintro r t ⟨ht, -, -⟩
    cases r with
    | none =>
      simp only [outcome_pure, ne_eq, not_true_eq_false, and_false, if_false, outcome_bind]
      refine outcome_of_wp (wp_mono (closeRoot_spec h ht.sound ht.tables) ?_)
      rintro _ u ⟨rfl, hu, hsu⟩
      exact ⟨trivial, hu, hsu, ht.keeps.restrict fun x hx => (live_rootOpened s k x).mpr hx⟩
    | some header =>
      simp only [inodeCreate, outcome_bind]
      exact outcome_require (fun hlo => by omega) fun _ => rfl
  · simp only [createIn, ne_eq, not_true_eq_false, and_false, if_false, dirClose,
      outcome_pure, outcome_bind]
    exact ⟨trivial, h₀, hst, hdisk ▸ .refl _ _ _⟩

lemma filesysCreate_sound (name : CString)
    (hlo : 0 ≤ length) (hhi : length < 2 ^ 31) : wp (filesysCreate (some name) length)
      (fun r t => Sound t [] ∧ SameTables s t ∧
        (r = true → ∃ header slot, Created s t name length header slot ∧
          Allots s.freeMap [1, bytesToSectors length] t.freeMap) ∧
        (r = false → Keeps (Live s) (· = freeMapSector) s.disk t.disk ∧
          FailedMap s t name length ∧ (s.HeapOk → CannotCreate s name length))) s := by
  simp only [filesysCreate, wp_bind]
  refine wp_mono (dirOpenRoot_spec h) ?_
  rintro dir s₀ (⟨k, rfl, rfl, -⟩ | ⟨rfl, hbad, h₀, hst, hdisk, hmap⟩)
  · have h₀ := h.openRoot k
    have hlive := live_rootOpened s k
    refine wp_mono (createIn_spec h₀ (isRoot_rootOpened s k) name hlo hhi) ?_
    rintro r t (⟨header, slot, rfl, ht, hst, hcreated, hallots⟩ |
      ⟨ht, ⟨rfl, hmap, hnone⟩ | ⟨header, rfl, hfailed⟩⟩)
    · simp only [not_true_eq_false, false_and, if_false, wp_bind, wp_pure]
      refine wp_mono (closeRoot_spec h ht hst) ?_
      rintro _ u ⟨rfl, hu, hsu⟩
      refine ⟨hu, hsu, fun _ => ⟨header, slot, ?_, hallots⟩, by simp⟩
      exact { hcreated with
        fresh := fun hx => hcreated.fresh ((hlive header).mpr hx)
        keeps := hcreated.keeps.restrict fun x hx => (hlive x).mpr hx }
    · simp only [ne_eq, not_true_eq_false, and_false, if_false, wp_bind, wp_pure]
      refine wp_mono (closeRoot_spec h ht.sound ht.tables) ?_
      rintro _ u ⟨rfl, hu, hsu⟩
      refine ⟨hu, hsu, by simp, fun _ => ⟨ht.keeps.restrict fun x hx => (hlive x).mpr hx,
        .inl ⟨hmap, ?_⟩, fun hok => .inr fun map hallots => ?_⟩⟩
      · rintro hok ⟨-, -, header, start, hfirst, -⟩
        exact hnone hok header hfirst.1
      · cases hallots with
        | cons first _ _ => exact hnone hok _ first.1
    · have hrelease : ¬ false = true ∧ header ≠ 0 := ⟨by simp, hfailed.header_ne_zero h₀⟩
      rw [if_pos hrelease]
      simp only [wp_bind, wp_pure]
      refine wp_mono (releaseHeader_sound h₀ ht hfailed) ?_
      rintro _ u ⟨hu, hmap⟩
      refine wp_mono (closeRoot_spec h hu.sound hu.tables) ?_
      rintro _ v ⟨rfl, hv, hsv⟩
      exact ⟨hv, hsv, by simp, fun _ => ⟨hu.keeps.restrict fun x hx => (hlive x).mpr hx, hmap,
        hfailed.cannotCreate⟩⟩
  · simp only [createIn, ne_eq, not_true_eq_false, and_false, if_false, dirClose, wp_pure]
    refine ⟨h₀, hst, by simp, fun _ => ⟨hdisk ▸ .refl _ _ _, .inl ⟨hmap, ?_⟩, ?_⟩⟩
    · exact fun hok => absurd hok hbad
    · exact fun hok => absurd hok hbad

lemma filesysCreate_spec (name : CString)
    (hlo : 0 ≤ length) (hhi : length < 2 ^ 31) : wp (filesysCreate (some name) length)
      (fun r t => Sound t [] ∧ SameTables s t ∧
        (r = true → ∃ header slot, Created s t name length header slot) ∧
        (r = false → Keeps (Live s) (· = freeMapSector) s.disk t.disk ∧
          FailedMap s t name length)) s := by
  refine wp_mono (filesysCreate_sound h name hlo hhi) ?_
  rintro r t ⟨ht, hst, htrue, hfalse⟩
  refine ⟨ht, hst, fun hr => ?_, fun hr => ⟨(hfalse hr).1, (hfalse hr).2.1⟩⟩
  obtain ⟨header, slot, hcreated, -⟩ := htrue hr
  exact ⟨header, slot, hcreated⟩

end

end Steps

end Pintos.Filesys
