import Pintos.Filesys.Handles

/-!
# Operations on the root directory

Every call of the file system interface opens the root directory, works on it
and closes it again.  Between calls the root directory is not open, so opening
it adds one inode to the list and closing it takes that inode away.
-/

namespace Pintos.Filesys

open Foundation

variable {i j k x : Nat}

section Bracket

variable {s t : Fs}

lemma Sound.root_not_open (h : Sound s []) : ∀ i ∈ s.openInodes, i.sector ≠ rootDirSector := by
  intro i hi
  obtain ⟨file, hf, haddr⟩ := mem_map.mp (h.mem_references hi)
  exact (h.tables.ordinary file hf i hi haddr.symm).1

def rootOpened (s : Fs) (k : Nat) : Fs :=
  (s.spend k).bump.setInodes (newInode s rootDirSector :: s.openInodes)

@[simp] lemma spend_rootOpened (s : Fs) (j k : Nat) :
    (rootOpened s j).spend k = rootOpened s (j + k) := by
  simp [rootOpened, Fs.spend, Fs.bump, Fs.setInodes, Nat.add_assoc]

lemma Sound.openRoot (h : Sound s []) (k : Nat) : Sound (rootOpened s k) [s.nextAddress] :=
  (h.spend (fun _ => False) k).sound.push (live_root _) h.root_not_open

lemma isRoot_rootOpened (s : Fs) (k : Nat) : IsRoot (rootOpened s k) (newInode s rootDirSector) :=
  ⟨mem_cons_self, rfl⟩

lemma Sound.nextAddress_not_referenced (h : Sound s []) :
    s.nextAddress ∉ s.files.map File.inode := by
  intro hmem
  obtain ⟨i, hi, haddr⟩ := h.tables.counted.present _ hmem
  exact (h.tables.inodes_fresh i hi).ne haddr

lemma Sound.closing_root (h : Sound s []) (hst : SameTables (rootOpened s k) t) :
    closing t [] s.nextAddress = s.openInodes := by
  have hlast : s.nextAddress ∉ references t [] := by
    simp only [references, hst.files]
    exact h.nextAddress_not_referenced
  have hkeep : ∀ i ∈ s.openInodes, decide (i.addr ≠ s.nextAddress) = true :=
    fun i hi => by simpa using (h.tables.inodes_fresh i hi).ne
  rw [closing, if_neg hlast, hst.openInodes]
  simp only [rootOpened, Fs.setInodes_openInodes, removeAt, filter_cons]
  rw [List.filter_eq_self.mpr hkeep]
  simp [newInode]

/-- The two allocations of `dir_open_root` succeed. -/
def RootOpens (s : Fs) : Prop :=
  s.heapOk s.allocations = true ∧ s.heapOk (s.allocations + 1) = true

lemma dirOpenRoot_spec (h : Sound s []) : wp dirOpenRoot (fun r t =>
        (∃ k, r = some ⟨s.nextAddress⟩ ∧ t = rootOpened s k ∧ RootOpens s) ∨
        (r = none ∧ ¬ s.HeapOk ∧ Sound t [] ∧ SameTables s t ∧ t.disk = s.disk ∧
          t.freeMap = s.freeMap)) s := by
  simp only [dirOpenRoot, wp_bind]
  refine wp_mono (inodeOpen_wp h.tables.counted.nodup (h.device.header_lt (live_root s))) ?_
  rintro r t (⟨i, hi, hsec, -⟩ | ⟨-, hfirst, rfl, rfl⟩ | ⟨rfl, hbad, rfl⟩)
  · exact absurd hsec (h.root_not_open i hi)
  · have hstate : ((s.spend 1).bump.setInodes
        (newInode s rootDirSector :: s.openInodes)).spend 1 = rootOpened s 2 := rfl
    simp only [dirOpen, wp_bind, wp_malloc, hstate]
    split
    · rename_i inode _ heq hgrant
      cases heq
      exact .inl ⟨2, rfl, rfl, hfirst, hgrant⟩
    rename_i inode granted hnot
    have hdenied : ¬ s.HeapOk := fun hok => hnot _ rfl (hok _)
    simp only [wp_bind]
    refine wp_mono (inodeClose_sound (h.openRoot 2) (isRoot_rootOpened s 2).1 rfl) ?_
    rintro _ u ⟨hevolves, hexact⟩
    have hsound := hevolves.sound
    rw [hexact (.inl rfl), h.closing_root (.refl (rootOpened s 2))] at hsound ⊢
    exact .inr ⟨rfl, hdenied, hsound, ⟨rfl, rfl, rfl, rfl, rfl, Nat.le_succ _⟩, rfl, rfl⟩
  · simp only [dirOpen, wp_bind, wp_malloc, inodeClose, wp_pure]
    exact .inr ⟨trivial, hbad, (h.spend (fun _ => False) 2).sound,
      ⟨rfl, rfl, rfl, rfl, rfl, le_refl _⟩, rfl, rfl⟩

lemma dirClose_spec {addr : Nat} {inode : Inode} (h : Sound t [addr])
    (hi : inode ∈ t.openInodes) (haddr : inode.addr = addr) (hrem : inode.removed = false) : wp
    (dirClose (some ⟨addr⟩)) (fun _ u => u = t.setInodes (closing t [] addr) ∧ Sound u []) t := by
  simp only [dirClose]
  refine wp_mono (inodeClose_sound h hi haddr) ?_
  rintro _ u ⟨hevolves, hexact⟩
  exact ⟨hexact (.inl hrem), hevolves.sound⟩

end Bracket

/-! ## Adding a name -/

def Refuses (disk : Memory) (name : CString) : Prop :=
  ¬ ValidName name ∨ (∃ j, Binds disk name j) ∨ ∀ i < rootEntryCnt, slotInUse disk i

section Add

variable {s : Fs} {extra : List Nat} {inode : Inode} {name : CString} {sector : Nat}

lemma dirAdd_spec (h : Sound s extra) (hroot : IsRoot s inode) (name : CString) (sector : Nat) :
    wp (dirAdd ⟨inode.addr⟩ (some name) sector) (fun r t => ∃ k,
        (r = true ∧ ValidName name ∧ ∃ i e, i < rootEntryCnt ∧
          t = (s.spend k).setDisk (setSlot s.disk i (fillEntry e name sector)) ∧
          (s.HeapOk → ¬ slotInUse s.disk i ∧ ∀ j, ¬ Binds s.disk name j)) ∨
        (r = false ∧ t = s.spend k ∧ (s.HeapOk → Refuses s.disk name))) s := by
  simp only [dirAdd, requireName, wp_bind, wp_pure, wp_ite]
  by_cases hbad : name.strlen = 0 ∨ name.strlen > nameMax
  · rw [if_pos hbad]
    refine ⟨0, .inr ⟨trivial, rfl, fun _ => .inl fun hvalid => ?_⟩⟩
    have hlo := hvalid.1
    have hhi := hvalid.2
    omega
  rw [if_neg hbad]
  have hvalid : ValidName name := ⟨by omega, by omega⟩
  refine wp_mono (lookup_spec h hroot name) ?_
  rintro r t ⟨k, rfl, hsome, hnone⟩
  cases r with
  | some found =>
    obtain ⟨j, -, hb, -⟩ := hsome found.1 found.2 rfl
    exact ⟨k, .inr ⟨rfl, rfl, fun _ => .inr (.inl ⟨j, hb⟩)⟩⟩
  | none =>
    have h' := (h.spend (fun _ => False) k).sound
    simp only [uninitialised, wp_bind, wp_get, wp_pure, wp_getInode (h'.getInode_root hroot)]
    refine wp_mono (freeSlotLoop_spec h hroot _ k) ?_
    rintro ⟨e, ofs⟩ u ⟨k', i, rfl, hofs, hi, hfree⟩
    dsimp only at hofs
    subst hofs
    refine wp_mono (writeEntry_spec (h.spend (fun _ => False) k').sound hroot _ hi) ?_
    rintro written v ⟨k'', ⟨rfl, hlt, rfl⟩ | ⟨hwr, rfl, hend⟩⟩
    · refine ⟨k' + k'', .inl ⟨by simp, hvalid, i, e, hlt, ?_, fun hok => ?_⟩⟩
      · simp [setSlot]
      · exact ⟨(hfree hok).2 hlt, hnone rfl hok⟩
    · refine ⟨k' + k'', .inr ⟨by simpa using hwr, by simp, fun hok => .inr (.inr ?_)⟩⟩
      intro j hj
      exact (hfree hok).1 j (by rw [hend hok]; exact hj)

structure Unnamed (s : Fs) (sector : Nat) : Prop where
  header_lt : sector < s.size
  fits : Fits s.size (headerAt s.disk sector)
  apart : ¬ InExtent (headerAt s.disk sector) sector
  used : ∀ y, Occupies s.disk sector y → s.freeMap.get y = true
  alone : ∀ x y, Live s x → Occupies s.disk sector y → ¬ Occupies s.disk x y

lemma Unnamed.not_live (h : Unnamed s sector) : ¬ Live s sector := fun hlive =>
  h.alone sector sector hlive (.inl rfl) (.inl rfl)

lemma binds_congr {disk disk' : Memory} (h : DirectoryOk disk) (h' : DirectoryOk disk')
    (hslot : SameSlot disk disk' j) (name : CString) :
    Binds disk' name j ↔ Binds disk name j := by
  constructor
  · intro hb
    exact ⟨hb.1, hslot.inUse.mp hb.2.1, (hslot.hasName (h'.valid hb)).mp hb.2.2⟩
  · intro hb
    exact ⟨hb.1, hslot.inUse.mpr hb.2.1, (hslot.hasName (h.valid hb)).mpr hb.2.2⟩

section Entry

variable (h : Sound s extra) (hi : i < rootEntryCnt) (e : Memory) (hvalid : ValidName name)
  (hlt : sector < 2 ^ 32)

include h hi hvalid hlt

lemma addedSlot : slotInUse (setSlot s.disk i (fillEntry e name sector)) i ∧
      slotSector (setSlot s.disk i (fillEntry e name sector)) i = sector ∧
      slotHasName (setSlot s.disk i (fillEntry e name sector)) i name := by
  have hsame := h.setSlot_same hi (fillEntry e name sector)
  refine ⟨?_, ?_, ?_⟩
  · exact hsame.inUse.trans (entryInUse_fillEntry e hvalid sector)
  · exact hsame.sector.trans (entrySector_fillEntry e name hlt)
  · exact (hsame.hasName hvalid).trans (entryHasName_fillEntry e hvalid sector)

lemma named_added (hx : Named (setSlot s.disk i (fillEntry e name sector)) x) :
    x = sector ∨ Named s.disk x := by
  obtain ⟨j, hj, huse, hsec⟩ := hx
  by_cases hne : j = i
  · subst hne
    exact .inl (hsec.symm.trans (addedSlot h hi e hvalid hlt).2.1)
  · have hslot := h.setSlot_other hi (fillEntry e name sector) hne
    exact .inr ⟨j, hj, hslot.inUse.mp huse, hslot.sector ▸ hsec⟩

lemma live_added (hx : Live ((s.spend k).setDisk (setSlot s.disk i (fillEntry e name sector))) x) :
    x = sector ∨ Live s x := by
  rcases hx with hx | hx | hx | hx
  · exact .inr (.inl hx)
  · exact .inr (.inr (.inl hx))
  · rcases named_added h hi e hvalid hlt hx with heq | hold
    · exact .inl heq
    · exact .inr (.inr (.inr (.inl hold)))
  · exact .inr (.inr (.inr (.inr hx)))

lemma directoryOk_added (hnew : Unnamed s sector) :
    DirectoryOk (setSlot s.disk i (fillEntry e name sector)) := by
  obtain ⟨huse, hsec, hname⟩ := addedSlot h hi e hvalid hlt
  have hdir := h.device.directory
  have hother : ∀ j, j ≠ i → SameSlot s.disk (setSlot s.disk i (fillEntry e name sector)) j :=
    fun j hne => h.setSlot_other hi _ hne
  -- the new header is not the header of an entry that was there before
  have hfresh : ∀ j < rootEntryCnt, slotInUse s.disk j → slotSector s.disk j ≠ sector :=
    fun j hj hj' heq => hnew.not_live (heq ▸ live_named hj hj')
  refine ⟨?_, ?_, ?_, ?_⟩
  · rw [(h.keeps_setSlot hi _).header (live_root s)]
    exact hdir.length_eq
  · intro j hj hjuse
    by_cases hne : j = i
    · rw [hne, hsec]
      exact ⟨fun heq => hnew.not_live (heq ▸ live_map s),
        fun heq => hnew.not_live (heq ▸ live_root s)⟩
    · rw [(hother j hne).sector]
      exact hdir.ordinary j hj ((hother j hne).inUse.mp hjuse)
  · intro j hj l hl hjuse hluse heq
    by_cases hji : j = i <;> by_cases hli : l = i
    · rw [hji, hli]
    · rw [hji, hsec, (hother l hli).sector] at heq
      exact absurd heq.symm (hfresh l hl ((hother l hli).inUse.mp hluse))
    · rw [hli, hsec, (hother j hji).sector] at heq
      exact absurd heq (hfresh j hj ((hother j hji).inUse.mp hjuse))
    · rw [(hother j hji).sector, (hother l hli).sector] at heq
      exact hdir.distinct j hj l hl ((hother j hji).inUse.mp hjuse)
        ((hother l hli).inUse.mp hluse) heq
  · intro j hj hjuse
    by_cases hne : j = i
    · exact ⟨name, hvalid, hne ▸ hname⟩
    obtain ⟨stored, hstored, hold⟩ := hdir.hasName j hj ((hother j hne).inUse.mp hjuse)
    exact ⟨stored, hstored, ((hother j hne).hasName hstored).mpr hold⟩

lemma deviceOk_added (hnew : Unnamed s sector) (k : Nat) :
    DeviceOk s.size (setSlot s.disk i (fillEntry e name sector)) s.freeMap
      (Live ((s.spend k).setDisk (setSlot s.disk i (fillEntry e name sector)))) := by
  have hkeep := h.keeps_setSlot hi (fillEntry e name sector)
  have hhdr : headerAt (setSlot s.disk i (fillEntry e name sector)) sector =
      headerAt s.disk sector :=
    headerAt_of_changesOnly (changesOnly_setSlot h hi _) fun hin =>
      hnew.alone rootDirSector sector (live_root s) (.inl rfl) (.inr hin)
  have hocc : ∀ x y, (x = sector ∨ Live s x) →
      Occupies (setSlot s.disk i (fillEntry e name sector)) x y → Occupies s.disk x y := by
    rintro x y (rfl | hx) ho
    · simpa only [Occupies, hhdr] using ho
    · simpa only [Occupies, hkeep.header hx] using ho
  have hlive := fun x => live_added (x := x) h hi e hvalid hlt (k := k)
  refine
    { size_le := h.device.size_le
      bitCnt_eq := h.device.bitCnt_eq
      header_lt := fun {x} hx => ?_
      fits := fun {x} hx => ?_
      apart := fun {x} hx => ?_
      owned := ?_
      mapLength := by rw [hkeep.header (live_map s)]; exact h.device.mapLength
      directory := directoryOk_added h hi e hvalid hlt hnew }
  · rcases hlive x hx with rfl | hx
    · exact hnew.header_lt
    · exact h.device.header_lt hx
  · rcases hlive x hx with rfl | hx
    · rw [hhdr]
      exact hnew.fits
    · rw [hkeep.header hx]
      exact h.device.fits hx
  · rcases hlive x hx with rfl | hx
    · rw [hhdr]
      exact hnew.apart
    · rw [hkeep.header hx]
      exact h.device.apart hx
  · exact h.device.owned.claim sector hlive (fun x y hx hne ho => hocc x y (hlive x hx) ho)
      (fun x y hx ho => hnew.alone x y hx (hocc sector y (.inl rfl) ho))
      (fun y ho => hnew.used y (hocc sector y (.inl rfl) ho)) fun _ hu => hu

end Entry

lemma Sound.writeSlot (h : Sound s extra) (hi : i < rootEntryCnt) (e : Memory) (k : Nat)
    (hdev : DeviceOk s.size (setSlot s.disk i e) s.freeMap
      (Live ((s.spend k).setDisk (setSlot s.disk i e))))
    (hremoved : ∀ inode ∈ s.openInodes, Named (setSlot s.disk i e) inode.sector →
      inode.removed = true → Named s.disk inode.sector) :
    Sound ((s.spend k).setDisk (setSlot s.disk i e)) extra := by
  have hkeep := h.keeps_setSlot hi e
  have hst : SameTables s ((s.spend k).setDisk (setSlot s.disk i e)) :=
    ⟨rfl, rfl, rfl, rfl, rfl, le_refl _⟩
  refine ⟨hdev, h.tables.congr hst, ?_, h.mapFile, h.mapSaved_of_keeps hst hkeep (by decide) rfl⟩
  intro i' hi'
  have hok := h.inodes i' hi'
  refine ⟨?_, hok.writable, fun hrem => ⟨fun hnamed => ?_, (hok.removed hrem).2⟩⟩
  · rw [Fs.setDisk_disk, hkeep.header (live_open hi')]
    exact hok.cached
  · exact (hok.removed hrem).1 (hremoved i' hi' hnamed hrem)

lemma Sound.addName (h : Sound s extra) (hi : i < rootEntryCnt) (e : Memory)
    (hvalid : ValidName name) (hnew : Unnamed s sector) (k : Nat) :
    Sound ((s.spend k).setDisk (setSlot s.disk i (fillEntry e name sector))) extra := by
  have hlt : sector < 2 ^ 32 := by
    have hsize := h.device.size_le
    have hhdr := hnew.header_lt
    omega
  refine h.writeSlot hi _ k (deviceOk_added h hi e hvalid hlt hnew k) ?_
  intro inode hmem hnamed _
  rcases named_added h hi e hvalid hlt hnamed with heq | hold
  · exact absurd (heq ▸ live_open hmem) hnew.not_live
  · exact hold

end Add

/-! ## Removing a name -/

section Clear

variable {s : Fs} {extra : List Nat} {inode : Inode} {e : Memory}

variable (h : Sound s extra) (hi : i < rootEntryCnt) (he : entryInUse e 0 = false)

include h hi he

lemma clearedSlot : ¬ slotInUse (setSlot s.disk i e) i := by
  rw [slotInUse, (h.setSlot_same hi e).inUse, he]
  simp

lemma slot_of_cleared (huse : slotInUse (setSlot s.disk i e) j) :
    j ≠ i ∧ SameSlot s.disk (setSlot s.disk i e) j := by
  have hne : j ≠ i := by
    rintro rfl
    exact clearedSlot h hi he huse
  exact ⟨hne, h.setSlot_other hi e hne⟩

lemma named_cleared (hx : Named (setSlot s.disk i e) x) :
    Named s.disk x ∧ (slotInUse s.disk i → slotSector s.disk i ≠ x) := by
  obtain ⟨j, hj, huse, hsec⟩ := hx
  obtain ⟨hne, hslot⟩ := slot_of_cleared h hi he huse
  rw [hslot.sector] at hsec
  have huse' := hslot.inUse.mp huse
  refine ⟨⟨j, hj, huse', hsec⟩, fun hiuse heq => hne ?_⟩
  exact h.device.directory.distinct j hj i hi huse' hiuse (hsec.trans heq.symm)

lemma directoryOk_cleared : DirectoryOk (setSlot s.disk i e) := by
  have hdir := h.device.directory
  refine ⟨?_, ?_, ?_, ?_⟩
  · rw [(h.keeps_setSlot hi e).header (live_root s)]
    exact hdir.length_eq
  · intro j hj huse
    obtain ⟨-, hslot⟩ := slot_of_cleared h hi he huse
    rw [hslot.sector]
    exact hdir.ordinary j hj (hslot.inUse.mp huse)
  · intro j hj l hl huse huse' heq
    obtain ⟨-, hslot⟩ := slot_of_cleared h hi he huse
    obtain ⟨-, hslot'⟩ := slot_of_cleared h hi he huse'
    rw [hslot.sector, hslot'.sector] at heq
    exact hdir.distinct j hj l hl (hslot.inUse.mp huse) (hslot'.inUse.mp huse') heq
  · intro j hj huse
    obtain ⟨-, hslot⟩ := slot_of_cleared h hi he huse
    obtain ⟨stored, hvalid, hstored⟩ := hdir.hasName j hj (hslot.inUse.mp huse)
    exact ⟨stored, hvalid, (hslot.hasName hvalid).mpr hstored⟩

lemma live_cleared (hx : Live ((s.spend k).setDisk (setSlot s.disk i e)) x) : Live s x := by
  rcases hx with hx | hx | hx | hx
  · exact .inl hx
  · exact .inr (.inl hx)
  · exact .inr (.inr (.inl (named_cleared h hi he hx).1))
  · exact .inr (.inr (.inr hx))

lemma Sound.clearName (k : Nat) : Sound ((s.spend k).setDisk (setSlot s.disk i e)) extra := by
  have hkeep := h.keeps_setSlot hi e
  have hlive := fun x => live_cleared h hi he (k := k) (x := x)
  refine h.writeSlot hi e k ?_ fun i' _ hnamed _ => (named_cleared h hi he hnamed).1
  exact
    { size_le := h.device.size_le
      bitCnt_eq := h.device.bitCnt_eq
      header_lt := fun hx => h.device.header_lt (hlive _ hx)
      fits := fun hx => by rw [hkeep.header (hlive _ hx)]; exact h.device.fits (hlive _ hx)
      apart := fun hx => by rw [hkeep.header (hlive _ hx)]; exact h.device.apart (hlive _ hx)
      owned := h.device.owned.restrict hlive (fun x y hx ho => by
        simpa only [Occupies, hkeep.header (hlive x hx)] using ho) fun _ hu => hu
      mapLength := by rw [hkeep.header (live_map s)]; exact h.device.mapLength
      directory := directoryOk_cleared h hi he }

end Clear

end Pintos.Filesys
