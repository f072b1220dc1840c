import Pintos.Filesys.Storage

/-!
# Finding and writing directory entries

The loops of `lookup` and `dir_add`, which are one scan for the first slot that
passes a test, over the root directory, and what a written entry changes.  An
entry never crosses a sector boundary, so it is read and written completely or not
at all.
-/

namespace Pintos.Filesys

open Foundation

variable {disk : Memory} {name : CString} {i : Nat}

def Binds (disk : Memory) (name : CString) (i : Nat) : Prop :=
  i < rootEntryCnt ∧ slotInUse disk i ∧ slotHasName disk i name

lemma DirectoryOk.valid (h : DirectoryOk disk) (hb : Binds disk name i) : ValidName name := by
  obtain ⟨stored, hvalid, hstored⟩ := h.hasName i hb.1 hb.2.1
  exact CString.eq_of_sameAs hstored hb.2.2 ▸ hvalid

lemma DirectoryOk.match_iff {e : Memory} (h : DirectoryOk disk) (name : CString)
    (hi : i < rootEntryCnt) (he : SameEntry disk (slotAddress disk i) e 0) :
    (entryInUse e 0 = true ∧ entryHasName e 0 name = true) ↔ Binds disk name i := by
  constructor
  · rintro ⟨huse, hname⟩
    have huse' : slotInUse disk i := he.inUse.symm.trans huse
    obtain ⟨stored, hvalid, hstored⟩ := h.hasName i hi huse'
    have hcopy : entryHasName e 0 stored = true := by
      rw [he.hasName hvalid]
      exact hstored
    exact ⟨hi, huse', CString.eq_of_sameAs hcopy hname ▸ hstored⟩
  · intro hb
    refine ⟨he.inUse.trans hb.2.1, ?_⟩
    rw [he.hasName (h.valid hb)]
    exact hb.2.2

/-! ## Scanning -/

def scanLoop (inode : Inode) (test : Memory → Bool) :
    Nat → Memory → Nat → FsAction (Memory × Nat × Bool)
  | 0, e, ofs => pure (e, ofs, false)
  | fuel + 1, e, ofs => do
    let (bytesRead, e) ← inodeReadAt inode e dirEntrySize ofs
    if bytesRead = dirEntrySize then
      if test e then return (e, ofs, true)
      else scanLoop inode test fuel e (ofs + dirEntrySize)
    else return (e, ofs, false)

section Scan

variable {s : Fs} {inode : Inode} {e : Memory} {fuel ofs : Nat}

lemma wp_lookupLoop {name : CString} {Q : Option (Memory × Nat) → Fs → Prop}
    (h : wp (scanLoop inode (fun e => entryInUse e 0 && entryHasName e 0 name) fuel e ofs)
      (fun r t => Q (if r.2.2 then some (r.1, r.2.1) else none) t) s) :
    wp (lookupLoop inode name fuel e ofs) Q s := by
  induction fuel generalizing e ofs s with
  | zero => exact h
  | succ fuel ih =>
    simp only [lookupLoop, scanLoop, wp_bind] at h ⊢
    refine wp_mono h ?_
    rintro ⟨bytesRead, e'⟩ t ht
    by_cases hbytes : bytesRead = dirEntrySize
    · by_cases hfound : entryInUse e' 0 = true ∧ entryHasName e' 0 name = true
      · simpa [hbytes, hfound] using ht
      simp only [hbytes, if_true, Bool.and_eq_true, if_neg hfound] at ht ⊢
      exact ih ht
    · simpa [hbytes] using ht

lemma wp_freeSlotLoop {Q : Memory × Nat → Fs → Prop}
    (h : wp (scanLoop inode (fun e => !entryInUse e 0) fuel e ofs)
      (fun r t => Q (r.1, r.2.1) t) s) : wp (freeSlotLoop inode fuel e ofs) Q s := by
  induction fuel generalizing e ofs s with
  | zero => exact h
  | succ fuel ih =>
    simp only [freeSlotLoop, scanLoop, wp_bind] at h ⊢
    refine wp_mono h ?_
    rintro ⟨bytesRead, e'⟩ t ht
    by_cases hbytes : bytesRead = dirEntrySize
    · by_cases huse : entryInUse e' 0 = true
      · simp only [hbytes, if_true, huse, Bool.not_true, Bool.false_eq_true, if_false] at ht ⊢
        exact ih ht
      · simpa [hbytes, huse] using ht
    · simpa [hbytes] using ht

/-- What reading slot `i` gives: a copy of it, or less at the end and without memory. -/
def ReadsSlots (s : Fs) (inode : Inode) (cnt : Nat) (address : Nat → Nat) : Prop :=
  ∀ e i k, i ≤ cnt → wp (inodeReadAt inode e dirEntrySize ((dirEntrySize * i : Nat) : Int))
    (fun r t => ∃ k', t = (s.spend k).spend k' ∧
      ((r.1 = dirEntrySize ∧ i < cnt ∧ SameEntry s.disk (address i) r.2 0) ∨
        (r.1 ≠ dirEntrySize ∧ (s.HeapOk → i = cnt)))) (s.spend k)

lemma scanLoop_first {cnt : Nat} {address : Nat → Nat} {test : Memory → Bool} {P : Nat → Prop}
    (hread : ReadsSlots s inode cnt address)
    (htest : ∀ i < cnt, ∀ e, SameEntry s.disk (address i) e 0 → (test e = true ↔ P i))
    (fuel : Nat) : ∀ (e : Memory) (i k : Nat), i ≤ cnt → cnt < fuel + i →
      wp (scanLoop inode test fuel e (dirEntrySize * i)) (fun r t => ∃ k j,
        t = s.spend k ∧ r.2.1 = dirEntrySize * j ∧ i ≤ j ∧ j ≤ cnt ∧
        (∀ l, i ≤ l → l < j → ¬ P l) ∧
        (r.2.2 = true → j < cnt ∧ P j ∧ SameEntry s.disk (address j) r.1 0) ∧
        (r.2.2 = false → s.HeapOk → j = cnt)) (s.spend k) := by
  induction fuel with
  | zero =>
    intro e i k hi hfuel
    omega
  | succ fuel ih =>
    intro e i k hi hfuel
    simp only [scanLoop, wp_bind]
    refine wp_mono (hread e i k hi) ?_
    rintro ⟨bytesRead, e'⟩ t ⟨k', rfl, hslot⟩
    rw [Fs.spend_spend]
    rcases hslot with ⟨hbytes, hlt, hsame⟩ | ⟨hbytes, hend⟩
    · rw [if_pos hbytes]
      have hiff := htest i hlt e' hsame
      by_cases hfound : test e' = true
      · rw [if_pos hfound]
        exact ⟨_, i, rfl, rfl, le_rfl, hi, fun l hl hl' => by omega,
          fun _ => ⟨hlt, hiff.mp hfound, hsame⟩, by simp⟩
      rw [if_neg hfound, show dirEntrySize * i + dirEntrySize = dirEntrySize * (i + 1) by ring]
      refine wp_mono (ih e' (i + 1) (k + k') hlt (by omega)) ?_
      rintro r t ⟨k'', j, rfl, hofs, hge, hle, hbefore, hrest⟩
      refine ⟨k'', j, rfl, hofs, by omega, hle, fun l hl hlj => ?_, hrest⟩
      rcases Nat.eq_or_lt_of_le hl with rfl | hlt'
      · exact fun hP => hfound (hiff.mpr hP)
      · exact hbefore l hlt' hlj
    · rw [if_neg hbytes]
      exact ⟨_, i, rfl, rfl, le_rfl, hi, fun l hl hl' => by omega, by simp, fun _ => hend⟩

end Scan

section Root

variable {s : Fs} {extra : List Nat} {inode : Inode}

def IsRoot (s : Fs) (inode : Inode) : Prop := inode ∈ s.openInodes ∧ inode.sector = rootDirSector

section

variable (h : Sound s extra) (hroot : IsRoot s inode)

include h hroot

lemma Sound.root_data : inode.data = headerAt s.disk rootDirSector := by
  rw [(h.inodes inode hroot.1).cached, hroot.2]

lemma dataAddress_root (i : Nat) :
    dataAddress inode.data ((dirEntrySize * i : Nat) : Int) = slotAddress s.disk i := by
  rw [dataAddress, h.root_data hroot, slotAddress, Int.toNat_natCast]

lemma available_root (i : Nat) :
    available inode.data dirEntrySize ((dirEntrySize * i : Nat) : Int) =
      if i < rootEntryCnt then dirEntrySize else 0 := by
  rw [available, h.root_data hroot, h.device.directory.length_eq]
  by_cases hlt : i < rootEntryCnt
  · rw [if_pos hlt]
    simp only [dirEntrySize, rootEntryCnt] at hlt ⊢
    omega
  rw [if_neg hlt]
  simp only [dirEntrySize, rootEntryCnt] at hlt ⊢
  omega

lemma Progress.entry {n : Nat} (hi : i ≤ rootEntryCnt)
    (hp : Progress s inode.data dirEntrySize ((dirEntrySize * i : Nat) : Int) n) :
    (n = dirEntrySize ∧ i < rootEntryCnt) ∨ (n = 0 ∧ (s.HeapOk → i = rootEntryCnt)) := by
  have havail := available_root h hroot i
  have hall := hp.atomic (by
    simp only [dirEntrySize, rootEntryCnt] at hi ⊢
    rw [Int.emod_eq_of_lt (by omega) (by omega)]
    omega)
  have hfull := hp.full
  rw [havail] at hall hfull
  by_cases hlt : i < rootEntryCnt
  · rw [if_pos hlt] at hall hfull
    rcases hall with hzero | hwhole
    · refine .inr ⟨hzero, fun hok => ?_⟩
      rw [hfull hok] at hzero
      contradiction
    · exact .inl ⟨hwhole, hlt⟩
  · rw [if_neg hlt] at hall
    exact .inr ⟨by tauto, fun _ => by omega⟩

lemma readEntry_spec (e : Memory)
    (hi : i ≤ rootEntryCnt) : wp (inodeReadAt inode e dirEntrySize ((dirEntrySize * i : Nat) : Int))
      (fun r t => ∃ k, t = s.spend k ∧ ((r.1 = dirEntrySize ∧ i < rootEntryCnt ∧
            SameEntry s.disk (slotAddress s.disk i) r.2 0) ∨
          (r.1 ≠ dirEntrySize ∧ (s.HeapOk → i = rootEntryCnt)))) s := by
  have hfit : Fits s.size inode.data := by
    rw [h.root_data hroot]
    exact h.device.fits (live_root s)
  refine wp_mono (inodeReadAt_spec e hfit (Int.natCast_nonneg _)) ?_
  rintro r t ⟨k, n, rfl, hp, rfl⟩
  refine ⟨k, rfl, ?_⟩
  rcases hp.entry h hroot hi with ⟨rfl, hlt⟩ | ⟨rfl, hend⟩
  · refine .inl ⟨rfl, hlt, fun j hj => ?_⟩
    rw [dataAddress_root h hroot]
    simpa using copy_inside e s.disk (slotAddress s.disk i) (Nat.zero_le j) (by simpa using hj)
  · exact .inr ⟨by simp [dirEntrySize], hend⟩

lemma readsSlots_root : ReadsSlots s inode rootEntryCnt (slotAddress s.disk) :=
  fun e _ k hi => readEntry_spec (h.spend (fun _ => False) k).sound hroot e hi

lemma Sound.getInode_root : findAt Inode.addr s.openInodes inode.addr = some inode :=
  (findAt_eq_some h.tables.counted.nodup).mpr ⟨hroot.1, rfl⟩

lemma entryFuel_root : rootEntryCnt < entryFuel inode := by
  rw [entryFuel, h.root_data hroot, h.device.directory.length_eq]
  decide

lemma lookup_spec (name : CString) :
    wp (lookup ⟨inode.addr⟩ (some name)) (fun r t => ∃ k, t = s.spend k ∧
        (∀ e ofs, r = some (e, ofs) → ∃ j, ofs = dirEntrySize * j ∧
          Binds s.disk name j ∧ SameEntry s.disk (slotAddress s.disk j) e 0) ∧
        (r = none → s.HeapOk → ∀ j, ¬ Binds s.disk name j)) s := by
  simp only [lookup, requireName, uninitialised, wp_bind, wp_pure,
    wp_getInode (h.getInode_root hroot), wp_get]
  refine wp_lookupLoop (wp_mono (scanLoop_first (P := Binds s.disk name) (readsSlots_root h hroot)
    (fun i hi e hsame => ?_) (entryFuel inode) _ 0 0 (Nat.zero_le _) (entryFuel_root h hroot)) ?_)
  · rw [Bool.and_eq_true]
    exact h.device.directory.match_iff name hi hsame
  rintro ⟨e, ofs, found⟩ t ⟨k, j, rfl, rfl, -, -, hbefore, htrue, hfalse⟩
  refine ⟨k, rfl, ?_⟩
  cases found with
  | true =>
    obtain ⟨-, hb, hsame⟩ := htrue rfl
    refine ⟨?_, by simp⟩
    rintro _ _ ⟨⟩
    exact ⟨j, rfl, hb, hsame⟩
  | false =>
    exact ⟨by simp, fun _ hok l hb => hbefore l (Nat.zero_le _) (hfalse rfl hok ▸ hb.1) hb⟩

lemma freeSlotLoop_spec (e : Memory) (k : Nat) :
    wp (freeSlotLoop inode (entryFuel inode) e 0)
      (fun r t => ∃ k j, t = s.spend k ∧ r.2 = dirEntrySize * j ∧ j ≤ rootEntryCnt ∧
        (s.HeapOk → (∀ l < j, slotInUse s.disk l) ∧
          (j < rootEntryCnt → ¬ slotInUse s.disk j))) (s.spend k) := by
  refine wp_freeSlotLoop (wp_mono (scanLoop_first (P := fun l => ¬ slotInUse s.disk l)
    (readsSlots_root h hroot) (fun i _ e hsame => ?_) (entryFuel inode) e 0 k (Nat.zero_le _)
    (entryFuel_root h hroot)) ?_)
  · simp [slotInUse, hsame.inUse]
  rintro ⟨e, ofs, found⟩ t ⟨k, j, rfl, hofs, -, hle, hbefore, htrue, hfalse⟩
  refine ⟨k, j, rfl, hofs, hle, fun hok =>
    ⟨fun l hl => not_not.mp (hbefore l (Nat.zero_le _) hl), fun hlt => ?_⟩⟩
  cases found with
  | true => exact (htrue rfl).2.1
  | false => exact absurd (hfalse rfl hok) hlt.ne

lemma writeEntry_spec (e : Memory) (hi : i ≤ rootEntryCnt) :
    wp (inodeWriteAt inode e dirEntrySize ((dirEntrySize * i : Nat) : Int)) (fun r t => ∃ k,
        (r = dirEntrySize ∧ i < rootEntryCnt ∧ t = (s.spend k).setDisk
          (copy s.disk (slotAddress s.disk i) e 0 dirEntrySize)) ∨
        (r ≠ dirEntrySize ∧ t = s.spend k ∧ (s.HeapOk → i = rootEntryCnt))) s := by
  have hfit : Fits s.size inode.data := by
    rw [h.root_data hroot]
    exact h.device.fits (live_root s)
  refine wp_mono (inodeWriteAt_spec e hfit (h.inodes inode hroot.1).writable
    (Int.natCast_nonneg _)) ?_
  rintro r t ⟨k, n, hp, rfl, rfl⟩
  refine ⟨k, ?_⟩
  rw [dataAddress_root h hroot]
  rcases hp.entry h hroot hi with ⟨rfl, hlt⟩ | ⟨rfl, hend⟩
  · exact .inl ⟨rfl, hlt, rfl⟩
  · exact .inr ⟨by simp [dirEntrySize], by simp [Fs.setDisk, Fs.spend], hend⟩

end

end Root

/-! ## What a written entry changes -/

section Written

variable {s : Fs} {extra : List Nat}

def setSlot (disk : Memory) (i : Nat) (e : Memory) : Memory :=
  copy disk (slotAddress disk i) e 0 dirEntrySize

section

variable (h : Sound s extra) (hi : i < rootEntryCnt) (e : Memory)

include h hi e

lemma changesOnly_setSlot :
    ChangesOnly (InExtent (headerAt s.disk rootDirSector)) s.disk (setSlot s.disk i e) := by
  have hlen := h.device.directory.length_eq
  have hroom : dirEntrySize * i + dirEntrySize ≤
      sectorSize * bytesToSectors (headerAt s.disk rootDirSector).length := by
    rw [hlen, bytesToSectors_root]
    simp only [dirEntrySize, rootEntryCnt, sectorSize] at hi ⊢
    omega
  exact changesOnly_copy s.disk e _ _ 0 hroom

lemma Sound.keeps_setSlot : Keeps (Live s) (· = rootDirSector) s.disk (setSlot s.disk i e) :=
  h.device.keeps_of_extent (live_root s) (changesOnly_setSlot h hi e)

lemma Sound.slotAddress_setSlot
    (j : Nat) : slotAddress (setSlot s.disk i e) j = slotAddress s.disk j := by
  rw [slotAddress, (h.keeps_setSlot hi e).header (live_root s), slotAddress]

lemma Sound.setSlot_same :
    SameEntry e 0 (setSlot s.disk i e) (slotAddress (setSlot s.disk i e) i) := by
  intro j hj
  rw [h.slotAddress_setSlot hi, setSlot, copy_inside _ _ _ (by omega) (by omega)]
  congr 1
  omega

lemma Sound.setSlot_other {j : Nat} (hne : j ≠ i) : SameSlot s.disk (setSlot s.disk i e) j := by
  intro l hl
  rw [h.slotAddress_setSlot hi, setSlot]
  apply copy_outside
  simp only [slotAddress, dirEntrySize] at hl ⊢
  omega

end

lemma entryInUse_fillEntry (e : Memory) (hname : ValidName name)
    (sector : Nat) : entryInUse (fillEntry e name sector) 0 = true := by
  have hlen := hname.2
  simp only [nameMax] at hlen
  have hflag : fillEntry e name sector 19 = 1 := by
    simp only [fillEntry, nameMax]
    rw [copy_outside _ _ _ (by omega), CString.strlcpy_outside _ _ (by omega) (by omega)]
    simp [fill]
  simp [entryInUse, hflag]

lemma entryHasName_fillEntry (e : Memory) (hname : ValidName name)
    (sector : Nat) : entryHasName (fillEntry e name sector) 0 name = true := by
  have hlen := hname.2
  simp only [nameMax] at hlen
  refine (name.sameAs_iff _ _).mpr fun j hj => ?_
  simp only [fillEntry, nameMax]
  rw [copy_outside _ _ _ (by omega), Nat.zero_add, CString.strlcpy_inside _ _ (by omega) hj]

lemma entrySector_fillEntry (e : Memory) (name : CString) {sector : Nat}
    (hsec : sector < 2 ^ 32) : entrySector (fillEntry e name sector) 0 = sector := by
  refine word32_of_wordBytes hsec fun k hk => ?_
  rw [fillEntry, copy_inside _ _ _ (by omega) (by omega)]
  congr 1
  omega

lemma entryInUse_clearEntry (e : Memory) : entryInUse (clearEntry e) 0 = false := by
  simp [entryInUse, clearEntry, fill]

end Written

end Pintos.Filesys
