import Pintos.Filesys.Access

/-!
# Opening and removing by name
-/

namespace Pintos.Filesys

open Foundation

variable {inode : Inode} {name : CString} {i : Nat}

section OpenByName

variable {s t u : Fs} {extra : List Nat}

lemma Opened.of_same {r : Option Nat} {header : Nat} (hdev : SameDevice s u)
    (hsame : SameHandles s u) (h : Opened u t r header) : Opened s t r header where
  device := hdev.trans h.device
  fresh handle hr x pos hc := h.fresh handle hr x pos ((hsame handle x pos).mpr hc)
  handles handle x pos := by rw [h.handles, hsame]
  heap hok := h.heap (by simpa [Fs.HeapOk, hdev.heapOk] using hok)

lemma Sound.sameHandles_rootOpened (h : Sound s []) (k : Nat) : SameHandles s (rootOpened s k) := by
  refine sameHandles_of_agree h (h.openRoot k) rfl rfl fun i hi j hj heq => ?_
  rcases mem_cons.mp hj with rfl | hj
  · exact absurd heq (h.tables.inodes_fresh i hi).ne
  · exact h.agree_self i hi j hj heq

lemma Sound.not_removed_of_named (h : Sound s extra)
    (hi : inode ∈ s.openInodes) (hnamed : Named s.disk inode.sector) : inode.removed = false := by
  by_contra hrem
  exact ((h.inodes inode hi).removed (by simpa using hrem)).1 hnamed

lemma fileOpen_null (s : Fs) : wp (fileOpen none) (fun r t => r = none ∧ t = s.spend 1) s := by
  simp [fileOpen, inodeClose]

lemma Binds.named {disk : Memory} (h : Binds disk name i) :
    Named disk (slotSector disk i) := ⟨i, h.1, h.2.1, rfl⟩

structure InRoot (s t : Fs) (extra : List Nat) : Prop where
  sound : Sound t (s.nextAddress :: extra)
  root : newInode s rootDirSector ∈ t.openInodes
  handles : SameHandles s t

lemma Sound.inRoot (h : Sound s []) (k : Nat) : InRoot s (rootOpened s k) [] :=
  ⟨h.openRoot k, mem_cons_self, h.sameHandles_rootOpened k⟩

lemma InRoot.close (h : InRoot s t extra) : wp (dirClose (some ⟨s.nextAddress⟩))
      (fun _ u => Sound u extra ∧ SameDevice t u ∧ SameHandles s u ∧
        (∀ i ∈ t.openInodes, i.addr ≠ s.nextAddress → i ∈ u.openInodes) ∧
        ∀ x, Live u x → Live t x) t := by
  refine wp_mono (inodeClose_keep h.sound h.root (.inl rfl)) ?_
  rintro _ u ⟨hdev, -, hu, hsame, hothers⟩
  exact ⟨hu, hdev, h.handles.trans hsame, hothers⟩

lemma dirLookup_sound (h : Sound s []) (k : Nat) (name : CString) :
    wp (dirLookup ⟨s.nextAddress⟩ (some name)) (fun r t => SameDevice s t ∧
        ((∃ i, ∃ inode ∈ t.openInodes, Binds s.disk name i ∧
            inode.sector = slotSector s.disk i ∧ r = some inode.addr ∧ InRoot s t [inode.addr]) ∨
          (r = none ∧ InRoot s t [] ∧ (s.HeapOk → ∀ i, ¬ Binds s.disk name i))))
      (rootOpened s k) := by
  have h₀ := h.openRoot k
  have hroot := isRoot_rootOpened s k
  simp only [dirLookup, wp_bind]
  refine wp_mono (lookup_spec h₀ hroot name) ?_
  rintro found t ⟨j, rfl, hsome, hnone⟩
  rw [spend_rootOpened]
  have h₁ := h.inRoot (k + j)
  cases found with
  | none => exact ⟨⟨rfl, rfl, rfl, rfl, rfl⟩, .inr ⟨rfl, h₁, hnone rfl⟩⟩
  | some entry =>
    obtain ⟨i, -, hb, he⟩ := hsome entry.1 entry.2 rfl
    have hsec : entrySector entry.1 0 = slotSector s.disk i := he.sector
    have hordinary := h.device.directory.ordinary i hb.1 hb.2.1
    simp only [hsec]
    refine wp_mono (inodeOpen_sound h₁.sound (live_named hb.1 hb.2.1)) ?_
    rintro r u ⟨hdev, -, ⟨inode, hi, hisector, rfl, hu, hsame, hothers, -⟩ | ⟨rfl, hbad, rfl⟩⟩
    · refine ⟨⟨hdev.size, hdev.disk, hdev.freeMap, hdev.freeMapFile,
        hdev.heapOk⟩, .inl ⟨i, inode, hi, hb, hisector, rfl, ?_⟩⟩
      exact ⟨hu.perm (.swap _ _ _), hothers _ h₁.root (Ne.symm hordinary.2), h₁.handles.trans hsame⟩
    · rw [spend_rootOpened]
      exact ⟨⟨rfl, rfl, rfl, rfl, rfl⟩, .inr ⟨rfl, h.inRoot _, fun hok => absurd hok hbad⟩⟩

lemma filesysOpen_sound (h : Sound s []) (name : CString) : wp (filesysOpen (some name))
      (fun r t => Sound t [] ∧ ((∃ i, Binds s.disk name i ∧ Opened s t r (slotSector s.disk i)) ∨
          (r = none ∧ SameDevice s t ∧ SameHandles s t ∧
            (s.HeapOk → ∀ i, ¬ Binds s.disk name i)))) s := by
  simp only [filesysOpen, wp_bind]
  refine wp_mono (dirOpenRoot_spec h) ?_
  rintro dir s₀ (⟨k, rfl, rfl, -⟩ | ⟨rfl, hbad, h₀, hst, hdisk, hmap⟩)
  · simp only [wp_bind]
    refine wp_mono (dirLookup_sound h k name) ?_
    rintro r t ⟨hdev, ⟨i, inode, hi, hb, hsec, rfl, ht⟩ | ⟨rfl, ht, hnone⟩⟩
    · have hordinary := h.device.directory.ordinary i hb.1 hb.2.1
      refine wp_mono ht.close ?_
      rintro _ u ⟨hu, hdev', hsame, hothers, -⟩
      have hne : inode.addr ≠ s.nextAddress := by
        intro heq
        have hroot := eq_of_addr_eq ht.sound.tables.counted.nodup hi ht.root heq
        rw [hroot] at hsec
        exact hordinary.2 hsec.symm
      have hiu := hothers inode hi hne
      have hdev := hdev.trans hdev'
      have hnamed : Named u.disk inode.sector := by
        rw [hdev.disk, hsec]
        exact hb.named
      rw [← hsec] at hordinary
      refine wp_mono (fileOpen_sound inode hu hiu hordinary.2 hordinary.1
        (.inl (hu.not_removed_of_named hiu hnamed))) ?_
      rintro r v ⟨hv, hopened⟩
      exact ⟨hv, .inl ⟨i, hb, hsec ▸ hopened.of_same hdev hsame⟩⟩
    · refine wp_mono ht.close ?_
      rintro _ u ⟨hu, hdev', hsame, -⟩
      refine wp_mono (fileOpen_null u) ?_
      rintro _ v ⟨rfl, rfl⟩
      have hdev := hdev.trans hdev'
      exact ⟨(hu.spend (fun _ => False) 1).sound, .inr ⟨rfl,
        ⟨hdev.size, hdev.disk, hdev.freeMap, hdev.freeMapFile, hdev.heapOk⟩, hsame, hnone⟩⟩
  · simp only [wp_bind, wp_pure, dirClose]
    refine wp_mono (fileOpen_null s₀) ?_
    rintro _ t ⟨rfl, rfl⟩
    have hsame := sameHandles_of_tables hst
    exact ⟨(h₀.spend (fun _ => False) 1).sound, .inr ⟨rfl,
      ⟨hst.size, hdisk, hmap, hst.freeMapFile, hst.heapOk⟩, hsame, fun hok => absurd hok hbad⟩⟩

end OpenByName

/-! ## Removing -/

section RemoveByName

variable {s t u : Fs} {extra : List Nat}

/-- Entry `i` was the one for `name` and is gone; its inode may live on in handles. -/
structure Removed (s t : Fs) (name : CString) (i : Nat) : Prop where
  binds : Binds s.disk name i
  unused : ¬ slotInUse t.disk i
  others : ∀ j < rootEntryCnt, j ≠ i → SameSlot s.disk t.disk j
  live : ∀ x, Live t x → Live s x
  keeps : Keeps (Live t) (fun x => x = freeMapSector ∨ x = rootDirSector) s.disk t.disk

lemma live_markedRemoved {addr x : Nat}
    (hx : Live (s.setInodes (markedRemoved s.openInodes addr)) x) : Live s x := by
  exact live_setInodes (live_updateAt fun _ => by rfl) hx

lemma dropInode_sound (h : Sound s (inode.addr :: extra))
    (hi : inode ∈ s.openInodes) (hnamed : ¬ Named s.disk inode.sector)
    (hmap : inode.sector ≠ freeMapSector) (hroot : inode.sector ≠ rootDirSector) : wp (do
        inodeRemove inode.addr
        inodeClose (some inode.addr))
      (fun _ t => Sound t extra ∧ SameHandles s t ∧ t.heapOk = s.heapOk ∧
        (∀ x, Live t x → Live s x) ∧ Keeps (Live t) (· = freeMapSector) s.disk t.disk ∧
        ∀ i ∈ s.openInodes, i.addr ≠ inode.addr → i ∈ t.openInodes) s := by
  have hget := (findAt_eq_some h.tables.counted.nodup).mpr ⟨hi, rfl⟩
  have h₁ := h.markRemoved hi hnamed hmap hroot
  have hmem : { inode with removed := true } ∈ markedRemoved s.openInodes inode.addr :=
    mem_updateAt.mpr (.inl ⟨inode, hi, rfl, rfl⟩)
  simp only [inodeRemove, wp_bind, wp_getInode hget, wp_modify]
  refine wp_mono (inodeClose_sound h₁ hmem rfl) ?_
  rintro _ t ⟨ht, -⟩
  have hclose := h₁.close
  have hlive := fun x => ht.live_iff hclose (by decide) x
  have hsame₁ : SameHandles s (s.setInodes (markedRemoved s.openInodes inode.addr)) :=
    sameHandles_of_agree h h₁ rfl rfl (h.agree_updateAt (fun _ => rfl) fun _ => rfl)
  have hsame₂ := sameHandles_of_agree h₁ hclose rfl rfl (h₁.agree_closing _ _)
  refine ⟨ht.sound, hsame₁.trans (hsame₂.trans (sameHandles_of_tables ht.tables)),
    ht.tables.heapOk, fun x hx => ?_, ht.keeps.restrict fun x hx => (hlive x).mp hx, ?_⟩
  · exact live_markedRemoved (live_closing ((hlive x).mp hx))
  intro i hi' hne
  rw [ht.tables.openInodes]
  have hi₁ : i ∈ markedRemoved s.openInodes inode.addr := mem_updateAt.mpr (.inr ⟨hi', hne⟩)
  simp only [Fs.setInodes_openInodes, closing]
  split
  · exact mem_updateAt.mpr (.inr ⟨hi₁, hne⟩)
  · exact mem_removeAt.mpr ⟨hi₁, hne⟩

lemma Removed.of_same (h : Removed u t name i)
    (hdisk : u.disk = s.disk) (hlive : ∀ x, Live u x → Live s x) : Removed s t name i where
  binds := hdisk ▸ h.binds
  unused := h.unused
  others := hdisk ▸ h.others
  live x hx := hlive x (h.live x hx)
  keeps := hdisk ▸ h.keeps

lemma Removed.close (h : Removed s t name i)
    (hdisk : u.disk = t.disk) (hlive : ∀ x, Live u x → Live t x) : Removed s u name i where
  binds := h.binds
  unused := hdisk ▸ h.unused
  others := hdisk ▸ h.others
  live x hx := h.live x (hlive x hx)
  keeps := hdisk ▸ h.keeps.restrict hlive

lemma eraseEntry_sound {e : Memory}
    (h : Sound s (inode.addr :: extra)) (hi : inode ∈ s.openInodes) (hb : Binds s.disk name i)
    (hsec : inode.sector = slotSector s.disk i) (he : entryInUse e 0 = false) (k : Nat) : wp (do
        inodeRemove inode.addr
        inodeClose (some inode.addr))
      (fun _ t => Sound t extra ∧ SameHandles s t ∧ t.heapOk = s.heapOk ∧ Removed s t name i ∧
        ∀ j ∈ s.openInodes, j.addr ≠ inode.addr → j ∈ t.openInodes)
      ((s.spend k).setDisk (setSlot s.disk i e)) := by
  have hordinary := h.device.directory.ordinary i hb.1 hb.2.1
  rw [← hsec] at hordinary
  have h₁ := h.clearName hb.1 he k
  have hnamed : ¬ Named (setSlot s.disk i e) inode.sector := fun hx =>
    (named_cleared h hb.1 he hx).2 hb.2.1 hsec.symm
  refine wp_mono (dropInode_sound h₁ hi hnamed hordinary.1 hordinary.2) ?_
  rintro _ t ⟨ht, hsame, hheap, hlive, hkeep, hothers⟩
  have hslot : ∀ j < rootEntryCnt, SameSlot (setSlot s.disk i e) t.disk j := fun j hj =>
    (hkeep.sameFile (live_root t) (by decide)).slot h₁.device.directory.length_eq hj
  have hlive' : ∀ x, Live t x → Live s x := fun x hx => live_cleared h hb.1 he (hlive x hx)
  have hsame₁ : SameHandles s ((s.spend k).setDisk (setSlot s.disk i e)) :=
    sameHandles_of_tables ⟨rfl, rfl, rfl, rfl, rfl, le_refl _⟩
  refine ⟨ht, hsame₁.trans hsame, hheap, ?_, hothers⟩
  exact
    { binds := hb
      unused := fun huse => clearedSlot h hb.1 he ((hslot i hb.1).inUse.mp huse)
      others := fun j hj hne => (h.setSlot_other hb.1 e hne).trans (hslot j hj)
      live := hlive'
      keeps := (((h.keeps_setSlot hb.1 e).restrict hlive').mono fun _ => .inr).trans
        (hkeep.mono fun _ => .inl) }

lemma dirRemove_sound (h : Sound s []) (k : Nat) (name : CString) :
    wp (dirRemove ⟨s.nextAddress⟩ (some name)) (fun r t => InRoot s t [] ∧ t.heapOk = s.heapOk ∧
        ((r = false ∧ SameDevice s t ∧ (s.HeapOk → ∀ i, ¬ Binds s.disk name i)) ∨
          (r = true ∧ ∃ i, Removed s t name i))) (rootOpened s k) := by
  have h₀ := h.openRoot k
  have hroot := isRoot_rootOpened s k
  simp only [dirRemove, wp_bind]
  refine wp_mono (lookup_spec h₀ hroot name) ?_
  rintro found t ⟨j, rfl, hsome, hnone⟩
  rw [spend_rootOpened]
  have h₁ := h.inRoot (k + j)
  cases found with
  | none => exact ⟨h₁, rfl, .inl ⟨rfl, ⟨rfl, rfl, rfl, rfl, rfl⟩, hnone rfl⟩⟩
  | some entry =>
    obtain ⟨i, hofs, hb, he⟩ := hsome entry.1 entry.2 rfl
    have hsec : entrySector entry.1 0 = slotSector s.disk i := he.sector
    have hordinary := h.device.directory.ordinary i hb.1 hb.2.1
    simp only [hsec, hofs, wp_bind]
    refine wp_mono (inodeOpen_sound h₁.sound (live_named hb.1 hb.2.1)) ?_
    rintro r u ⟨hdev, hfiles, ⟨inode, hi, hisector, rfl, hu, hsame, hothers, hlive⟩ |
      ⟨rfl, hbad, rfl⟩⟩
    · have hdisk : u.disk = s.disk := hdev.disk
      have hrootu : newInode s rootDirSector ∈ u.openInodes :=
        hothers _ h₁.root (Ne.symm hordinary.2)
      have hne : (newInode s rootDirSector).addr ≠ inode.addr := by
        intro heq
        have hsameinode := eq_of_addr_eq hu.tables.counted.nodup hrootu hi heq
        rw [← hsameinode] at hisector
        exact hordinary.2 hisector.symm
      rw [← hisector] at hordinary
      have hget : findAt Inode.addr u.openInodes s.nextAddress = some _ :=
        hu.getInode_root ⟨hrootu, rfl⟩
      simp only [wp_bind, wp_getInode hget]
      refine wp_mono (writeEntry_spec hu ⟨hrootu, rfl⟩ _ hb.1.le) ?_
      rintro written v ⟨k', ⟨rfl, -, rfl⟩ | ⟨hshort, rfl, hend⟩⟩
      · rw [if_neg (by simp)]
        have hbu : Binds u.disk name i := hdisk ▸ hb
        have hsectoru : inode.sector = slotSector u.disk i := hdisk ▸ hisector
        simp only [wp_bind, wp_pure]
        rw [← wp_bind]
        refine wp_mono (eraseEntry_sound hu hi hbu hsectoru (entryInUse_clearEntry entry.1) k') ?_
        rintro _ t ⟨ht, hsame', hheap, hrem, hothers'⟩
        refine ⟨⟨ht, hothers' _ hrootu hne, h₁.handles.trans (hsame.trans hsame')⟩,
          hheap.trans hdev.heapOk, .inr ⟨trivial, i, ?_⟩⟩
        exact hrem.of_same hdisk fun x hx => (live_rootOpened s _ x).mp (hlive x hx)
      · rw [if_pos hshort]
        have hv := (hu.spend (fun _ => False) k').sound
        have hnamed : Named u.disk inode.sector := by
          rw [hdisk, hisector]
          exact hb.named
        simp only [wp_bind, wp_pure]
        refine wp_mono (inodeClose_keep hv hi (.inl (hu.not_removed_of_named hi hnamed))) ?_
        rintro _ t ⟨hdev', -, ht, hsame', hothers', -⟩
        refine ⟨⟨ht, hothers' _ hrootu hne, h₁.handles.trans (hsame.trans hsame')⟩,
          hdev'.heapOk.trans hdev.heapOk, .inl ⟨trivial, ?_, fun hok => ?_⟩⟩
        · exact ⟨hdev'.size.trans hdev.size, hdev'.disk.trans hdisk,
            hdev'.freeMap.trans hdev.freeMap, hdev'.freeMapFile.trans hdev.freeMapFile,
            hdev'.heapOk.trans hdev.heapOk⟩
        · have hheap : u.heapOk = s.heapOk := hdev.heapOk
          have hlast := hend (by simpa [Fs.HeapOk, hheap] using hok)
          exact absurd hb.1 (by rw [hlast]; exact lt_irrefl _)
    · rw [spend_rootOpened]
      exact ⟨h.inRoot _, rfl, .inl ⟨rfl, ⟨rfl, rfl, rfl, rfl, rfl⟩, fun hok => absurd hok hbad⟩⟩

lemma filesysRemove_sound (h : Sound s []) (name : CString) : wp (filesysRemove (some name))
      (fun r t => Sound t [] ∧ t.heapOk = s.heapOk ∧ SameHandles s t ∧
        ((r = false ∧ SameDevice s t ∧ (s.HeapOk → ∀ i, ¬ Binds s.disk name i)) ∨
          (r = true ∧ ∃ i, Removed s t name i))) s := by
  simp only [filesysRemove, wp_bind]
  refine wp_mono (dirOpenRoot_spec h) ?_
  rintro dir s₀ (⟨k, rfl, rfl, -⟩ | ⟨rfl, hbad, h₀, hst, hdisk, hmap⟩)
  · simp only [wp_bind, wp_pure]
    refine wp_mono (dirRemove_sound h k name) ?_
    rintro r t ⟨ht, hheap, hcases⟩
    refine wp_mono ht.close ?_
    rintro _ u ⟨hu, hdev, hsame, -, hlive⟩
    refine ⟨hu, hdev.heapOk.trans hheap, hsame, ?_⟩
    rcases hcases with ⟨rfl, hdev', hnone⟩ | ⟨rfl, i, hrem⟩
    · exact .inl ⟨rfl, hdev'.trans hdev, hnone⟩
    · exact .inr ⟨rfl, i, hrem.close hdev.disk hlive⟩
  · simp only [wp_bind, wp_pure, dirClose]
    exact ⟨h₀, hst.heapOk, sameHandles_of_tables hst,
      .inl ⟨trivial, ⟨hst.size, hdisk, hmap, hst.freeMapFile, hst.heapOk⟩,
        fun hok => absurd hok hbad⟩⟩

end RemoveByName

end Pintos.Filesys
