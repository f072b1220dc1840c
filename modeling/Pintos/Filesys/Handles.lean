import Pintos.Filesys.Entries

/-!
# Open inodes and open files

Opening, closing and removing through the invariant.  A local variable that
holds a reference contributes one element of `extra`; a file contributes itself.
-/

namespace Pintos.Filesys

open Foundation

/-! ## The list of open inodes -/

def newInode (s : Fs) (sector : Nat) : Inode where
  addr := s.nextAddress
  sector
  openCnt := 1
  removed := false
  denyWriteCnt := 0
  data := headerAt s.disk sector

lemma DeviceOk.restrict {size : Nat} {disk : Memory} {map : Bitmap}
    {live live' : Nat → Prop} (h : DeviceOk size disk map live)
    (hlive : ∀ x, live' x → live x) : DeviceOk size disk map live' :=
  .of_sectors (h.sectors.restrict hlive) h.mapLength h.directory

section Tables

variable {s : Fs} {extra extra' : List Nat} {addr sector : Nat} {inode : Inode}
  {inodes : List Inode}

lemma live_setInodes (h : ∀ i ∈ inodes, Live s i.sector)
    {x : Nat} (hx : Live (s.setInodes inodes) x) : Live s x := by
  rcases hx with hx | hx | hx | ⟨i, hi, rfl⟩
  · exact .inl hx
  · exact .inr (.inl hx)
  · exact .inr (.inr (.inl hx))
  · exact h i hi

lemma live_updateAt {f : Inode → Inode} (hsec : ∀ i, (f i).sector = i.sector) :
    ∀ i ∈ updateAt Inode.addr s.openInodes addr f, Live s i.sector :=
  forall_mem_updateAt (fun _ => live_open) fun j hj _ => (hsec j).symm ▸ live_open hj

namespace Sound

variable (h : Sound s extra)

include h

lemma setInodes (hlive : ∀ i ∈ inodes, Live s i.sector)
    (hcounted : Counted Inode.addr Inode.openCnt inodes (references s extra'))
    (hsecs : (inodes.map Inode.sector).Nodup) (hfresh : ∀ i ∈ inodes, i.addr < s.nextAddress)
    (hok : ∀ i ∈ inodes, InodeOk s.disk i)
    (hkept : ∀ i ∈ inodes, ∀ file ∈ s.files, i.addr = file.inode →
      ∃ j ∈ s.openInodes, j.addr = i.addr ∧ j.sector = i.sector) :
    Sound (s.setInodes inodes) extra' where
  device := h.device.restrict fun x hx => live_setInodes hlive hx
  tables :=
    { counted := hcounted
      sectors := hsecs
      files := h.tables.files
      inodes_fresh := hfresh
      files_fresh := h.tables.files_fresh
      handles := h.tables.handles
      ordinary := fun file hf i hi haddr => by
        obtain ⟨j, hj, haddr', hsec⟩ := hkept i hi file hf haddr
        rw [← hsec]
        exact h.tables.ordinary file hf j hj (haddr'.trans haddr) }
  inodes := hok
  mapFile := by
    obtain ⟨file, hf, hptr, i, hi, haddr, hsec⟩ := h.mapFile
    have href : file.inode ∈ references s extra' := mem_append_right _ (mem_map_of_mem hf)
    obtain ⟨j, hj, hjaddr⟩ := hcounted.present _ href
    obtain ⟨i', hi', haddr', hsec'⟩ := hkept j hj file hf hjaddr
    have heq : i' = i := eq_of_addr_eq h.tables.counted.nodup hi' hi (by rw [haddr', hjaddr, haddr])
    exact ⟨file, hf, hptr, j, hj, hjaddr, by rw [← hsec', heq, hsec]⟩
  saved := h.saved

lemma updateInode {f : Inode → Inode}
    (haddr : ∀ i, (f i).addr = i.addr) (hsec : ∀ i, (f i).sector = i.sector)
    (hok : ∀ i ∈ s.openInodes, i.addr = addr → InodeOk s.disk i → InodeOk s.disk (f i))
    (hcounted : Counted Inode.addr Inode.openCnt (updateAt Inode.addr s.openInodes addr f)
      (references s extra')) :
    Sound (s.setInodes (updateAt Inode.addr s.openInodes addr f)) extra' := by
  -- every inode of the new list stems from one of the old list
  have hfrom : ∀ i ∈ updateAt Inode.addr s.openInodes addr f,
      ∃ j ∈ s.openInodes, j.addr = i.addr ∧ j.sector = i.sector :=
    forall_mem_updateAt (fun i hi => ⟨i, hi, rfl, rfl⟩)
      fun j hj _ => ⟨j, hj, (haddr j).symm, (hsec j).symm⟩
  refine h.setInodes ?_ hcounted ?_ ?_ ?_ ?_
  · intro i hi
    obtain ⟨j, hj, -, hs⟩ := hfrom i hi
    exact hs ▸ live_open hj
  · rw [map_updateAt _ hsec]
    exact h.tables.sectors
  · intro i hi
    obtain ⟨j, hj, ha, -⟩ := hfrom i hi
    exact ha ▸ h.tables.inodes_fresh j hj
  · exact forall_mem_updateAt h.inodes fun j hj hja => hok j hj hja (h.inodes j hj)
  · intro i hi _ _ _
    exact hfrom i hi

lemma mem_references (hi : inode ∈ s.openInodes) :
    inode.addr ∈ references s extra := h.tables.counted.referenced inode hi

lemma reopen (hi : inode ∈ s.openInodes) :
    Sound (s.setInodes (reopened s.openInodes inode.addr)) (inode.addr :: extra) :=
  h.updateInode (fun _ => rfl) (fun _ => rfl)
    (fun _ _ _ hok => ⟨hok.cached, hok.writable, hok.removed⟩)
    (h.tables.counted.acquire (fun _ => rfl) (h.mem_references hi) fun _ => rfl)

end Sound

lemma Sound.closeShared (h : Sound s (addr :: extra)) (hmore : addr ∈ references s extra) :
    Sound (s.setInodes (closed s.openInodes addr)) extra :=
  h.updateInode (fun _ => rfl) (fun _ => rfl)
    (fun _ _ _ hok => ⟨hok.cached, hok.writable, hok.removed⟩)
    (h.tables.counted.release (fun _ => rfl) hmore fun _ => rfl)

lemma Sound.closeLast (h : Sound s (addr :: extra)) (hlast : addr ∉ references s extra) :
    Sound (s.setInodes (removeAt Inode.addr s.openInodes addr)) extra := by
  have hfrom : ∀ i ∈ removeAt Inode.addr s.openInodes addr, i ∈ s.openInodes :=
    fun i hi => (mem_removeAt.mp hi).1
  refine h.setInodes (fun i hi => live_open (hfrom i hi))
    (h.tables.counted.releaseLast hlast) ?_ (fun i hi => h.tables.inodes_fresh i (hfrom i hi))
    (fun i hi => h.inodes i (hfrom i hi)) (fun i hi _ _ _ => ⟨i, hfrom i hi, rfl, rfl⟩)
  exact h.tables.sectors.sublist (List.filter_sublist.map _)

lemma Sound.markRemoved (h : Sound s extra) (hi : inode ∈ s.openInodes)
    (hnamed : ¬ Named s.disk inode.sector) (hmap : inode.sector ≠ freeMapSector)
    (hroot : inode.sector ≠ rootDirSector) :
    Sound (s.setInodes (markedRemoved s.openInodes inode.addr)) extra := by
  refine h.updateInode (fun _ => rfl) (fun _ => rfl) ?_
    (h.tables.counted.update (fun _ => rfl) fun _ => rfl)
  intro i hi' haddr hok
  have heq : i = inode := eq_of_addr_eq h.tables.counted.nodup hi' hi haddr
  exact ⟨hok.cached, hok.writable, fun _ => heq ▸ ⟨hnamed, hmap, hroot⟩⟩

lemma Sound.bump (h : Sound s extra) : Sound s.bump extra where
  device := h.device
  tables :=
    { counted := h.tables.counted
      sectors := h.tables.sectors
      files := h.tables.files
      inodes_fresh := fun i hi => (h.tables.inodes_fresh i hi).trans (Nat.lt_succ_self _)
      files_fresh := fun f hf => (h.tables.files_fresh f hf).trans (Nat.lt_succ_self _)
      handles := h.tables.handles
      ordinary := h.tables.ordinary }
  inodes := h.inodes
  mapFile := h.mapFile
  saved := h.saved

lemma Sound.push (h : Sound s extra) (hlive : Live s sector)
    (hnew : ∀ i ∈ s.openInodes, i.sector ≠ sector) :
    Sound (s.bump.setInodes (newInode s sector :: s.openInodes)) (s.nextAddress :: extra) := by
  have hfresh : ∀ i ∈ s.openInodes, i.addr ≠ s.nextAddress :=
    fun i hi => (h.tables.inodes_fresh i hi).ne
  refine Sound.setInodes (s := s.bump) h.bump ?_ ?_ ?_ ?_ ?_ ?_
  · exact List.forall_mem_cons.mpr ⟨hlive, fun i => live_open⟩
  · exact h.tables.counted.insert (o := newInode s sector) rfl hfresh
  · refine nodup_cons.mpr ⟨?_, h.tables.sectors⟩
    intro hmem
    obtain ⟨i, hi, he⟩ := mem_map.mp hmem
    exact hnew i hi he
  · exact List.forall_mem_cons.mpr ⟨Nat.lt_succ_self _, fun i hi =>
      (h.tables.inodes_fresh i hi).trans (Nat.lt_succ_self _)⟩
  · refine List.forall_mem_cons.mpr ⟨⟨rfl, rfl, fun hr => ?_⟩, h.inodes⟩
    exact absurd hr (by simp [newInode])
  · intro i hi file hf haddr
    rcases mem_cons.mp hi with rfl | hi
    · have href : file.inode ∈ references s extra := mem_append_right _ (mem_map_of_mem hf)
      obtain ⟨j, hj, hjaddr⟩ := h.tables.counted.present _ href
      exact absurd (hjaddr.trans haddr.symm) (hfresh j hj)
    · exact ⟨i, hi, rfl, rfl⟩

/-! ## Opening and closing an inode -/

lemma headerAt_eq_decode (disk : Memory) (sector : Nat) : InodeDisk.decode
    (copy (fun _ => 0) 0 disk (sectorSize * sector) sectorSize) 0 = headerAt disk sector := by
  refine InodeDisk.decode_congr fun k hk => ?_
  rw [copy_inside _ _ _ (Nat.zero_le _) (by simp only [sectorSize]; omega)]
  congr 1
  omega

lemma inodeOpen_wp (hnodup : (s.openInodes.map Inode.addr).Nodup) (hsec : sector < s.size) :
    wp (inodeOpen sector) (fun r t =>
        (∃ inode ∈ s.openInodes, inode.sector = sector ∧ r = some inode.addr ∧
          t = s.setInodes (reopened s.openInodes inode.addr)) ∨
        ((∀ i ∈ s.openInodes, i.sector ≠ sector) ∧ s.heapOk s.allocations = true ∧
          r = some s.nextAddress ∧
          t = (s.spend 1).bump.setInodes (newInode s sector :: s.openInodes)) ∨
        (r = none ∧ ¬ s.HeapOk ∧ t = s.spend 1)) s := by
  simp only [inodeOpen, wp_bind, wp_get]
  cases hfind : s.openInodes.find? (fun i => i.sector = sector) with
  | some inode =>
    have hmem := mem_of_find?_eq_some hfind
    have hfound : inode.sector = sector := by simpa using find?_some hfind
    have hget := (findAt_eq_some hnodup).mpr ⟨hmem, rfl⟩
    simp only [inodeReopen, wp_bind, wp_getInode hget, wp_modify, wp_pure]
    exact .inl ⟨inode, hmem, hfound, rfl, rfl⟩
  | none =>
    have hnew : ∀ i ∈ s.openInodes, i.sector ≠ sector := by simpa using hfind
    simp only [wp_bind, wp_malloc]
    cases hgrant : s.heapOk s.allocations with
    | false =>
      refine .inr (.inr ⟨rfl, fun hok => ?_, rfl⟩)
      rw [hok] at hgrant
      contradiction
    | true =>
      simp only [if_true, wp_bind, wp_newAddress, wp_blockRead, wp_modify, wp_pure]
      refine ⟨hsec, .inr (.inl ⟨hnew, trivial, rfl, ?_⟩)⟩
      simp only [Fs.bump_disk, Fs.spend_disk, headerAt_eq_decode]
      rfl

def closing (s : Fs) (extra : List Nat) (addr : Nat) : List Inode :=
  if addr ∈ references s extra then closed s.openInodes addr
  else removeAt Inode.addr s.openInodes addr

lemma Sound.close (h : Sound s (addr :: extra)) :
    Sound (s.setInodes (closing s extra addr)) extra := by
  unfold closing
  split
  · exact h.closeShared ‹_›
  · exact h.closeLast ‹_›

lemma releaseInode_sound (h : Sound s extra) (h' : Sound (s.setInodes inodes) extra')
    (hi : inode ∈ s.openInodes) (hsub : ∀ i ∈ inodes, Live s i.sector)
    (hdead : ¬ Live (s.setInodes inodes) inode.sector) : wp (do
        freeMapRelease inode.sector 1
        freeMapRelease inode.data.start (bytesToSectors inode.data.length))
      (fun _ t => Releases extra' (s.setInodes inodes) t) (s.setInodes inodes) := by
  have hlive := live_open hi
  have hdata := (h.inodes inode hi).cached
  have hfit := h.device.fits hlive
  rw [← hdata] at hfit
  -- no inode that is still live holds a sector of this one
  have halone : ∀ x y, Live (s.setInodes inodes) x → Occupies s.disk x y →
      ¬ Occupies s.disk inode.sector y := by
    intro x y hx ho ho'
    have heq := h.device.owned.owner_unique (live_setInodes hsub hx) hlive ho ho'
    exact hdead (heq ▸ hx)
  have hcnt := h.device.bitCnt_eq
  simp only [wp_bind]
  refine wp_mono (freeMapRelease_sound h' ⟨?_, ?_⟩ ?_) ?_
  · have hlt := h.device.header_lt hlive
    simp only [Fs.setInodes_freeMap, hcnt]
    omega
  · intro y hlo hhi
    have heq : y = inode.sector := by omega
    exact heq ▸ h.used hlive (.inl rfl)
  · intro x y hx ho hy
    exact halone x y hx ho (.inl (by omega))
  rintro _ t ⟨hevolves, hmarked⟩
  have hlive_iff := hevolves.live_iff h' (by decide)
  refine wp_mono (freeMapRelease_sound hevolves.sound ⟨?_, ?_⟩ ?_) ?_
  · rw [hmarked.bitCnt_eq, Fs.setInodes_freeMap, hcnt]
    exact hfit.extent_le
  · intro y hlo hhi
    have hin : InExtent (headerAt s.disk inode.sector) y := hdata ▸ ⟨hlo, hhi⟩
    have hne : y ≠ inode.sector := fun he => h.device.apart hlive (he ▸ hin)
    rw [hmarked.get_eq, if_neg (by omega)]
    exact h.used hlive (.inr hin)
  · intro x y hx ho hy
    have hx' := (hlive_iff x).mp hx
    have ho' : Occupies s.disk x y := by
      simpa only [Occupies, hevolves.keeps.header hx', Fs.setInodes_disk] using ho
    exact halone x y hx' ho' (.inr (hdata ▸ hy))
  · rintro _ u ⟨hevolves', -⟩
    refine ⟨(hevolves.toEvolves.trans h' (by decide) hevolves'.toEvolves).mono (by tauto), ?_⟩
    have hchanges := hevolves'.changes
    rw [hevolves.keeps.header (live_map _)] at hchanges
    exact hevolves.changes.trans hchanges

lemma inodeClose_sound (h : Sound s (addr :: extra)) (hi : inode ∈ s.openInodes)
    (haddr : inode.addr = addr) : wp (inodeClose (some addr)) (fun _ t =>
        Releases extra (s.setInodes (closing s extra addr)) t ∧
        (inode.removed = false ∨ addr ∈ references s extra →
          t = s.setInodes (closing s extra addr))) s := by
  have hget := (findAt_eq_some h.tables.counted.nodup).mpr ⟨hi, haddr⟩
  have hlast := h.tables.counted.count_eq_one_iff hi haddr
  have hclose := h.close
  have hstay : Releases extra (s.setInodes (closing s extra addr))
    (s.setInodes (closing s extra addr)) :=
    ⟨hclose.spend _ 0, .refl _ _⟩
  simp only [inodeClose, wp_bind, wp_getInode hget, wp_modify, wp_ite]
  by_cases hmore : addr ∈ references s extra
  · have hcnt : ¬ inode.openCnt - 1 = 0 := fun hz => hlast.mp hz hmore
    rw [if_neg hcnt]
    have hshared : closing s extra addr = closed s.openInodes addr := if_pos hmore
    rw [hshared] at hstay ⊢
    exact ⟨hstay, fun _ => rfl⟩
  have hcnt : inode.openCnt - 1 = 0 := hlast.mpr hmore
  have hfilter : removeAt Inode.addr (closed s.openInodes addr) addr = closing s extra addr := by
    rw [closing, if_neg hmore]
    exact removeAt_updateAt fun _ => rfl
  have hremove : (s.setInodes (closed s.openInodes addr)).setInodes
      (closing s extra addr) = s.setInodes (closing s extra addr) := rfl
  rw [if_pos hcnt]
  simp only [Fs.setInodes_openInodes, hfilter, hremove]
  by_cases hrem : inode.removed = true
  · rw [if_pos hrem]
    obtain ⟨hnamed, hmap, hroot⟩ := (h.inodes inode hi).removed hrem
    have hinodes : closing s extra addr = removeAt Inode.addr s.openInodes addr := by
      rw [closing, if_neg hmore]
    have hdead : ¬ Live (s.setInodes (closing s extra addr)) inode.sector := by
      rintro (hx | hx | hx | ⟨i, hi', hx⟩)
      · exact hmap hx
      · exact hroot hx
      · exact hnamed hx
      rw [Fs.setInodes_openInodes, hinodes] at hi'
      obtain ⟨hold, hne⟩ := mem_removeAt.mp hi'
      exact hne (eq_of_addr_eq h.tables.sectors hold hi hx ▸ haddr)
    refine (wp_bind _ _ _ _).mp (wp_mono (releaseInode_sound h hclose hi ?_ hdead) ?_)
    · intro i hi'
      rw [hinodes] at hi'
      exact live_open (mem_removeAt.mp hi').1
    · intro _ t hevolves
      refine ⟨hevolves, fun hnot => absurd hnot ?_⟩
      simp [hrem, hmore]
  · rw [if_neg hrem]
    exact ⟨hstay, fun _ => rfl⟩

end Tables

end Pintos.Filesys
