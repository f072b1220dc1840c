import Pintos.Filesys.Create

/-!
# Handles

What a client can tell of the tables is which inode each of its handles stands
for and at which position.  The operations on open files, seen through the
invariant and through that view.
-/

namespace Pintos.Filesys

open Foundation

variable {s t u : Fs} {file : File} {f : File → File} {inode : Inode} {header : Nat}
  {newPos pos : Int} {extra : List Nat}

/-- `handle` is an open file of a client, at `pos` in the inode with header `header`. -/
def ClientHandle (s : Fs) (handle header : Nat) (pos : Int) : Prop :=
  s.freeMapFile ≠ some handle ∧ ∃ file ∈ s.files, file.addr = handle ∧ file.pos = pos ∧
    ∃ inode ∈ s.openInodes, inode.addr = file.inode ∧ inode.sector = header

def SameHandles (s t : Fs) : Prop :=
  ∀ handle header pos, ClientHandle t handle header pos ↔ ClientHandle s handle header pos

lemma clientHandle_spend (s : Fs) (k handle header : Nat) (pos : Int) :
    ClientHandle (s.spend k) handle header pos ↔ ClientHandle s handle header pos := Iff.rfl

lemma SameHandles.trans (h : SameHandles s t) (h' : SameHandles t u) :
    SameHandles s u := fun x y z => (h' x y z).trans (h x y z)

def Agree (inodes inodes' : List Inode) : Prop :=
  ∀ i ∈ inodes, ∀ j ∈ inodes', i.addr = j.addr → i.sector = j.sector

structure SameDevice (s t : Fs) : Prop where
  size : t.size = s.size
  disk : t.disk = s.disk
  freeMap : t.freeMap = s.freeMap
  freeMapFile : t.freeMapFile = s.freeMapFile
  heapOk : t.heapOk = s.heapOk

lemma SameDevice.trans (h : SameDevice s t) (h' : SameDevice t u) : SameDevice s u :=
  ⟨h'.size.trans h.size, h'.disk.trans h.disk, h'.freeMap.trans h.freeMap,
    h'.freeMapFile.trans h.freeMapFile, h'.heapOk.trans h.heapOk⟩

section View

variable {extra' : List Nat} {inodes : List Inode} {addr : Nat}

lemma Sound.inode_of_file (h : Sound s extra) (hf : file ∈ s.files) :
    ∃ inode ∈ s.openInodes, inode.addr = file.inode :=
  h.tables.counted.present _ (mem_append_right _ (mem_map_of_mem hf))

lemma sameHandles_of_agree (hs : Sound s extra) (ht : Sound t extra')
    (hfiles : t.files = s.files) (hmap : t.freeMapFile = s.freeMapFile)
    (hagree : Agree s.openInodes t.openInodes) : SameHandles s t := by
  intro handle header pos
  simp only [ClientHandle, hfiles, hmap]
  refine and_congr_right fun _ => ?_
  constructor
  · rintro ⟨file, hf, haddr, hpos, i, hi, hia, rfl⟩
    obtain ⟨j, hj, hja⟩ := hs.inode_of_file hf
    exact ⟨file, hf, haddr, hpos, j, hj, hja, hagree j hj i hi (hja.trans hia.symm)⟩
  · rintro ⟨file, hf, haddr, hpos, i, hi, hia, rfl⟩
    obtain ⟨j, hj, hja⟩ := ht.inode_of_file (hfiles ▸ hf)
    exact ⟨file, hf, haddr, hpos, j, hj, hja, (hagree i hi j hj (hia.trans hja.symm)).symm⟩

namespace Sound

variable (h : Sound s extra)

include h

lemma agree_self : Agree s.openInodes s.openInodes :=
  fun i hi j hj haddr => by rw [eq_of_addr_eq h.tables.counted.nodup hi hj haddr]

lemma agree_updateAt {f : Inode → Inode}
    (haddr : ∀ i, (f i).addr = i.addr) (hsec : ∀ i, (f i).sector = i.sector) :
    Agree s.openInodes (updateAt Inode.addr s.openInodes addr f) := by
  intro i hi
  refine forall_mem_updateAt (h.agree_self i hi) fun j hj _ heq => ?_
  rw [hsec]
  exact h.agree_self i hi j hj (heq.trans (haddr j))

lemma agree_closing (extra' : List Nat) (addr : Nat) :
    Agree s.openInodes (closing s extra' addr) := by
  unfold closing
  split
  · exact h.agree_updateAt (fun _ => rfl) fun _ => rfl
  intro i hi j hj heq
  exact h.agree_self i hi j (mem_removeAt.mp hj).1 heq

lemma perm (hperm : extra.Perm extra') : Sound s extra' where
  device := h.device
  tables := { h.tables with
    counted := h.tables.counted.perm (hperm.append_right _) }
  inodes := h.inodes
  mapFile := h.mapFile
  saved := h.saved

end Sound

end View

/-! ## Opening and closing -/

section Open

variable {addr sector : Nat}

lemma inodeOpen_sound (h : Sound s extra) (hlive : Live s sector) : wp (inodeOpen sector)
      (fun r t => SameDevice s t ∧ t.files = s.files ∧
        ((∃ inode ∈ t.openInodes, inode.sector = sector ∧ r = some inode.addr ∧
            Sound t (inode.addr :: extra) ∧ SameHandles s t ∧
            (∀ i ∈ s.openInodes, i.sector ≠ sector → i ∈ t.openInodes) ∧ ∀ x, Live t x → Live s x) ∨
          (r = none ∧ ¬ s.HeapOk ∧ t = s.spend 1))) s := by
  refine wp_mono (inodeOpen_wp h.tables.counted.nodup (h.device.header_lt hlive)) ?_
  rintro r t (⟨inode, hi, hsec, rfl, rfl⟩ | ⟨hnew, -, rfl, rfl⟩ | ⟨rfl, hbad, rfl⟩)
  · refine ⟨⟨rfl, rfl, rfl, rfl, rfl⟩, rfl, .inl ⟨{ inode with openCnt := inode.openCnt + 1 },
      mem_updateAt.mpr (.inl ⟨inode, hi, rfl, rfl⟩), hsec, rfl, h.reopen hi, ?_, ?_, ?_⟩⟩
    · exact sameHandles_of_agree h (h.reopen hi) rfl rfl
        (h.agree_updateAt (fun _ => rfl) fun _ => rfl)
    · intro i hi' hne
      refine mem_updateAt.mpr (.inr ⟨hi', fun heq => hne ?_⟩)
      rw [eq_of_addr_eq h.tables.counted.nodup hi' hi heq, hsec]
    · exact fun x => live_setInodes (live_updateAt fun _ => by rfl)
  · have hsound := (h.spend (fun _ => False) 1).sound.push hlive hnew
    refine ⟨⟨rfl, rfl, rfl, rfl, rfl⟩, rfl, .inl ⟨newInode s sector, mem_cons_self, rfl,
      rfl, hsound, ?_, fun i hi _ => mem_cons_of_mem _ hi, ?_⟩⟩
    · refine sameHandles_of_agree h hsound rfl rfl fun i hi j hj heq => ?_
      rcases mem_cons.mp hj with rfl | hj
      · exact absurd heq (h.tables.inodes_fresh i hi).ne
      · exact h.agree_self i hi j hj heq
    · intro x hx
      refine live_setInodes (fun i hi => ?_) hx
      rcases mem_cons.mp hi with rfl | hi
      · exact hlive
      · exact live_open hi
  · exact ⟨⟨rfl, rfl, rfl, rfl, rfl⟩, rfl, .inr ⟨rfl, hbad, rfl⟩⟩

lemma live_closing {extra : List Nat} {addr x : Nat}
    (hx : Live (s.setInodes (closing s extra addr)) x) : Live s x := by
  refine live_setInodes (fun i hi => ?_) hx
  unfold closing at hi
  split at hi
  · exact live_updateAt (fun _ => by rfl) i hi
  · exact live_open (mem_removeAt.mp hi).1

lemma inodeClose_keep (h : Sound s (inode.addr :: extra)) (hi : inode ∈ s.openInodes)
    (hkeep : inode.removed = false ∨ inode.addr ∈ references s extra) :
    wp (inodeClose (some inode.addr))
      (fun _ t => SameDevice s t ∧ t.files = s.files ∧ Sound t extra ∧ SameHandles s t ∧
        (∀ i ∈ s.openInodes, i.addr ≠ inode.addr → i ∈ t.openInodes) ∧
        ∀ x, Live t x → Live s x) s := by
  refine wp_mono (inodeClose_sound h hi rfl) ?_
  rintro _ t ⟨hevolves, hexact⟩
  have hsound := hevolves.sound
  rw [hexact hkeep] at hsound ⊢
  refine ⟨⟨rfl, rfl, rfl, rfl, rfl⟩, rfl, hsound,
    sameHandles_of_agree h hsound rfl rfl (h.agree_closing _ _), ?_, fun x hx => live_closing hx⟩
  intro i hi' hne
  simp only [Fs.setInodes_openInodes, closing]
  split
  · exact mem_updateAt.mpr (.inr ⟨hi', hne⟩)
  · exact mem_removeAt.mpr ⟨hi', hne⟩

lemma Sound.file_fresh (h : Sound s extra) (header : Nat) (pos : Int) :
    ¬ ClientHandle s s.nextAddress header pos := by
  rintro ⟨-, file, hf, haddr, -⟩
  exact (h.tables.files_fresh file hf).ne haddr

def fileOpened (s : Fs) (addr : Nat) : Fs :=
  (s.spend 1).bump.setFiles
    ({ addr := s.nextAddress, inode := addr, pos := 0, denyWrite := false } :: s.files)

lemma Sound.fileOpened (h : Sound s (inode.addr :: extra))
    (hi : inode ∈ s.openInodes) (hroot : inode.sector ≠ rootDirSector)
    (hmap : inode.sector ≠ freeMapSector) : Sound (fileOpened s inode.addr) extra where
  device := h.device
  tables :=
    { counted := h.tables.counted.perm (by
        simp only [references, Filesys.fileOpened, Fs.setFiles_files, map_cons, cons_append]
        exact perm_middle.symm)
      sectors := h.tables.sectors
      files := nodup_cons.mpr ⟨fun hmem => by
        obtain ⟨file, hf, haddr⟩ := mem_map.mp hmem
        exact (h.tables.files_fresh file hf).ne haddr, h.tables.files⟩
      inodes_fresh := fun i hi => (h.tables.inodes_fresh i hi).trans (Nat.lt_succ_self _)
      files_fresh := fun file hf => by
        rcases mem_cons.mp hf with rfl | hf
        · exact Nat.lt_succ_self _
        · exact (h.tables.files_fresh file hf).trans (Nat.lt_succ_self _)
      handles := fun file hf => by
        rcases mem_cons.mp hf with rfl | hf
        · exact ⟨le_refl _, rfl⟩
        · exact h.tables.handles file hf
      ordinary := fun file hf i hi' haddr => by
        rcases mem_cons.mp hf with rfl | hf
        · rw [eq_of_addr_eq h.tables.counted.nodup hi' hi haddr]
          exact ⟨hroot, fun heq => absurd heq hmap⟩
        · exact h.tables.ordinary file hf i hi' haddr }
  inodes := h.inodes
  mapFile := by
    obtain ⟨file, hf, hrest⟩ := h.mapFile
    exact ⟨file, mem_cons_of_mem _ hf, hrest⟩
  saved := h.saved

lemma clientHandle_fileOpened (h : Sound s (inode.addr :: extra))
    (hi : inode ∈ s.openInodes) (handle header : Nat) (pos : Int) :
    ClientHandle (fileOpened s inode.addr) handle header pos ↔ ClientHandle s handle header pos ∨
        (handle = s.nextAddress ∧ header = inode.sector ∧ pos = 0) := by
  constructor
  · rintro ⟨hclient, file, hf, rfl, rfl, i, hi', haddr, rfl⟩
    rcases mem_cons.mp hf with rfl | hf
    · exact .inr ⟨rfl, by rw [eq_of_addr_eq h.tables.counted.nodup hi' hi haddr], rfl⟩
    · exact .inl ⟨hclient, file, hf, rfl, rfl, i, hi', haddr, rfl⟩
  · rintro (⟨hclient, file, hf, hrest⟩ | ⟨rfl, rfl, rfl⟩)
    · exact ⟨hclient, file, mem_cons_of_mem _ hf, hrest⟩
    refine ⟨fun heq => ?_, _, mem_cons_self, rfl, rfl, inode, hi, rfl, rfl⟩
    obtain ⟨file, hf, hptr, -⟩ := h.mapFile
    have hsame : file.addr = s.nextAddress := some.inj (hptr.symm.trans heq)
    exact (h.tables.files_fresh file hf).ne hsame

structure Opened (s t : Fs) (r : Option Nat) (header : Nat) : Prop where
  device : SameDevice s t
  fresh : ∀ handle, r = some handle → ∀ x pos, ¬ ClientHandle s handle x pos
  handles : ∀ handle x pos, ClientHandle t handle x pos ↔ ClientHandle s handle x pos ∨
    (r = some handle ∧ x = header ∧ pos = 0)
  heap : s.HeapOk → r ≠ none

lemma fileOpen_sound (inode : Inode) (h : Sound s (inode.addr :: extra)) (hi : inode ∈ s.openInodes)
    (hroot : inode.sector ≠ rootDirSector) (hmap : inode.sector ≠ freeMapSector)
    (hkeep : inode.removed = false ∨ inode.addr ∈ references s extra) :
    wp (fileOpen (some inode.addr)) (fun r t => Sound t extra ∧ Opened s t r inode.sector) s := by
  simp only [fileOpen, wp_bind, wp_malloc]
  cases hgrant : s.heapOk s.allocations with
  | true =>
    simp only [wp_bind, wp_newAddress, wp_modify, wp_pure]
    refine ⟨h.fileOpened hi hroot hmap, ⟨rfl, rfl, rfl, rfl, rfl⟩, ?_, ?_, by simp⟩
    · rintro _ ⟨⟩
      exact h.file_fresh
    · intro handle x pos
      refine (clientHandle_fileOpened h hi handle x pos).trans ?_
      simp [eq_comm]
  | false =>
    have h' := (h.spend (fun _ => False) 1).sound
    simp only [wp_bind, wp_pure]
    refine wp_mono (inodeClose_keep h' hi hkeep) ?_
    rintro _ t ⟨hdev, -, ht, hsame, -⟩
    have hspend : SameDevice s (s.spend 1) := ⟨rfl, rfl, rfl, rfl, rfl⟩
    refine ⟨ht, hspend.trans hdev, by simp, ?_, fun hok => ?_⟩
    · intro handle x pos
      rw [hsame handle x pos]
      simp [clientHandle_spend]
    · rw [hok] at hgrant
      contradiction

lemma Sound.handle (h : Sound s extra) {handle : Nat} (hc : ClientHandle s handle header pos) :
    ∃ file inode, file ∈ s.files ∧ inode ∈ s.openInodes ∧ file.addr = handle ∧ file.pos = pos ∧
    inode.addr = file.inode ∧ inode.sector = header ∧ findAt File.addr s.files handle = some file ∧
    findAt Inode.addr s.openInodes file.inode = some inode ∧
    header ≠ rootDirSector ∧ header ≠ freeMapSector ∧ 0 ≤ pos := by
  obtain ⟨hclient, file, hf, rfl, rfl, inode, hi, haddr, rfl⟩ := hc
  obtain ⟨hroot, hmap⟩ := h.tables.ordinary file hf inode hi haddr
  exact ⟨file, inode, hf, hi, rfl, rfl, haddr, rfl, (findAt_eq_some h.tables.files).mpr ⟨hf, rfl⟩,
    (findAt_eq_some h.tables.counted.nodup).mpr ⟨hi, haddr⟩, hroot,
    fun heq => hclient (hmap heq), (h.tables.handles file hf).1⟩

lemma fileReopen_sound (h : Sound s []) {handle : Nat} (hc : ClientHandle s handle header pos) :
    wp (fileReopen handle) (fun r t => Sound t [] ∧ Opened s t r header) s := by
  obtain ⟨file, inode, hf, hi, -, -, haddr, rfl, hfile, hinode, hroot, hmap, -⟩ := h.handle hc
  simp only [fileReopen, inodeReopen, wp_bind, wp_getFile hfile, wp_getInode hinode,
    wp_modify, wp_pure]
  have hsound := h.reopen hi
  have hmem : { inode with openCnt := inode.openCnt + 1 } ∈ reopened s.openInodes inode.addr :=
    mem_updateAt.mpr (.inl ⟨inode, hi, rfl, rfl⟩)
  have hsame := sameHandles_of_agree h hsound rfl rfl (h.agree_updateAt (fun _ => rfl) fun _ => rfl)
  have hstill : inode.addr ∈ references s [] := h.mem_references hi
  rw [← haddr]
  refine wp_mono (fileOpen_sound { inode with openCnt := inode.openCnt + 1 }
    hsound hmem hroot hmap (.inr hstill)) ?_
  rintro r t ⟨ht, hopened⟩
  have hdev : SameDevice s (s.setInodes (reopened s.openInodes inode.addr)) :=
    ⟨rfl, rfl, rfl, rfl, rfl⟩
  refine ⟨ht, hdev.trans hopened.device, fun handle hr x pos hc => ?_, ?_, hopened.heap⟩
  · exact hopened.fresh handle hr x pos ((hsame handle x pos).mpr hc)
  intro handle x pos
  rw [hopened.handles, hsame]

end Open

/-! ## Closing a file -/

section Close

lemma sameHandles_of_tables (h : SameTables s t) : SameHandles s t := by
  intro handle header pos
  simp only [ClientHandle, h.files, h.freeMapFile, h.openInodes]

def fileRemoved (s : Fs) (handle : Nat) : Fs := s.setFiles (removeAt File.addr s.files handle)

lemma Sound.fileRemoved (h : Sound s []) (hf : file ∈ s.files)
    (hclient : s.freeMapFile ≠ some file.addr) : Sound (fileRemoved s file.addr) [file.inode] where
  device := h.device
  tables :=
    { counted := h.tables.counted.perm (map_perm_removeAt File.inode h.tables.files hf)
      sectors := h.tables.sectors
      files := nodup_removeAt h.tables.files _
      inodes_fresh := h.tables.inodes_fresh
      files_fresh := fun g hg => h.tables.files_fresh g (mem_removeAt.mp hg).1
      handles := fun g hg => h.tables.handles g (mem_removeAt.mp hg).1
      ordinary := fun g hg => h.tables.ordinary g (mem_removeAt.mp hg).1 }
  inodes := h.inodes
  mapFile := by
    obtain ⟨g, hg, hptr, hrest⟩ := h.mapFile
    refine ⟨g, mem_removeAt.mpr ⟨hg, fun heq => hclient ?_⟩, hptr, hrest⟩
    rw [hptr, heq]
  saved := h.saved

lemma clientHandle_fileRemoved (s : Fs) (removed handle header : Nat) (pos : Int) :
    ClientHandle (fileRemoved s removed) handle header pos ↔
      ClientHandle s handle header pos ∧ handle ≠ removed := by
  constructor
  · rintro ⟨hclient, file, hf, rfl, hrest⟩
    obtain ⟨hf, hne⟩ := mem_removeAt.mp hf
    exact ⟨⟨hclient, file, hf, rfl, hrest⟩, hne⟩
  · rintro ⟨⟨hclient, file, hf, rfl, hrest⟩, hne⟩
    exact ⟨hclient, file, mem_removeAt.mpr ⟨hf, hne⟩, rfl, hrest⟩

lemma fileClose_sound (h : Sound s []) {handle : Nat} (hc : ClientHandle s handle header pos) :
    wp (fileClose (some handle))
      (fun _ t => Sound t [] ∧ t.heapOk = s.heapOk ∧ (∀ x, Live t x → Live s x) ∧
        Keeps (Live t) (· = freeMapSector) s.disk t.disk ∧
        ChangesOnly (InExtent (headerAt s.disk freeMapSector)) s.disk t.disk ∧
        ∀ handle' x pos, ClientHandle t handle' x pos ↔
          ClientHandle s handle' x pos ∧ handle' ≠ handle) s := by
  have hclient := hc.1
  obtain ⟨file, inode, hf, hi, rfl, -, haddr, -, hfile, -⟩ := h.handle hc
  have hdeny := (h.tables.handles file hf).2
  have hrem := h.fileRemoved hf hclient
  simp only [fileClose, fileAllowWrite, wp_bind, wp_getFile hfile, hdeny,
    Bool.false_eq_true, if_false, wp_pure, wp_modify]
  refine wp_mono (inodeClose_sound hrem hi haddr) ?_
  rintro _ t ⟨ht, -⟩
  have hclose := hrem.close
  have hlive := fun x => ht.live_iff hclose (by decide) x
  refine ⟨ht.sound, ht.tables.heapOk, fun x hx => ?_, ?_, ht.changes, fun handle' x pos => ?_⟩
  · exact live_closing (s := Filesys.fileRemoved s file.addr) ((hlive x).mp hx)
  · exact ht.keeps.restrict fun x hx => (hlive x).mp hx
  have hsame : SameHandles (Filesys.fileRemoved s file.addr) t :=
    (sameHandles_of_agree hrem hclose rfl rfl (hrem.agree_closing _ _)).trans
      (sameHandles_of_tables ht.tables)
  exact (hsame handle' x pos).trans (clientHandle_fileRemoved s file.addr handle' x pos)

lemma fileClose_sameDevice (h : Sound s []) {handle : Nat} (hc : ClientHandle s handle header pos)
    (hkept : ∀ inode ∈ s.openInodes, inode.sector = header → inode.removed = false) :
    wp (fileClose (some handle)) (fun _ t => SameDevice s t) s := by
  have hclient := hc.1
  obtain ⟨file, inode, hf, hi, rfl, -, haddr, hsec, hfile, -⟩ := h.handle hc
  have hdeny := (h.tables.handles file hf).2
  have hrem := h.fileRemoved hf hclient
  rw [← haddr] at hrem
  simp only [fileClose, fileAllowWrite, wp_bind, wp_getFile hfile, hdeny,
    Bool.false_eq_true, if_false, wp_pure, wp_modify, ← haddr]
  refine wp_mono (inodeClose_keep hrem hi (.inl (hkept inode hi hsec))) ?_
  exact fun _ t ht => ⟨ht.1.size, ht.1.disk, ht.1.freeMap, ht.1.freeMapFile, ht.1.heapOk⟩

end Close

/-! ## Reading, writing and seeking -/

section Transfer

lemma Sound.updateFile (h : Sound s extra)
    (handle : Nat) (haddr : ∀ file, (f file).addr = file.addr)
    (hinode : ∀ file, (f file).inode = file.inode) (hok : ∀ file ∈ s.files, file.addr = handle →
      0 ≤ (f file).pos ∧ (f file).denyWrite = file.denyWrite) :
    Sound (s.setFiles (updateAt File.addr s.files handle f)) extra where
  device := h.device
  tables :=
    { counted := by
        simp only [references, Fs.setFiles_files, Fs.setFiles_openInodes,
          map_updateAt File.inode hinode]
        exact h.tables.counted
      sectors := h.tables.sectors
      files := by
        rw [Fs.setFiles_files, map_updateAt File.addr haddr]
        exact h.tables.files
      inodes_fresh := h.tables.inodes_fresh
      files_fresh := forall_mem_updateAt h.tables.files_fresh
        fun g hg _ => haddr g ▸ h.tables.files_fresh g hg
      handles := forall_mem_updateAt h.tables.handles
        fun g hg he => ⟨(hok g hg he).1, (hok g hg he).2.trans (h.tables.handles g hg).2⟩
      ordinary := forall_mem_updateAt h.tables.ordinary fun g hg _ => by
        rw [hinode, haddr]
        exact h.tables.ordinary g hg }
  inodes := h.inodes
  mapFile := by
    obtain ⟨g, hg, hptr, hrest⟩ := h.mapFile
    by_cases he : g.addr = handle
    · refine ⟨f g, mem_updateAt.mpr (.inl ⟨g, hg, he, rfl⟩), ?_, ?_⟩
      · rw [haddr]
        exact hptr
      · rw [hinode]
        exact hrest
    · exact ⟨g, mem_updateAt.mpr (.inr ⟨hg, he⟩), hptr, hrest⟩
  saved := h.saved

def Moved (s t : Fs) (handle header : Nat) (pos : Int) : Prop :=
  ∀ handle' x pos', ClientHandle t handle' x pos' ↔
    (handle' ≠ handle ∧ ClientHandle s handle' x pos') ∨
      (handle' = handle ∧ x = header ∧ pos' = pos)

lemma moved_updateFile (h : Sound s extra) {handle : Nat} (hc : ClientHandle s handle header pos)
    (haddr : ∀ file, (f file).addr = file.addr) (hinode : ∀ file, (f file).inode = file.inode)
    (hpos : ∀ file ∈ s.files, file.addr = handle → (f file).pos = newPos) :
    Moved s (s.setFiles (updateAt File.addr s.files handle f)) handle header newPos := by
  obtain ⟨hclient, file, hf, hfaddr, -, inode, hi, hiaddr, rfl⟩ := hc
  intro handle' x pos'
  constructor
  · rintro ⟨hclient', g, hg, rfl, rfl, i, hi', hgi, rfl⟩
    rcases mem_updateAt.mp hg with ⟨g', hg', he, rfl⟩ | ⟨hg', he⟩
    · have hsame : g' = file := eq_of_addr_eq h.tables.files hg' hf (he.trans hfaddr.symm)
      rw [hinode, hsame, ← hiaddr] at hgi
      rw [eq_of_addr_eq h.tables.counted.nodup hi' hi hgi]
      exact .inr ⟨(haddr g').trans he, rfl, hpos g' hg' he⟩
    · exact .inl ⟨he, hclient', g, hg', rfl, rfl, i, hi', hgi, rfl⟩
  · rintro (⟨hne, hclient', g, hg, rfl, hrest⟩ | ⟨rfl, rfl, rfl⟩)
    · exact ⟨hclient', g, mem_updateAt.mpr (.inr ⟨hg, hne⟩), rfl, hrest⟩
    refine ⟨hclient, f file, mem_updateAt.mpr (.inl ⟨file, hf, hfaddr, rfl⟩),
      (haddr file).trans hfaddr, hpos file hf hfaddr, inode, hi, ?_, rfl⟩
    rw [hinode]
    exact hiaddr

section

variable (h : Sound s [])

include h

lemma fileSeek_sound {handle : Nat}
    (hc : ClientHandle s handle header pos) (hnew : 0 ≤ newPos) : wp (fileSeek handle newPos)
      (fun _ t => Sound t [] ∧ SameDevice s t ∧ Moved s t handle header newPos) s := by
  obtain ⟨file, inode, -, -, -, -, -, -, hfile, -⟩ := h.handle hc
  simp only [fileSeek, wp_bind, wp_require, wp_getFile hfile]
  exact ⟨hnew, h.updateFile handle (fun _ => rfl) (fun _ => rfl) fun _ _ _ => ⟨hnew, rfl⟩,
    ⟨rfl, rfl, rfl, rfl, rfl⟩, moved_updateFile h hc (fun _ => rfl) (fun _ => rfl) fun _ _ _ => rfl⟩

lemma Sound.pos_eq {handle : Nat} (hc : ClientHandle s handle header pos)
    (hf : file ∈ s.files) (haddr : file.addr = handle) : file.pos = pos := by
  obtain ⟨-, g, hg, hgaddr, hpos, -⟩ := hc
  rw [eq_of_addr_eq h.tables.files hf hg (haddr.trans hgaddr.symm)]
  exact hpos

lemma fileRead_sound {handle : Nat} (hc : ClientHandle s handle header pos)
    (buffer : Memory) (size : Int) : wp (fileRead handle buffer size)
      (fun r t => ∃ n, Progress s (headerAt s.disk header) size pos n ∧
        r = ((n : Int), copy buffer 0 s.disk (dataAddress (headerAt s.disk header) pos) n) ∧
        Sound t [] ∧ SameDevice s t ∧ Moved s t handle header (pos + n)) s := by
  obtain ⟨file, inode, hf, hi, hfaddr, hfpos, -, hsec, hfile, hinode, -, -, hpos⟩ := h.handle hc
  have hdata : inode.data = headerAt s.disk header := hsec ▸ (h.inodes inode hi).cached
  have hfit : Fits s.size inode.data := by
    rw [hdata, ← hsec]
    exact h.device.fits (live_open hi)
  simp only [fileRead, updateFile, wp_bind, wp_getFile hfile, wp_getInode hinode,
    hfpos, wp_modify, wp_pure]
  refine wp_mono (inodeReadAt_spec buffer hfit hpos) ?_
  rintro r t ⟨k, n, rfl, hp, rfl⟩
  have h' := (h.spend (fun _ => False) k).sound
  rw [hdata] at hp ⊢
  refine ⟨n, hp, rfl, ?_, ⟨rfl, rfl, rfl, rfl, rfl⟩, ?_⟩
  · refine h'.updateFile handle (fun _ => rfl) (fun _ => rfl) fun g hg he => ⟨?_, rfl⟩
    have := h.pos_eq hc hg he
    dsimp only
    omega
  · refine moved_updateFile h' hc (fun _ => rfl) (fun _ => rfl) fun g hg he => ?_
    rw [h.pos_eq hc hg he]

lemma fileWrite_sound {handle : Nat} (hc : ClientHandle s handle header pos)
    (buffer : Memory) (size : Int) : wp (fileWrite handle buffer size)
      (fun r t => ∃ n, Progress s (headerAt s.disk header) size pos n ∧ r = (n : Int) ∧
        t.disk = copy s.disk (dataAddress (headerAt s.disk header) pos) buffer 0 n ∧
        t.freeMap = s.freeMap ∧ Sound t [] ∧ t.heapOk = s.heapOk ∧ (∀ x, Live t x ↔ Live s x) ∧
        Keeps (Live s) (· = header) s.disk t.disk ∧ Moved s t handle header (pos + n)) s := by
  obtain ⟨file, inode, hf, hi, hfaddr, hfpos, -, hsec, hfile, hinode, hroot, hmap, hpos⟩ :=
    h.handle hc
  have hlive : Live s header := hsec ▸ live_open hi
  have hdata : inode.data = headerAt s.disk header := hsec ▸ (h.inodes inode hi).cached
  have hfit := h.device.fits hlive
  simp only [fileWrite, updateFile, wp_bind, wp_getFile hfile, wp_getInode hinode,
    hfpos, wp_modify, wp_pure]
  refine wp_mono (inodeWriteAt_spec buffer (hdata ▸ hfit) (h.inodes inode hi).writable hpos) ?_
  rintro r t ⟨k, n, hp, rfl, rfl⟩
  rw [hdata] at hp ⊢
  have hkeep : Keeps (Live s) (· = header) s.disk
      (copy s.disk (dataAddress (headerAt s.disk header) pos) buffer 0 n) := by
    rcases Nat.eq_zero_or_pos n with rfl | hn
    · rw [copy_zero]
      exact .refl _ _ _
    have hroom : pos.toNat + n ≤ sectorSize * bytesToSectors (headerAt s.disk header).length := by
      have hle := hp.le
      have hlen := length_le_bytesToSectors hfit.length_nonneg hfit.length_lt
      simp only [available, sectorSize] at hle ⊢
      omega
    exact h.device.keeps_of_extent hlive (changesOnly_copy s.disk buffer _ _ 0 hroom)
  have hst : SameTables s ((s.spend k).setDisk
      (copy s.disk (dataAddress (headerAt s.disk header) pos) buffer 0 n)) :=
    ⟨rfl, rfl, rfl, rfl, rfl, le_refl _⟩
  have h' := h.keepsData hst hkeep (Ne.symm hroot) (Ne.symm hmap) rfl
  have hiff := h.live_iff_of_keeps hst hkeep (Ne.symm hroot)
  refine ⟨n, hp, rfl, rfl, rfl, ?_, rfl, hiff, hkeep, ?_⟩
  · refine h'.updateFile handle (fun _ => rfl) (fun _ => rfl) fun g hg he => ⟨?_, rfl⟩
    have := h.pos_eq hc hg he
    dsimp only
    omega
  · refine moved_updateFile h' hc (fun _ => rfl) (fun _ => rfl) fun g hg he => ?_
    rw [h.pos_eq hc hg he]

end

end Transfer

end Pintos.Filesys
