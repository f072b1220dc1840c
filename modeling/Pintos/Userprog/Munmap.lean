import Pintos.Filesys.Denied
import Pintos.Userprog.Mmap

/-!
# Removing a mapping

`munmap` of `userprog/syscall.c` with `mmfiles_remove` and `mmfiles_free_entry` of
`userprog/process.c`.  The entries of the mapping are deleted and modified pages
written back, but the page directory is not touched and no frame is freed.
-/

namespace Pintos.Userprog

open Foundation Filesys Vm

def pagedirIsDirty (uaddr : Nat) : KernelAction Bool := do
  let process ← threadCurrent
  let pd ← requirePagedir process.pagedir
  return (pd.lookup (pgNo uaddr)).any (·.dirty)

def userPage (page : Nat) : KernelAction Memory := do
  let process ← threadCurrent
  let k ← Action.get
  match process.pagedir.bind (·.lookup page) with
  | some mapping => return k.memory mapping.frame
  | none => stop .wildAccess

def writeBack (page : Nat) (spe : SupPageEntry) : KernelAction Unit := do
  onFs (fileSeek spe.file spe.offset)
  let contents ← userPage page
  let _ ← onFs (fileWrite spe.file contents spe.readBytes)
  return ()

def freeEntry (uaddr : Nat) : KernelAction Unit := do
  match ← getSpe (pgNo uaddr) with
  | none => return ()
  | some spe => do
    setSpe (pgNo uaddr) none
    if spe.loaded then
      if ← pagedirIsDirty uaddr then writeBack (pgNo uaddr) spe

def freeEntries (startAddr : Nat) : Nat → Nat → KernelAction Unit
  | 0, _ => return ()
  | pgCnt + 1, offset => do
    freeEntry (ptrAdd startAddr offset)
    freeEntries startAddr pgCnt (offset + pgSize)

def mmfilesFreeEntry (mmf : Mmfile) : KernelAction Unit := do
  freeEntries mmf.startAddr mmf.pgCnt 0
  onFs (fileClose (some mmf.file))

/-- `mmfiles_remove`: without `hash_init`, the hash function is a null pointer. -/
def mmfilesRemove (mapping : Int) : KernelAction Unit := do
  let process ← threadCurrent
  match process.mmfiles with
  | none => stop .wildAccess
  | some table =>
    match table mapping with
    | none => return ()
    | some mmf => do
      updateCurrent (·.setMmfiles (some (update table mapping none)))
      mmfilesFreeEntry mmf

def munmap (mapping : Int) : KernelAction Unit := mmfilesRemove mapping

/-! ## The page directory -/

section Pagedir

variable {k t u : Kernel}

structure SamePages (k t : Kernel) : Prop where
  current : t.current = k.current
  maps : ∀ page, maps t page = maps k page

lemma SamePages.refl (k : Kernel) : SamePages k k := ⟨rfl, fun _ => rfl⟩

lemma SamePages.trans (h : SamePages k t) (h' : SamePages t u) : SamePages k u :=
  ⟨h'.current.trans h.current, fun page => (h'.maps page).trans (h.maps page)⟩

def KeepsPages {α : Type} (x : KernelAction α) : Prop :=
  ∀ k, outcome x (fun _ t => SamePages k t) (fun _ => True) k

section

variable {α β : Type} {x y : KernelAction α}

lemma keepsPages_pure (a : α) : KeepsPages (pure a) := fun k => SamePages.refl k

lemma keepsPages_stop (fault : Fault) : KeepsPages (stop fault : KernelAction α) := fun _ => trivial

lemma keepsPages_get : KeepsPages Action.get := fun k => SamePages.refl k

lemma KeepsPages.bind {f : α → KernelAction β} (hx : KeepsPages x) (hf : ∀ a, KeepsPages (f a)) :
    KeepsPages (x >>= f) := by
  intro k
  rw [outcome_bind]
  refine outcome_mono (hx k) (fun a t ht => ?_) fun _ => id
  exact outcome_mono (hf a t) (fun _ _ hu => ht.trans hu) fun _ => id

lemma keepsPages_onFs (x : FsAction α) : KeepsPages (onFs x) := by
  intro k
  refine outcome_mono (onFs_outcome x) ?_ fun _ => id
  rintro _ _ ⟨fs, rfl⟩
  exact ⟨rfl, fun _ => rfl⟩

lemma keepsPages_updateCurrent {f : Process → Process} (htid : ∀ p, (f p).tid = p.tid)
    (hpd : ∀ p, (f p).pagedir = p.pagedir) : KeepsPages (updateCurrent f) :=
  fun _ => ⟨rfl, maps_updateProcess htid hpd⟩

lemma keepsPages_threadCurrent : KeepsPages threadCurrent := by
  refine keepsPages_get.bind fun k => ?_
  cases findAt Process.tid k.allList k.current with
  | none => exact keepsPages_stop _
  | some process => exact keepsPages_pure _

lemma keepsPages_writeBack (page : Nat) (spe : SupPageEntry) : KeepsPages (writeBack page spe) := by
  refine (keepsPages_onFs _).bind fun _ => .bind ?_ fun contents =>
    (keepsPages_onFs _).bind fun _ => keepsPages_pure _
  refine keepsPages_threadCurrent.bind fun process => keepsPages_get.bind fun k => ?_
  cases process.pagedir.bind (·.lookup page) with
  | none => exact keepsPages_stop _
  | some mapping => exact keepsPages_pure _

lemma keepsPages_pagedirIsDirty (uaddr : Nat) : KeepsPages (pagedirIsDirty uaddr) := by
  refine keepsPages_threadCurrent.bind fun process => .bind ?_ fun pd => keepsPages_pure _
  cases process.pagedir with
  | none => exact keepsPages_stop _
  | some pd => exact keepsPages_pure _

lemma keepsPages_freeEntry (uaddr : Nat) : KeepsPages (freeEntry uaddr) := by
  refine (keepsPages_threadCurrent.bind fun process => keepsPages_pure _).bind fun spe => ?_
  cases spe with
  | none => exact keepsPages_pure _
  | some spe =>
    refine .bind (keepsPages_updateCurrent (fun _ => rfl) fun _ => rfl) fun _ => ?_
    cases spe.loaded with
    | false => exact keepsPages_pure _
    | true =>
      refine (keepsPages_pagedirIsDirty uaddr).bind fun dirty => ?_
      cases dirty with
      | false => exact keepsPages_pure _
      | true => exact keepsPages_writeBack _ spe

lemma keepsPages_freeEntries (startAddr pgCnt offset : Nat) :
    KeepsPages (freeEntries startAddr pgCnt offset) := by
  induction pgCnt generalizing offset with
  | zero => exact keepsPages_pure _
  | succ pgCnt ih => exact (keepsPages_freeEntry _).bind fun _ => ih _

lemma keepsPages_munmap (mapping : Int) : KeepsPages (munmap mapping) := by
  refine keepsPages_threadCurrent.bind fun process => ?_
  cases process.mmfiles with
  | none => exact keepsPages_stop _
  | some table =>
    simp only
    cases table mapping with
    | none => exact keepsPages_pure _
    | some mmf =>
      refine .bind (keepsPages_updateCurrent (fun _ => rfl) fun _ => rfl) fun _ => ?_
      exact (keepsPages_freeEntries _ _ _).bind fun _ => keepsPages_onFs _

lemma maps_of_munmap {k t : Kernel} {mapping : Int}
    (hrun : munmap mapping k = .ok ((), t)) (page : Nat) : maps t page = maps k page := by
  have hkeeps := keepsPages_munmap mapping k
  rw [outcome, hrun] at hkeeps
  exact hkeeps.maps page

end

end Pagedir

/-! ## What `munmap` should do -/

def pteOf (k : Kernel) (page : Nat) : Option Mapping :=
  ((findAt Process.tid k.allList k.current).bind Process.pagedir).bind (·.lookup page)

def Covers (mmf : Mmfile) (page : Nat) : Prop :=
  pgNo mmf.startAddr ≤ page ∧ page < pgNo mmf.startAddr + mmf.pgCnt

structure HasMapping (k : Kernel) (process : Process) (pd : PageTable)
    (table : Int → Option Mmfile) (mapid : Int) (mmf : Mmfile) (header : Nat) : Prop where
  current : findAt Process.tid k.allList k.current = some process
  pagedir : process.pagedir = some pd
  initialised : process.mmfiles = some table
  live : table mapid = some mmf
  fs : DenySound k.fs
  handle : ∃ pos, ClientHandle k.fs mmf.file header pos
  own : ∀ d ∈ process.openFiles, d.file ≠ mmf.file
  aligned : pgOfs mmf.startAddr = 0
  nonnull : mmf.startAddr ≠ 0
  user : mmf.startAddr + mmf.pgCnt * pgSize ≤ physBase
  length : 0 < (headerAt k.fs.disk header).length ∧
    pageCount (headerAt k.fs.disk header).length = mmf.pgCnt

/-- The mapping is gone, everything else is as before, and the file can be mapped there again by
any descriptor for it for which `mmap` works at all. -/
structure Unmapped (k t : Kernel) (process : Process) (table : Int → Option Mmfile) (mapid : Int)
    (mmf : Mmfile) (header : Nat) : Prop where
  absent : ∀ page, Covers mmf page → pteOf t page = none ∧ speOf t page = none
  frames : ∀ page mapping, Covers mmf page → pteOf k page = some mapping →
    ∀ entry ∈ t.frameTable, entry.framePtr = mapping.frame → entry.ownerThreadTid ≠ k.current
  others : ∀ page, ¬ Covers mmf page → pteOf t page = pteOf k page ∧ speOf t page = speOf k page
  mappings : ∃ process', findAt Process.tid t.allList t.current = some process' ∧
    process'.mmfiles = some (update table mapid none) ∧
    ∀ words fd d pos, 2 ≤ fd → process.openFiles.find? (fun d => d.fdNum = fd) = some d →
      ClientHandle k.fs d.file header pos → k.fs.HeapOk →
      CanMap process' fd (headerAt k.fs.disk header).length →
      wp (mmap words fd mmf.startAddr) (fun mapid' u => MapsFile process' u mmf.startAddr
        (headerAt k.fs.disk header).length mapid') t

/-! ## A mapping without loaded pages -/

section Unloaded

variable {k : Kernel} {process : Process} {pd : PageTable}

def withoutEntries (table : Nat → Option SupPageEntry) (page cnt : Nat) :
    Nat → Option SupPageEntry := fun q => if page ≤ q ∧ q < page + cnt then none else table q

lemma withoutEntries_step (table : Nat → Option SupPageEntry) (page cnt : Nat) : withoutEntries
    (update table page none) (page + 1) cnt = withoutEntries table page (cnt + 1) := by
  funext q
  simp only [withoutEntries]
  by_cases hq : q = page
  · subst hq
    rw [if_neg (by omega), if_pos (by omega), update_self]
  by_cases hin : page + 1 ≤ q ∧ q < page + 1 + cnt
  · rw [if_pos hin, if_pos (by omega)]
  · rw [if_neg hin, if_neg (by omega), update_of_ne hq]

lemma wp_freeEntry (hcur : findAt Process.tid k.allList k.current = some process)
    (hpd : process.pagedir = some pd) {uaddr : Nat} (hunmapped : pd.lookup (pgNo uaddr) = none) :
    wp (freeEntry uaddr) (fun _ t => t.fs = k.fs ∧ t.frameTable = k.frameTable ∧
        findAt Process.tid t.allList t.current = some (process.setSpe (pgNo uaddr) none)) k := by
  rw [freeEntry, wp_bind, wp_getSpe hcur]
  cases hspe : process.supplPageTable (pgNo uaddr) with
  | none =>
    have hsame : process.setSpe (pgNo uaddr) none = process := by simp [Process.setSpe, ← hspe]
    rw [hsame]
    exact ⟨rfl, rfl, hcur⟩
  | some spe =>
    have hcur' := current_updateProcess hcur (f := (·.setSpe (pgNo uaddr) none)) fun _ => rfl
    have hdirty : ∀ Q, wp (pagedirIsDirty uaddr) Q
        (k.updateProcess k.current (·.setSpe (pgNo uaddr) none)) ↔
          Q false (k.updateProcess k.current (·.setSpe (pgNo uaddr) none)) := by
      intro Q
      rw [pagedirIsDirty, wp_bind, wp_threadCurrent hcur']
      simp [hpd, requirePagedir, hunmapped]
    simp only [setSpe, updateCurrent, wp_bind, wp_modify]
    cases spe.loaded with
    | false => exact ⟨rfl, rfl, hcur'⟩
    | true =>
      simp only [if_true, wp_bind]
      rw [hdirty]
      exact ⟨rfl, rfl, hcur'⟩

lemma freeEntries_spec (startAddr pgCnt offset : Nat)
    (hcur : findAt Process.tid k.allList k.current = some process)
    (hpd : process.pagedir = some pd) (halign : (startAddr + offset) % pgSize = 0)
    (huser : startAddr + offset + pgCnt * pgSize ≤ physBase)
    (hunmapped : ∀ i < pgCnt, pd.lookup (pgNo (startAddr + offset) + i) = none) :
    wp (freeEntries startAddr pgCnt offset) (fun _ t => t.fs = k.fs ∧ t.frameTable = k.frameTable ∧
        findAt Process.tid t.allList t.current = some { process with
          supplPageTable :=
            withoutEntries process.supplPageTable (pgNo (startAddr + offset)) pgCnt }) k := by
  induction pgCnt generalizing k process offset with
  | zero =>
    have hnone : withoutEntries process.supplPageTable (pgNo (startAddr + offset)) 0 =
        process.supplPageTable := by
      funext q
      rw [withoutEntries, if_neg (by omega)]
    refine ⟨rfl, rfl, ?_⟩
    rw [hnone]
    exact hcur
  | succ pgCnt ih =>
    have haddr : ptrAdd startAddr offset = startAddr + offset := by
      simp only [pgSize, physBase] at huser
      exact ptrAdd_eq (by omega)
    have hpage : pgNo (startAddr + (offset + pgSize)) = pgNo (startAddr + offset) + 1 := by
      simp only [pgNo, pgSize] at halign ⊢
      omega
    rw [freeEntries, wp_bind, haddr]
    refine wp_mono (wp_freeEntry hcur hpd (hunmapped 0 (by omega))) ?_
    rintro _ t ⟨hfs, hframes, hcur'⟩
    refine wp_mono (ih (offset + pgSize) hcur' hpd ?_ ?_ ?_) ?_
    · simp only [pgSize] at halign ⊢
      omega
    · simp only [pgSize] at huser ⊢
      omega
    · intro i hi
      rw [hpage, Nat.add_assoc, Nat.add_comm 1 i]
      exact hunmapped (i + 1) (by omega)
    · rintro _ u ⟨hfs', hframes', hcurrent''⟩
      refine ⟨hfs'.trans hfs, hframes'.trans hframes, ?_⟩
      rw [hcurrent'', hpage, Process.setSpe_supplPageTable, withoutEntries_step]
      rfl

end Unloaded

/-! ## The whole call -/

section Whole

variable {k t : Kernel} {process : Process} {pd : PageTable} {table : Int → Option Mmfile}
  {mapid : Int} {mmf : Mmfile} {header : Nat}

lemma maps_eq_isSome (k : Kernel) (page : Nat) : maps k page = (pteOf k page).isSome := by
  unfold maps pteOf
  cases (findAt Process.tid k.allList k.current).bind Process.pagedir <;> rfl

lemma pteOf_of_current (h : findAt Process.tid k.allList k.current = some process)
    (hpd : process.pagedir = some pd) (page : Nat) : pteOf k page = pd.lookup page := by
  rw [pteOf, h, Option.bind_some, hpd, Option.bind_some]

lemma hasLength_of_handle {fs : Fs} (h : DenySound fs) {handle header : Nat} {pos : Int}
    (hc : ClientHandle fs handle header pos) :
    HasLength fs handle (headerAt fs.disk header).length ∧ Live fs header := by
  obtain ⟨file, inode, -, hi, -, -, rfl, -, hfile, hinode⟩ := h.handle hc
  have hcached := (h.sound.inodes inode.undenied (mem_map_of_mem hi)).cached
  exact ⟨⟨file, inode, hfile, hinode, congrArg InodeDisk.length hcached⟩, live_open hi⟩

section

variable (h : HasMapping k process pd table mapid mmf header)

include h

lemma HasMapping.mappable
    (hunmapped : ∀ page, Covers mmf page → pd.lookup page = none) {process' : Process}
    (hcur : findAt Process.tid t.allList t.current = some process')
    (hpd : process'.pagedir = some pd) (hfiles : process'.openFiles = process.openFiles)
    (hspt : process'.supplPageTable =
      withoutEntries process.supplPageTable (pgNo mmf.startAddr) mmf.pgCnt)
    (hcloses : Closes k.fs t.fs mmf.file) {fd : Int} {d : FileDescriptor} {pos : Int}
    (hfd : 2 ≤ fd) (hopened : process.openFiles.find? (fun d => d.fdNum = fd) = some d)
    (hc : ClientHandle k.fs d.file header pos) (hheap : k.fs.HeapOk) :
    Mappable t process' pd fd mmf.startAddr (headerAt k.fs.disk header).length := by
  have hne := h.own d (mem_of_find?_eq_some hopened)
  obtain ⟨hlen, hlive⟩ := hasLength_of_handle hcloses.sound
    ((hcloses.handles d.file header pos).mpr ⟨hc, hne⟩)
  rw [hcloses.keeps.header hlive] at hlen
  refine ⟨hcur, hpd, hfd, ⟨d, hfiles ▸ hopened, hlen⟩, h.length.1, h.aligned, h.nonnull, ?_, ?_,
    ?_, ?_⟩
  · rw [h.length.2]
    exact h.user
  · intro i hi
    rw [h.length.2] at hi
    exact hunmapped _ ⟨by omega, by omega⟩
  · intro i hi
    rw [h.length.2] at hi
    rw [hspt, withoutEntries, if_pos (by omega)]
  · intro n
    rw [hcloses.heapOk]
    exact hheap n

lemma munmap_unmaps
    (hunmapped : ∀ page, Covers mmf page → pd.lookup page = none) :
    wp (munmap mapid) (fun _ t => Unmapped k t process table mapid mmf header) k := by
  obtain ⟨pos, hhandle⟩ := h.handle
  have hcur' := current_updateProcess h.current
    (f := (·.setMmfiles (some (update table mapid none)))) fun _ => rfl
  rw [munmap, mmfilesRemove, wp_bind, wp_threadCurrent h.current]
  simp only [h.initialised, h.live, mmfilesFreeEntry, updateCurrent, wp_bind, wp_modify, wp_onFs]
  refine wp_mono (freeEntries_spec mmf.startAddr mmf.pgCnt 0 hcur' h.pagedir h.aligned h.user ?_) ?_
  · intro i hi
    exact hunmapped _ ⟨by simp, by simpa using hi⟩
  rintro _ u ⟨hfs, hframes, hu⟩
  rw [hfs]
  refine wp_mono (fileClose_denySound h.fs hhandle) ?_
  intro _ fs hcloses
  have ht : findAt Process.tid (u.setFs fs).allList (u.setFs fs).current = _ := hu
  have hpte : ∀ page, pteOf (u.setFs fs) page = pteOf k page := fun page => by
    rw [pteOf_of_current ht h.pagedir, pteOf_of_current h.current h.pagedir]
  have hspe := speOf_of_current ht
  refine ⟨fun page hpage => ⟨?_, ?_⟩, fun page mapping hpage hmapping => ?_,
    fun page hpage => ⟨hpte page, ?_⟩, _, ht, rfl, ?_⟩
  · rw [hpte, pteOf_of_current h.current h.pagedir, hunmapped page hpage]
  · rw [hspe]
    exact if_pos hpage
  · rw [pteOf_of_current h.current h.pagedir, hunmapped page hpage] at hmapping
    contradiction
  · rw [hspe, speOf_of_current h.current]
    exact if_neg hpage
  · intro words fd d pos hfd hopened hc hheap hcan
    have hmappable := h.mappable hunmapped ht h.pagedir rfl rfl hcloses hfd hopened hc hheap
    exact mmap_maps hmappable hcan words

end

theorem munmap_undoes_iff (h : HasMapping k process pd table mapid mmf header) :
    wp (munmap mapid) (fun _ t => Unmapped k t process table mapid mmf header) k ↔
      ∀ page, Covers mmf page → maps k page = false := by
  constructor
  · intro hwp page hpage
    obtain ⟨_, t, hrun, ht⟩ := wp_iff.mp hwp
    rw [← maps_of_munmap hrun page, maps_eq_isSome, (ht.absent page hpage).1]
    rfl
  · intro hunmapped
    refine munmap_unmaps h fun page hpage => ?_
    have hmaps := hunmapped page hpage
    rw [maps_of_current h.current h.pagedir] at hmaps
    exact Option.not_isSome_iff_eq_none.mp (by rw [hmaps]; simp)

end Whole

section OneByte

attribute [local irreducible] wp outcome

def openOneByte : FsAction (Option Nat) := do
  filesysInit true
  let _ ← filesysCreate (some nameA) 1
  filesysOpen (some nameA)

lemma openOneByte_opens : outcome openOneByte (fun handle fs => Sound fs [] ∧
      ∀ h, handle = some h → ∃ header pos, ClientHandle fs h header pos) (fun _ => True)
      blankDevice := by
  simp only [openOneByte, outcome_bind, blankDevice]
  refine outcome_mono (filesysInit_outcome 8 (fun _ => 0) (fun _ => true) fun _ _ => 0)
    ?_ fun _ _ => trivial
  rintro _ fs ⟨hstarted, -, -⟩
  refine outcome_of_wp (wp_mono
    (filesysCreate_spec hstarted.sound nameA (by norm_num) (by norm_num)) ?_)
  rintro _ t ⟨ht, -⟩
  refine outcome_of_wp (wp_mono (fsLayer.open_spec t nameA ht) ?_)
  rintro handle u ⟨hu, hlive, -⟩
  exact ⟨hu, fun h hh => (hlive h).mpr (.inr hh)⟩

lemma openOneByte_length : wp openOneByte (fun handle fs => fs.heapOk fs.allocations = true ∧
      ∃ h, handle = some h ∧ wp (fileLength h) (fun len _ => len = 1) fs) blankDevice := by
  decide +kernel

structure IsOneByte (fs : Fs) (handle header : Nat) : Prop where
  sound : DenySound fs
  opened : ∃ pos, ClientHandle fs handle header pos
  length : (headerAt fs.disk header).length = 1

lemma exists_oneByte : ∃ fs handle header, IsOneByte fs handle header ∧ Sound fs [] ∧
    fs.heapOk fs.allocations = true := by
  obtain ⟨_, fs, hrun, hmem, handle, rfl, hlen⟩ := wp_iff.mp openOneByte_length
  have hopens := openOneByte_opens
  rw [outcome, hrun] at hopens
  obtain ⟨header, pos, hc⟩ := hopens.2 handle rfl
  have hsound := DenySound.of_sound hopens.1
  refine ⟨fs, handle, header, ⟨hsound, ⟨pos, hc⟩, ?_⟩, hopens.1, hmem⟩
  exact (wp_fileLength (hasLength_of_handle hsound hc).1 fun len _ => len = 1).mp hlen

def mapperFile (handle : Nat) : Mmfile := ⟨handle, 0x10000000, 1⟩

def mapperTable (handle : Nat) : Int → Option Mmfile := fun mapid =>
  if mapid = 0 then some (mapperFile handle) else none

def mapperProcess (pd : PageTable) (handle : Nat) : Process :=
  { Process.new 3 with
    pagedir := some pd
    supplPageTable := update (fun _ => none) 0x10000
      (some { mmfEntry handle 0 1 with loaded := (pd.lookup 0x10000).isSome })
    mmfiles := some (mapperTable handle)
    mapidAllocator := 1 }

def mapper (pd : PageTable) (fs : Fs) (handle : Nat) : Kernel :=
  (newProcess.setFs fs).setAllList [mapperProcess pd handle]

lemma covers_mapperFile {handle page : Nat} : Covers (mapperFile handle) page ↔ page = 0x10000 := by
  simp only [Covers, mapperFile, pgNo, pgSize]
  omega

lemma mapper_hasMapping {fs : Fs} {handle header : Nat}
    (h : IsOneByte fs handle header) (pd : PageTable) : HasMapping (mapper pd fs handle)
    (mapperProcess pd handle) pd (mapperTable handle) 0 (mapperFile handle) header where
  current := rfl
  pagedir := rfl
  initialised := rfl
  live := rfl
  fs := h.sound
  handle := h.opened
  own _ hd := absurd hd not_mem_nil
  aligned := by
    unfold pgOfs mapperFile pgSize
    norm_num
  nonnull := by simp [mapperFile]
  user := by simp [mapperFile, pgSize, physBase]
  length := by
    rw [show (mapper pd fs handle).fs = fs from rfl, h.length]
    simp [pageCount, pgSize, mapperFile]

theorem munmap_unloaded : ∃ fs handle header,
    HasMapping (mapper .empty fs handle) (mapperProcess .empty handle) .empty (mapperTable handle) 0
      (mapperFile handle) header ∧ wp (munmap 0)
      (fun _ t => Unmapped (mapper .empty fs handle) t (mapperProcess .empty handle)
        (mapperTable handle) 0 (mapperFile handle) header) (mapper .empty fs handle) := by
  obtain ⟨fs, handle, header, hfile, -⟩ := exists_oneByte
  have h := mapper_hasMapping hfile .empty
  exact ⟨fs, handle, header, h, (munmap_undoes_iff h).mpr fun _ _ => rfl⟩

def loadedPage : PageTable := PageTable.empty.add 0x10000 0 true

/-- The page has been loaded: `munmap` leaves it in the page directory. -/
theorem munmap_leaves_loaded_page : ∃ fs handle header,
    HasMapping (mapper loadedPage fs handle) (mapperProcess loadedPage handle) loadedPage
      (mapperTable handle) 0 (mapperFile handle) header ∧ ¬ wp (munmap 0)
      (fun _ t => Unmapped (mapper loadedPage fs handle) t (mapperProcess loadedPage handle)
        (mapperTable handle) 0 (mapperFile handle) header) (mapper loadedPage fs handle) := by
  obtain ⟨fs, handle, header, hfile, -⟩ := exists_oneByte
  have h := mapper_hasMapping hfile loadedPage
  refine ⟨fs, handle, header, h, fun hwp => ?_⟩
  obtain ⟨_, t, hrun, ht⟩ := wp_iff.mp hwp
  have hstill := maps_of_munmap hrun 0x10000
  rw [maps_eq_isSome, (ht.absent 0x10000 (covers_mapperFile.mpr rfl)).1,
    maps_of_current h.current h.pagedir, loadedPage, PageTable.lookup_add] at hstill
  simp at hstill

end OneByte

end Pintos.Userprog
