import Pintos.Userprog.Descriptors
import Pintos.Userprog.PageFault

/-!
# Mapping files into memory

`mmap` of `userprog/syscall.c`, `mmfiles_insert` of `userprog/process.c` and
`suppl_pt_insert_mmf` of `vm/page.c`.  Nothing calls `hash_init` for the table of
mappings, so inserting into it calls a null function pointer.
-/

namespace Pintos.Userprog

open Foundation Filesys Vm

/-- What `retrieve_file` finds.  The head and the tail of the list are also taken for descriptors;
the file of either is in `struct thread` again, and has a word of it for its length. -/
inductive Retrieved where
  | sentinel (length : Int)
  | descriptor (file : Nat)
  deriving DecidableEq, Repr

/-- Words of `struct thread`: the `fd_num` of the tail, and the lengths of the files of the head and
of the tail, which are `child_load` and `child_lock.semaphore.value`. -/
structure SentinelWords where
  allelemNext : Int
  childLoad : Int
  lockValue : Int
  deriving DecidableEq, Repr

/-- `retrieve_file`.  The head's `fd_num` is `priority`. -/
def retrieveFile (process : Process) (words : SentinelWords) (fd : Int) : Option Retrieved :=
  if process.priority = fd then some (.sentinel words.childLoad)
  else match process.openFiles.find? fun d => d.fdNum = fd with
    | some descriptor => some (.descriptor descriptor.file)
    | none => if words.allelemNext = fd then some (.sentinel words.lockValue) else none

/-! ### The walk over the memory of the kernel -/

namespace Descriptors.ThreadState

/-- `fd->file_struct`. -/
def fileStruct (s : ThreadState) (descriptor : Nat) : Nat := word32 s.memory (descriptor + 8)

/-- `child_load` is at offset 60 and `child_lock.semaphore.value` at offset 68. -/
def words (s : ThreadState) : SentinelWords :=
  ⟨s.allelemNext, intAt s.memory (s.thread + 60), intAt s.memory (s.thread + 68)⟩

def found (s : ThreadState) (descriptor : Nat) : Retrieved :=
  if descriptor = s.thread + priorityOffset then .sentinel s.words.childLoad
  else if descriptor = s.thread + allelemNextOffset then .sentinel s.words.lockValue
  else .descriptor (s.fileStruct descriptor)

structure Shows (s : ThreadState) (process : Process) : Prop where
  priority : process.priority = s.priority
  openFiles : process.openFiles.map (fun d => (d.fdNum, d.file)) =
    s.descriptors.map fun d => (fdNum s.memory d, s.fileStruct d)

lemma found_of_mem {s : ThreadState} {d : Nat} (hd : d ∈ s.descriptors) :
    s.found d = .descriptor (s.fileStruct d) := by
  have hhead : d ≠ s.thread + priorityOffset := fun heq => s.head_not_mem (heq ▸ hd)
  have htail : d ≠ s.thread + allelemNextOffset := fun heq => s.tail_not_mem (heq ▸ hd)
  rw [found, if_neg hhead, if_neg htail]

lemma found_tail (s : ThreadState) :
    s.found (s.thread + allelemNextOffset) = .sentinel s.words.lockValue := by
  rw [found, if_neg (by simp [allelemNextOffset, priorityOffset]), if_pos rfl]

/-- The search in the list of descriptors is the walk along the links. -/
lemma Shows.retrieveFile_eq {s : ThreadState} {process : Process} (h : s.Shows process) (fd : Int)
    {rounds : Nat} (hrounds : s.descriptors.length + 2 ≤ rounds) :
    ∃ r, Descriptors.retrieveFile s.memory s.thread fd rounds = .ok r ∧
      Userprog.retrieveFile process s.words fd = r.map s.found := by
  refine ⟨_, s.retrieveFile_eq fd hrounds, ?_⟩
  have hhead : fdNum s.memory (s.thread + priorityOffset) = process.priority := h.priority.symm
  have hfiles := congrArg (fun l => (l.find? fun d => d.1 = fd).map Prod.snd) h.openFiles
  simp only [List.find?_map, Option.map_map, Function.comp_def] at hfiles
  rw [Userprog.retrieveFile]
  by_cases hpriority : process.priority = fd
  · rw [if_pos hpriority, find?_cons_of_pos (by simpa [hhead] using hpriority), Option.map_some,
      found, if_pos rfl]
  rw [if_neg hpriority, find?_cons_of_neg (by simpa [hhead] using hpriority), List.find?_append]
  cases hfind : s.descriptors.find? fun d => fdNum s.memory d = fd with
  | some d =>
    rw [hfind, Option.map_some, Option.map_eq_some_iff] at hfiles
    obtain ⟨descriptor, hopen, hfile⟩ := hfiles
    simp [hopen, hfile, found_of_mem (mem_of_find?_eq_some hfind)]
  | none =>
    rw [hfind, Option.map_none, Option.map_eq_none_iff] at hfiles
    have htail : s.words.allelemNext = fdNum s.memory (s.thread + allelemNextOffset) := rfl
    by_cases hnext : fdNum s.memory (s.thread + allelemNextOffset) = fd
    · simp [hfiles, htail, hnext, found_tail]
    · simp [hfiles, htail, hnext]

end Descriptors.ThreadState

/-! ### `mmap` -/

/-- `offset += PGSIZE`. -/
def nextPageOffset (offset : Int) : Int := toSigned32 (toUnsigned32 (offset + pgSize))

/-- `addr + offset`. -/
def addrAt (addr : Nat) (offset : Int) : Nat := ptrAdd addr (toUnsigned32 offset)

def pagesFree (addr : Nat) (len : Int) : Nat → Int → KernelAction Bool
  | 0, _ => stop .misuse
  | fuel + 1, offset =>
    if offset < len then do
      if (← getSpe (pgNo (addrAt addr offset))).isSome then return false
      else if (← pagedirGetPage (addrAt addr offset)).isSome then return false
      else pagesFree addr len fuel (nextPageOffset offset)
    else return true

def mmfEntry (file : Nat) (offset : Int) (readBytes : Nat) : SupPageEntry where
  type := .mmf
  file := file
  offset := offset
  readBytes := readBytes
  zeroBytes := 0
  writable := false
  loaded := false
  swapSlotIdx := 0
  swapWritable := false

def supplPtInsertMmf (file : Nat) (ofs : Int) (upage readBytes : Nat) : KernelAction Bool := do
  if ← onFs malloc then
    match ← getSpe (pgNo upage) with
    | some _ => return false
    | none => do
      setSpe (pgNo upage) (some (mmfEntry file ofs readBytes))
      return true
  else return false

def allocMapid : KernelAction Int := do
  let process ← threadCurrent
  updateCurrent (·.setMapidAllocator (incremented process.mapidAllocator))
  return process.mapidAllocator

def insertPages (file : Nat) : Nat → Int → Nat → Int → Nat → KernelAction (Option Nat)
  | 0, _, _, _, _ => stop .misuse
  | fuel + 1, offset, addr, len, pgCnt =>
    if 0 < len then do
      let readBytes := if len < pgSize then len.toNat else pgSize
      if ← supplPtInsertMmf file offset addr readBytes then
        insertPages file fuel (offset + pgSize) (ptrAdd addr pgSize) (len - pgSize) (pgCnt + 1)
      else return none
    else return some pgCnt

/-- `hash_insert` into `mmfiles`: without `hash_init`, the hash function is a null pointer. -/
def insertMmfile (mapid : Int) (mmf : Mmfile) : KernelAction Int := do
  let process ← threadCurrent
  match process.mmfiles with
  | none => stop .wildAccess
  | some table =>
    match table mapid with
    | some _ => return -1
    | none => do
      updateCurrent (·.setMmfiles (some (update table mapid (some mmf))))
      return mapid

def mmfilesInsert (addr file : Nat) (len : Int) : KernelAction Int := do
  if ← onFs malloc then
    let mapid ← allocMapid
    match ← insertPages file (2 ^ 19 + 1) 0 addr len 0 with
    | none => return -1
    | some pgCnt => insertMmfile mapid ⟨file, addr, pgCnt⟩
  else return -1

def mmap (words : SentinelWords) (fd : Int) (addr : Nat) : KernelAction Int :=
  if addr = 0 ∨ pgOfs addr ≠ 0 then pure (-1)
  else if fd = 0 ∨ fd = 1 then pure (-1)
  else do
    let process ← threadCurrent
    match retrieveFile process words fd with
    | none => return -1
    | some (.sentinel len) =>
      -- `file_reopen` would count the opener in a link of the list `open_files`
      if len ≤ 0 then return -1 else stop .wildAccess
    | some (.descriptor file) => do
      let len ← onFs (fileLength file)
      if len ≤ 0 then return -1
      else if ← pagesFree addr len (2 ^ 20 + 1) 0 then
        match ← onFs (fileReopen file) with
        | none => return -1
        | some newFile => mmfilesInsert addr newFile len
      else return -1

/-! ## What `mmap` should do -/

/-- `ceil (len / PGSIZE)`. -/
def pageCount (len : Int) : Nat := ((len + pgSize - 1) / pgSize).toNat

def HasLength (fs : Fs) (handle : Nat) (len : Int) : Prop :=
  ∃ file inode, findAt File.addr fs.files handle = some file ∧
    findAt Inode.addr fs.openInodes file.inode = some inode ∧ inode.data.length = len

structure Mappable (k : Kernel) (process : Process) (pd : PageTable) (fd : Int) (addr : Nat)
    (len : Int) : Prop where
  current : findAt Process.tid k.allList k.current = some process
  pagedir : process.pagedir = some pd
  fd_ge : 2 ≤ fd
  opened : ∃ d, process.openFiles.find? (fun d => d.fdNum = fd) = some d ∧ HasLength k.fs d.file len
  len_pos : 0 < len
  aligned : pgOfs addr = 0
  nonnull : addr ≠ 0
  user : addr + pageCount len * pgSize ≤ physBase
  unmapped : ∀ i < pageCount len, pd.lookup (pgNo addr + i) = none
  unused : ∀ i < pageCount len, process.supplPageTable (pgNo addr + i) = none
  heap : k.fs.HeapOk

structure FreeRegion (k : Kernel) (process : Process) (pd : PageTable) (addr : Nat) (len : Int) :
    Prop where
  current : findAt Process.tid k.allList k.current = some process
  pagedir : process.pagedir = some pd
  aligned : pgOfs addr = 0
  user : addr + pageCount len * pgSize ≤ physBase
  unmapped : ∀ i < pageCount len, pd.lookup (pgNo addr + i) = none
  unused : ∀ i < pageCount len, process.supplPageTable (pgNo addr + i) = none

def HasMemory (fs : Fs) (n : Nat) : Prop := ∀ i < n, fs.heapOk (fs.allocations + i) = true

instance (fs : Fs) (n : Nat) : Decidable (HasMemory fs n) :=
  inferInstanceAs (Decidable (∀ i < n, _))

/-- A table with entries for a mapping that begins at `page`, with `offset` and `len` as in the
loop of `mmfiles_insert`. -/
def withEntries (table : Nat → Option SupPageEntry) (file page : Nat) (offset len : Int) :
    Nat → Option SupPageEntry := fun q =>
  if page ≤ q ∧ ((q : Int) - page) * pgSize < len then
    some (mmfEntry file (offset + (q - page) * pgSize)
      (min (pgSize : Int) (len - (q - page) * pgSize)).toNat)
  else table q

/-- `mapid` is a new id, and one entry has been added for every page of the file. -/
structure MapsFile (process : Process) (t : Kernel) (addr : Nat) (len mapid : Int) : Prop where
  isId : mapid ≠ -1
  fresh : ∀ table, process.mmfiles = some table → table mapid = none
  entries : ∃ file, ∀ page, speOf t page =
    withEntries process.supplPageTable file (pgNo addr) 0 len page

/-! ## The search for pages in use -/

section Search

variable {k : Kernel} {process : Process} {pd : PageTable} {fd : Int} {addr : Nat} {len : Int}

lemma nextPageOffset_eq {offset : Int} (h0 : 0 ≤ offset) (h : offset + pgSize < 2 ^ 31) :
    nextPageOffset offset = offset + pgSize :=
  toSigned32_toUnsigned32 (by simp only [pgSize] at h ⊢; omega) h

lemma nextPageOffset_range (offset : Int) (halign : offset % pgSize = 0) :
    nextPageOffset offset % pgSize = 0 ∧ nextPageOffset offset < 2 ^ 31 := by
  have hlt := toUnsigned32_lt (offset + pgSize)
  simp only [nextPageOffset, pgSize] at halign hlt ⊢
  rcases Nat.lt_or_ge (toUnsigned32 (offset + (4096 : Nat))) (2 ^ 31) with h | h
  · rw [toSigned32_of_lt h]
    simp only [toUnsigned32] at h hlt ⊢
    omega
  rw [toSigned32_of_ge h hlt]
  simp only [toUnsigned32] at h hlt ⊢
  omega

lemma Mappable.region (h : Mappable k process pd fd addr len) : FreeRegion k process pd addr len :=
  ⟨h.current, h.pagedir, h.aligned, h.user, h.unmapped, h.unused⟩

lemma FreeRegion.setFs (h : FreeRegion k process pd addr len) (fs : Fs) :
    FreeRegion (k.setFs fs) process pd addr len :=
  ⟨h.current, h.pagedir, h.aligned, h.user, h.unmapped, h.unused⟩

lemma wp_pagesFree (h : FreeRegion k process pd addr len) (hlen : len ≤ 2 ^ 31 - pgSize)
    (fuel i : Nat) (hi : i ≤ pageCount len) (hfuel : pageCount len < fuel + i)
    (Q : Bool → Kernel → Prop) :
    wp (pagesFree addr len fuel (i * pgSize : Nat)) Q k ↔ Q true k := by
  induction fuel generalizing i with
  | zero => omega
  | succ fuel ih =>
    have huser := h.user
    have halign := h.aligned
    simp only [pgOfs, physBase, pgSize, pageCount] at huser halign hlen hi hfuel
    rw [pagesFree]
    by_cases hlt : ((i * pgSize : Nat) : Int) < len
    · simp only [pgSize] at hlt
      have haddr : addrAt addr ((i * pgSize : Nat) : Int) = addr + i * pgSize := by
        simp only [pgSize]
        rw [addrAt, toUnsigned32_ofNat (by omega), ptrAdd_eq (by omega)]
      have hpage : pgNo (addr + i * pgSize) = pgNo addr + i := by
        simp only [pgNo, pgSize]
        omega
      have hcnt : i < pageCount len := by
        simp only [pageCount, pgSize]
        omega
      have hlook : pd.toPagedir (pgNo addr + i) = none := by
        simp [PageTable.toPagedir, h.unmapped i hcnt]
      have hnext : nextPageOffset ((i * pgSize : Nat) : Int) = ((i + 1) * pgSize : Nat) := by
        rw [nextPageOffset_eq (by omega) (by simp only [pgSize]; omega)]
        push_cast
        ring
      rw [if_pos (by simp only [pgSize]; exact hlt), haddr, hpage]
      simp only [wp_bind, wp_getSpe h.current, h.unused i hcnt, Option.isSome_none,
        Bool.false_eq_true, if_false]
      rw [wp_pagedirGetPage h.current h.pagedir (by simp only [pgSize, physBase]; omega), hpage,
        hlook]
      simp only [Option.isSome_none, Bool.false_eq_true, if_false]
      rw [hnext]
      exact ih (i + 1) hcnt (by simp only [pageCount, pgSize]; omega)
    · rw [if_neg hlt, wp_pure]

lemma pagesFree_outcome (addr : Nat) (hlen : 2 ^ 31 - pgSize < len) (fuel : Nat)
    (offset : Int) (halign : offset % pgSize = 0) (hrange : offset < 2 ^ 31) : outcome
    (pagesFree addr len fuel offset) (fun free t => t = k ∧ free = false) (fun _ => True) k := by
  induction fuel generalizing offset with
  | zero => trivial
  | succ fuel ih =>
    rw [pagesFree, if_pos (by simp only [pgSize] at *; omega)]
    simp only [outcome_bind]
    refine outcome_mono (getSpe_outcome _) ?_ fun _ => id
    rintro spe _ rfl
    split
    · exact ⟨rfl, rfl⟩
    simp only [outcome_bind]
    refine outcome_mono (pagedirGetPage_outcome _) ?_ fun _ => id
    rintro pte _ rfl
    split
    · exact ⟨rfl, rfl⟩
    obtain ⟨halign', hrange'⟩ := nextPageOffset_range offset halign
    exact ih _ halign' hrange'

end Search

/-! ## The entries of a mapping -/

section Insert

variable {k : Kernel} {process : Process} {table : Nat → Option SupPageEntry} {file page : Nat}
  {offset len : Int}

lemma withEntries_empty (h : len ≤ 0) : withEntries table file page offset len = table := by
  funext q
  rw [withEntries, if_neg]
  rintro ⟨hq, hlt⟩
  simp only [pgSize] at hlt
  omega

lemma withEntries_step (hlen : 0 < len) : withEntries (update table page
          (some (mmfEntry file offset (if len < pgSize then len.toNat else pgSize))))
        file (page + 1) (offset + pgSize) (len - pgSize) =
      withEntries table file page offset len := by
  funext q
  have hsize : (pgSize : Int) = 4096 := rfl
  -- the next page's offset and length are those of this page, shifted by a page
  have hshift : ((q : Int) - (page + 1 : Nat)) * pgSize = (q - page) * pgSize - pgSize := by
    push_cast
    ring
  have hread : (if len < pgSize then len.toNat else pgSize) = (min (pgSize : Int) len).toNat := by
    split <;> omega
  simp only [withEntries, hshift, hread]
  rcases Nat.lt_trichotomy q page with h | rfl | h
  · rw [if_neg (by omega), update_of_ne (by omega), if_neg (by omega)]
  · rw [if_neg (by omega), update_self, sub_self, zero_mul, add_zero, sub_zero,
      if_pos ⟨le_refl q, hlen⟩]
  by_cases hin : ((q : Int) - page) * pgSize < len
  · rw [if_pos ⟨h, by omega⟩, if_pos ⟨h.le, hin⟩, add_add_sub_cancel, sub_sub_sub_cancel_right]
  · rw [if_neg (by omega), update_of_ne (by omega), if_neg (by omega)]

lemma hasMemory_succ (fs : Fs) (n : Nat) :
    HasMemory fs (n + 1) ↔ fs.heapOk fs.allocations = true ∧ HasMemory (fs.spend 1) n := by
  constructor
  · intro h
    refine ⟨h 0 n.succ_pos, fun i hi => ?_⟩
    have hnext := h (i + 1) (Nat.succ_lt_succ hi)
    rwa [Nat.add_comm i 1, ← Nat.add_assoc] at hnext
  · rintro ⟨hfirst, hrest⟩ i hi
    cases i with
    | zero => exact hfirst
    | succ i =>
      have hnext := hrest i (Nat.lt_of_succ_lt_succ hi)
      rwa [Nat.add_comm i 1, ← Nat.add_assoc]

lemma wp_supplPtInsertMmf (hcur : findAt Process.tid k.allList k.current = some process)
    {upage readBytes : Nat} (hunused : process.supplPageTable (pgNo upage) = none)
    (Q : Bool → Kernel → Prop) : wp (supplPtInsertMmf file offset upage readBytes) Q k ↔
      if k.fs.heapOk k.fs.allocations then
        Q true ((k.setFs (k.fs.spend 1)).updateProcess k.current
          (·.setSpe (pgNo upage) (some (mmfEntry file offset readBytes))))
      else Q false (k.setFs (k.fs.spend 1)) := by
  have hcur' : findAt Process.tid (k.setFs (k.fs.spend 1)).allList
      (k.setFs (k.fs.spend 1)).current = some process := hcur
  simp only [supplPtInsertMmf, wp_bind, wp_onFs, wp_malloc]
  cases k.fs.heapOk k.fs.allocations with
  | false => simp
  | true =>
    simp only [if_true, wp_bind]
    rw [wp_getSpe hcur', hunused]
    simp [setSpe, updateCurrent]

lemma insertPages_spec (fuel : Nat) {addr cnt : Nat}
    (hcurrent : findAt Process.tid k.allList k.current = some process)
    (halign : pgOfs addr = 0) (huser : addr + pageCount len * pgSize ≤ physBase)
    (hunused : ∀ i < pageCount len, process.supplPageTable (pgNo addr + i) = none)
    (hfuel : pageCount len < fuel) : wp (insertPages file fuel offset addr len cnt)
      (fun pgCnt t => t.current = k.current ∧ t.fs.openInodes = k.fs.openInodes ∧
        (HasMemory k.fs (pageCount len) → pgCnt = some (cnt + pageCount len) ∧
          findAt Process.tid t.allList t.current = some { process with
            supplPageTable := withEntries process.supplPageTable file (pgNo addr) offset len }) ∧
        (¬ HasMemory k.fs (pageCount len) → pgCnt = none)) k := by
  induction fuel generalizing k process addr cnt offset len with
  | zero => omega
  | succ fuel ih =>
    rw [insertPages]
    by_cases hlen : 0 < len
    · have hcnt : pageCount len = pageCount (len - pgSize) + 1 := by
        simp only [pageCount, pgSize]
        omega
      have hnext : ptrAdd addr pgSize = addr + pgSize := by
        simp only [hcnt, pgSize, physBase] at huser ⊢
        exact ptrAdd_eq (by omega)
      have hpage : pgNo (addr + pgSize) = pgNo addr + 1 := by
        simp only [pgNo, pgOfs, pgSize] at halign ⊢
        omega
      simp only [if_pos hlen, wp_bind]
      rw [wp_supplPtInsertMmf hcurrent (hunused 0 (by omega)), hnext]
      cases hmem : k.fs.heapOk k.fs.allocations with
      | false =>
        have hnot : ¬ HasMemory k.fs (pageCount len) := by
          rw [hcnt, hasMemory_succ, hmem]
          simp
        simp only [Bool.false_eq_true, if_false, wp_pure]
        exact ⟨rfl, rfl, fun h => absurd h hnot, fun _ => trivial⟩
      | true =>
        have hcur' := current_updateProcess (k := k.setFs (k.fs.spend 1)) hcurrent
          (f := (·.setSpe (pgNo addr)
            (some (mmfEntry file offset (if len < pgSize then len.toNat else pgSize)))))
          fun _ => rfl
        rw [if_pos rfl, if_pos rfl]
        refine wp_mono (ih hcur' ?_ ?_ ?_ (by omega)) ?_
        · simp only [pgOfs, pgSize] at halign ⊢
          omega
        · rw [hcnt] at huser
          simp only [pgSize] at huser ⊢
          omega
        · intro i hi
          rw [hpage, Process.setSpe_supplPageTable, update_of_ne (by omega),
            Nat.add_assoc, Nat.add_comm 1 i]
          exact hunused (i + 1) (by omega)
        rintro pgCnt t ⟨hcur, hinodes, hdone, hstops⟩
        rw [hcnt, hasMemory_succ]
        refine ⟨hcur, hinodes, ?_, fun h => hstops fun h' => h ⟨hmem, h'⟩⟩
        rintro ⟨-, hrest⟩
        obtain ⟨rfl, hfind⟩ := hdone hrest
        refine ⟨by rw [Nat.add_assoc, Nat.add_comm 1], ?_⟩
        rw [hfind, hpage, Process.setSpe_supplPageTable, withEntries_step hlen]
        rfl
    · have hcnt : pageCount len = 0 := by
        simp only [pageCount, pgSize]
        omega
      have hempty : HasMemory k.fs 0 := fun i hi => absurd hi i.not_lt_zero
      rw [if_neg hlen, wp_pure, hcnt, withEntries_empty (by omega)]
      exact ⟨rfl, rfl, fun _ => ⟨rfl, hcurrent⟩, fun h => absurd hempty h⟩

end Insert

/-! ## The whole call -/

section Whole

variable {k : Kernel} {process : Process} {pd : PageTable} {fd : Int} {words : SentinelWords}
  {addr : Nat} {len : Int}

lemma wp_fileLength {fs : Fs} {handle : Nat} (h : HasLength fs handle len)
    (Q : Int → Fs → Prop) : wp (fileLength handle) Q fs ↔ Q len fs := by
  obtain ⟨file, inode, hfile, hinode, rfl⟩ := h
  simp [fileLength, wp_getFile hfile, wp_getInode hinode]

lemma wp_fileReopen {fs : Fs} {handle : Nat} {file : File} {inode : Inode}
    (hfile : findAt File.addr fs.files handle = some file)
    (hinode : findAt Inode.addr fs.openInodes file.inode = some inode)
    (hmem : fs.heapOk fs.allocations = true) (Q : Option Nat → Fs → Prop) :
    wp (fileReopen handle) Q fs ↔ Q (some fs.nextAddress)
      (fileOpened (fs.setInodes (reopened fs.openInodes file.inode)) file.inode) := by
  simp only [fileReopen, inodeReopen, fileOpen, wp_bind, wp_getFile hfile,
    wp_getInode hinode, wp_modify, wp_pure, wp_malloc, Fs.setInodes_heapOk,
    Fs.setInodes_allocations, hmem, wp_newAddress]
  rfl

lemma wp_insertMmfile (hcur : findAt Process.tid k.allList k.current = some process)
    (mapid : Int) (mmf : Mmfile) (Q : Int → Kernel → Prop) : wp (insertMmfile mapid mmf) Q k ↔
      ∃ table, process.mmfiles = some table ∧
        if (table mapid).isSome then Q (-1) k
        else Q mapid (k.updateProcess k.current
          (·.setMmfiles (some (update table mapid (some mmf))))) := by
  rw [insertMmfile, wp_bind, wp_threadCurrent hcur]
  cases process.mmfiles with
  | none => simp
  | some table =>
    simp only [some.injEq, exists_eq_left']
    cases table mapid with
    | none => simp [updateCurrent]
    | some old => simp

/-- The process with the entries of a new mapping, before the mapping itself is recorded. -/
def withMapping (process : Process) (file addr : Nat) (len : Int) : Process :=
  { process with
    mapidAllocator := incremented process.mapidAllocator
    supplPageTable := withEntries process.supplPageTable file (pgNo addr) 0 len }

lemma mmfilesInsert_reduces (hregion : FreeRegion k process pd addr len) (hlen : len < 2 ^ 31)
    (file : Nat) (hmem : HasMemory k.fs (pageCount len + 1)) :
    ∃ t, findAt Process.tid t.allList t.current = some (withMapping process file addr len) ∧
      t.fs.openInodes = k.fs.openInodes ∧ ∀ Q, wp (mmfilesInsert addr file len) Q k ↔
        wp (insertMmfile process.mapidAllocator ⟨file, addr, pageCount len⟩) Q t := by
  obtain ⟨hcur, -, halign, huser, -, hunused⟩ := hregion
  obtain ⟨hrecord, hpages⟩ := (hasMemory_succ _ _).mp hmem
  have hcur' : findAt Process.tid (k.setFs (k.fs.spend 1)).allList
      (k.setFs (k.fs.spend 1)).current = some process := hcur
  have hnext := current_updateProcess hcur'
    (f := (·.setMapidAllocator (incremented process.mapidAllocator))) fun _ => rfl
  have hcnt : pageCount len < 2 ^ 19 + 1 := by
    simp only [pageCount, pgSize]
    omega
  have hspec : wp (insertPages file (2 ^ 19 + 1) 0 addr len 0) _ _ :=
    insertPages_spec (2 ^ 19 + 1) hnext halign huser hunused hcnt
  obtain ⟨_, t, hloop, -, hinodes, hdone, -⟩ := wp_iff.mp hspec
  obtain ⟨rfl, hfind⟩ := hdone hpages
  refine ⟨t, hfind, hinodes, fun Q => ?_⟩
  simp only [mmfilesInsert, allocMapid, wp_bind, wp_onFs, wp_malloc, hrecord, if_true,
    wp_threadCurrent hcur', updateCurrent, wp_modify, wp_pure]
  rw [wp_of_ok hloop, Nat.zero_add]

lemma Mappable.wp_mmap (h : Mappable k process pd fd addr len) (hfd : process.priority ≠ fd)
    {d : FileDescriptor} (hopened : process.openFiles.find? (fun d => d.fdNum = fd) = some d)
    (hlen : HasLength k.fs d.file len) (Q : Int → Kernel → Prop) :
    wp (mmap words fd addr) Q k ↔ wp (pagesFree addr len (2 ^ 20 + 1) 0) (fun free t =>
          if free then
            wp (fileReopen d.file) (fun newFile fs => wp (match newFile with
                | none => pure (-1)
                | some newFile => mmfilesInsert addr newFile len) Q (t.setFs fs)) t.fs
          else Q (-1) t) k := by
  have hfd2 := h.fd_ge
  rw [mmap, if_neg (by simp [h.nonnull, h.aligned]), if_neg (by omega), wp_bind,
    wp_threadCurrent h.current]
  simp only [retrieveFile, if_neg hfd, hopened, wp_bind, wp_onFs, wp_fileLength hlen]
  rw [if_neg (by have := h.len_pos; omega), wp_bind]
  refine iff_of_eq (congrArg (fun R => wp _ R k) ?_)
  funext free t
  cases free <;> simp

lemma Mappable.reduces (h : Mappable k process pd fd addr len) (hfd : process.priority ≠ fd)
    (hlen : len ≤ 2 ^ 31 - pgSize) (words : SentinelWords) :
    ∃ file t, findAt Process.tid t.allList t.current = some (withMapping process file addr len) ∧
      ∀ Q, wp (mmap words fd addr) Q k ↔
        wp (insertMmfile process.mapidAllocator ⟨file, addr, pageCount len⟩) Q t := by
  obtain ⟨d, hopened, hlength⟩ := h.opened
  obtain ⟨file, inode, hfile, hinode, rfl⟩ := hlength
  have hsize : (pgSize : Int) = 4096 := rfl
  have hregion := h.region.setFs
    (fileOpened (k.fs.setInodes (reopened k.fs.openInodes file.inode)) file.inode)
  obtain ⟨t, hfind, -, hinsert⟩ := mmfilesInsert_reduces hregion (by omega) k.fs.nextAddress
    fun i _ => h.heap _
  refine ⟨k.fs.nextAddress, t, hfind, fun Q => ?_⟩
  have hcnt : pageCount inode.data.length < 2 ^ 20 + 1 + 0 := by
    simp only [pageCount, pgSize]
    omega
  have hsearch := wp_pagesFree h.region hlen (2 ^ 20 + 1) 0 (Nat.zero_le _) hcnt
  rw [Nat.zero_mul, Nat.cast_zero] at hsearch
  rw [h.wp_mmap hfd hopened ⟨file, inode, hfile, hinode, rfl⟩, hsearch, if_pos rfl,
    wp_fileReopen hfile hinode (h.heap _), hinsert]

/-- The descriptor is not hidden by the list's head, the offset of no page overflows, and the next
id can be recorded. -/
structure CanMap (process : Process) (fd len : Int) : Prop where
  fd : process.priority ≠ fd
  len : len ≤ 2 ^ 31 - pgSize
  isId : process.mapidAllocator ≠ -1
  table : ∃ table, process.mmfiles = some table ∧ table process.mapidAllocator = none

lemma mmap_maps (h : Mappable k process pd fd addr len) (hcan : CanMap process fd len)
    (words : SentinelWords) :
    wp (mmap words fd addr) (fun mapid t => MapsFile process t addr len mapid) k := by
  obtain ⟨hfd, hlen, hid, table, htab, hfree⟩ := hcan
  obtain ⟨file, t, hfind, hreduces⟩ := h.reduces hfd hlen words
  rw [hreduces, wp_insertMmfile hfind]
  refine ⟨table, htab, ?_⟩
  rw [hfree]
  refine ⟨hid, ?_, file, fun page => ?_⟩
  · intro table' htab'
    rw [htab] at htab'
    rw [← some.inj htab', hfree]
  · have hafter := current_updateProcess hfind (f := (·.setMmfiles (some
      (update table process.mapidAllocator (some ⟨file, addr, pageCount len⟩))))) fun _ => rfl
    exact speOf_of_current hafter page

theorem mmap_maps_iff (h : Mappable k process pd fd addr len) (words : SentinelWords) :
    wp (mmap words fd addr) (fun mapid t => MapsFile process t addr len mapid) k ↔
      CanMap process fd len := by
  constructor
  · intro hwp
    obtain ⟨d, hopened, hlength⟩ := h.opened
    have hfd : process.priority ≠ fd := by
      intro heq
      have hfd2 := h.fd_ge
      rw [mmap, if_neg (by simp [h.nonnull, h.aligned]), if_neg (by omega), wp_bind,
        wp_threadCurrent h.current, retrieveFile, if_pos heq] at hwp
      simp only [wp_ite, wp_pure] at hwp
      split at hwp
      · exact hwp.isId rfl
      · exact (Action.wp_stop _ _ _).mp hwp
    have hlen : len ≤ 2 ^ 31 - pgSize := by
      by_contra hlong
      rw [h.wp_mmap hfd hopened hlength] at hwp
      obtain ⟨free, t, hsearch, hrest⟩ := wp_iff.mp hwp
      have hnever := pagesFree_outcome (k := k) addr (Int.not_le.mp hlong) (2 ^ 20 + 1) 0 (by rfl)
        (by omega)
      simp only [outcome, hsearch] at hnever
      rw [hnever.2] at hrest
      exact hrest.isId rfl
    obtain ⟨file, t, hfind, hreduces⟩ := h.reduces hfd hlen words
    rw [hreduces, wp_insertMmfile hfind] at hwp
    obtain ⟨table, htable, hwp⟩ := hwp
    cases hold : table process.mapidAllocator with
    | some old =>
      rw [hold] at hwp
      exact absurd rfl hwp.isId
    | none =>
      rw [hold] at hwp
      exact ⟨hfd, hlen, hwp.isId, table, htable, hold⟩
  · intro hcan
    exact mmap_maps h hcan words

end Whole

section FileUser

attribute [local irreducible] wp

def fileUserProcess (mmfiles : Option (Int → Option Mmfile)) : Process :=
  { Process.new 3 with mmfiles, nextFd := 3, openFiles := [⟨2, 3, 1⟩] }

def fileUser (mmfiles : Option (Int → Option Mmfile)) : Kernel :=
  (newProcess.setFs { twoPages.fs with
    openInodes := [⟨0, 4, 1, false, 0, ⟨5, 5000⟩⟩], files := [⟨1, 0, 0, false⟩], nextAddress := 2
  }).setAllList [fileUserProcess mmfiles]

lemma fileUser_mappable (mmfiles : Option (Int → Option Mmfile)) :
    Mappable (fileUser mmfiles) (fileUserProcess mmfiles) .empty 2 0x10000000 5000 where
  current := rfl
  pagedir := rfl
  fd_ge := by decide
  opened := ⟨⟨2, 3, 1⟩, rfl, _, _, rfl, rfl, rfl⟩
  len_pos := by decide
  aligned := rfl
  nonnull := by decide
  user := by decide
  unmapped _ _ := rfl
  unused _ _ := rfl
  heap _ := rfl

theorem mmap_with_table :
    Mappable (fileUser (some fun _ => none)) (fileUserProcess (some fun _ => none)) .empty 2
        0x10000000 5000 ∧ wp (mmap ⟨0, 0, 1⟩ 2 0x10000000)
        (fun mapid t => MapsFile (fileUserProcess (some fun _ => none)) t 0x10000000 5000 mapid)
        (fileUser (some fun _ => none)) := by
  have h := fileUser_mappable (some fun _ => none)
  exact ⟨h, (mmap_maps_iff h ⟨0, 0, 1⟩).mpr ⟨by decide, by decide, by decide, _, rfl, rfl⟩⟩

/-- The table of mappings of a new process was never initialised. -/
theorem mmap_without_table :
    Mappable (fileUser none) (fileUserProcess none) .empty 2 0x10000000 5000 ∧
      ¬ wp (mmap ⟨0, 0, 1⟩ 2 0x10000000)
        (fun mapid t => MapsFile (fileUserProcess none) t 0x10000000 5000 mapid)
        (fileUser none) := by
  refine ⟨fileUser_mappable none, fun h => ?_⟩
  have hfails : ¬ wp (mmap ⟨0, 0, 1⟩ 2 0x10000000) (fun _ _ => True) (fileUser none) := by
    decide +kernel
  exact hfails (wp_mono h fun _ _ _ => trivial)

end FileUser

end Pintos.Userprog
