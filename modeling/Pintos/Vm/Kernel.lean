import Pintos.Userprog.OpenFiles
import Pintos.Userprog.Pagedir

/-!
# The state of the virtual memory code

What `vm/`, `userprog/pagedir.c` and the memory-mapped files of
`userprog/process.c` keep: the user pool of `threads/palloc.c`, the frame table,
and of every live thread its page directory, its supplemental page table and its
mappings.  A page of the user pool is named by its number; the kernel heap is the
one of the file system, so `heapOk` decides there which allocations succeed.
Hash tables are finite maps.
-/

namespace Pintos.Vm

open Foundation Filesys Userprog

inductive KernelPtr where
  | page (number : Nat)
  /-- A `struct frame_table_entry`, which is never page-aligned. -/
  | entry (addr : Nat)
  deriving DecidableEq, Repr

structure FrameTableEntry where
  addr : Nat
  framePtr : Nat
  pagePtr : Nat
  ownerThreadTid : Nat
  deriving DecidableEq, Repr

structure Mapping extends Pte where
  page : Nat
  deriving DecidableEq, Repr

/-- A page directory: the directory entries that have a page table, and the present entries
of these tables. -/
structure PageTable where
  tables : List Nat
  entries : List Mapping
  deriving DecidableEq, Repr

/-- The values of `enum spe_type` that `load_page` tells apart. -/
inductive SpeType where
  | swap
  | file
  | mmf
  | fileSwap
  | mmfSwap
  | other
  deriving DecidableEq, Repr

/-- `struct sup_page_entry`; the first three fields of the union's two members coincide. -/
structure SupPageEntry where
  type : SpeType
  file : Nat
  offset : Int
  readBytes : Nat
  zeroBytes : Nat
  writable : Bool
  loaded : Bool
  swapSlotIdx : Nat
  swapWritable : Bool
  deriving DecidableEq, Repr

structure Mmfile where
  file : Nat
  startAddr : Nat
  pgCnt : Nat
  deriving DecidableEq, Repr

/-- The part of `struct thread` that concerns memory and files.  The supplemental page table is
keyed by page number.  No `mmfiles` means that `hash_init` was not called for it. -/
structure Process where
  tid : Nat
  pagedir : Option PageTable
  supplPageTable : Nat → Option SupPageEntry
  mmfiles : Option (Int → Option Mmfile)
  mapidAllocator : Int
  priority : Int
  nextFd : Int
  openFiles : List FileDescriptor
  exec : Option Nat

namespace Process

@[simps -fullyApplied] def setPagedir (process : Process) (pagedir : Option PageTable) : Process :=
  { process with pagedir }

@[simps -fullyApplied] def setSpe (process : Process) (page : Nat) (spe : Option SupPageEntry) :
    Process := { process with supplPageTable := Function.update process.supplPageTable page spe }

@[simps -fullyApplied] def setMmfiles (process : Process) (mmfiles : Option (Int → Option Mmfile)) :
    Process := { process with mmfiles }

@[simps -fullyApplied] def setMapidAllocator (process : Process) (mapidAllocator : Int) : Process :=
  { process with mapidAllocator }

@[simps -fullyApplied] def setOpenFiles (process : Process) (openFiles : List FileDescriptor) :
    Process := { process with openFiles }

end Process

structure Swap where
  size : Nat
  disk : Memory
  map : Bitmap

structure Kernel where
  fs : Fs
  userPool : Bitmap
  memory : Nat → Memory
  frameTable : List FrameTableEntry
  swap : Swap
  /-- The accessed bits of the kernel's own pages. -/
  kernelAccessed : Nat → Bool
  allList : List Process
  current : Nat

abbrev KernelAction := Action Kernel Fault

namespace Kernel

@[simps -fullyApplied] def setFs (k : Kernel) (fs : Fs) : Kernel := { k with fs }

@[simps -fullyApplied] def setPool (k : Kernel) (userPool : Bitmap) : Kernel := { k with userPool }

@[simps -fullyApplied] def setPage (k : Kernel) (page : Nat) (contents : Memory) : Kernel :=
  { k with memory := Function.update k.memory page contents }

@[simps -fullyApplied] def setFrameTable (k : Kernel) (frameTable : List FrameTableEntry) :
    Kernel := { k with frameTable }

@[simps -fullyApplied] def setSwap (k : Kernel) (swap : Swap) : Kernel := { k with swap }

@[simps -fullyApplied] def setAllList (k : Kernel) (allList : List Process) : Kernel :=
  { k with allList }

@[simps -fullyApplied] def setKernelAccessed (k : Kernel) (kernelAccessed : Nat → Bool) : Kernel :=
  { k with kernelAccessed }

@[simps -fullyApplied] def setCurrent (k : Kernel) (current : Nat) : Kernel := { k with current }

@[simp] lemma setFs_setFs (k : Kernel) (fs fs' : Fs) : (k.setFs fs).setFs fs' = k.setFs fs' := rfl

def updateProcess (k : Kernel) (tid : Nat) (f : Process → Process) : Kernel :=
  k.setAllList (updateAt Process.tid k.allList tid f)

end Kernel

def onFs {α : Type} (x : FsAction α) : KernelAction α := zoom Kernel.fs Kernel.setFs x

/-! ## Threads -/

def threadGetById (tid : Nat) : KernelAction (Option Process) := do
  let k ← Action.get
  return findAt Process.tid k.allList tid

def threadCurrent : KernelAction Process := do
  let k ← Action.get
  match findAt Process.tid k.allList k.current with
  | some process => return process
  | none => stop .misuse

def updateCurrent (f : Process → Process) : KernelAction Unit :=
  Action.modify fun k => k.updateProcess k.current f

/-! ## The user pool -/

structure PallocFlags where
  assert : Bool
  zero : Bool
  user : Bool
  deriving DecidableEq, Repr

def pallocGetPage (flags : PallocFlags) : KernelAction (Option Nat) := do
  let k ← Action.get
  let (pageIdx, usedMap) ← Action.ofExcept (k.userPool.scanAndFlip 0 1 false)
  Action.modify (·.setPool usedMap)
  match pageIdx with
  | some page => do
    if flags.zero then
      Action.modify fun k => k.setPage page (fill (k.memory page) 0 0 pgSize)
    return some page
  | none => do
    require (flags.assert = false) (.panic "palloc_get: out of pages")
    return none

def pallocFreePage : KernelPtr → KernelAction Unit
  | .entry _ => stop (.assertion "pg_ofs (pages) == 0")
  | .page page => do
    let k ← Action.get
    require (page < k.userPool.bitCnt) (.panic "executed an unreachable statement")
    Action.modify fun k => k.setPage page (fill (k.memory page) 0 0xcc pgSize)
    let used ← Action.ofExcept (k.userPool.all page 1)
    require (used = true) (.assertion "bitmap_all (pool->used_map, page_idx, page_cnt)")
    let usedMap ← Action.ofExcept (k.userPool.setMultiple page 1 false)
    Action.modify (·.setPool usedMap)

/-! ## Page directories -/

namespace PageTable

def empty : PageTable := ⟨[], []⟩

def lookup (pd : PageTable) (page : Nat) : Option Mapping := findAt Mapping.page pd.entries page

def toPagedir (pd : PageTable) : Pagedir := fun page => (pd.lookup page).map Mapping.toPte

def update (pd : PageTable) (page : Nat) (f : Mapping → Mapping) : PageTable :=
  { pd with entries := updateAt Mapping.page pd.entries page f }

def add (pd : PageTable) (page frame : Nat) (writable : Bool) : PageTable where
  tables := if page / 1024 ∈ pd.tables then pd.tables else page / 1024 :: pd.tables
  entries := ⟨⟨frame, writable, false, false⟩, page⟩ :: pd.entries

end PageTable

/-- `ASSERT (pd != NULL)` in `lookup_page`. -/
def requirePagedir : Option PageTable → KernelAction PageTable
  | some pd => pure pd
  | none => stop (.assertion "pd != NULL")

/-- The end of `pagedir_set_page`; `found` tells whether `lookup_page` found a page table. -/
def storePte (pd : PageTable) (page frame : Nat) (writable found : Bool) : KernelAction Bool :=
  if found then do
    require (pd.lookup page = none) (.assertion "(*pte & PTE_P) == 0")
    updateCurrent (·.setPagedir (some (pd.add page frame writable)))
    return true
  else return false

/-- `pagedir_set_page` in the page directory of the current thread.  A page table is allocated
when there is none yet. -/
def pagedirSetPage (page : Nat) (kpage : KernelPtr) (writable : Bool) : KernelAction Bool := do
  match kpage with
  | .entry _ => stop (.assertion "pg_ofs (kpage) == 0")
  | .page frame => do
    require (page * pgSize < physBase) (.assertion "is_user_vaddr (upage)")
    let process ← threadCurrent
    let pd ← requirePagedir process.pagedir
    let found ← (if page / 1024 ∈ pd.tables then pure true else onFs malloc)
    storePte pd page frame writable found

def pagedirGetPage (uaddr : Nat) : KernelAction (Option Pte) := do
  let process ← threadCurrent
  require (uaddr < physBase) (.assertion "is_user_vaddr (uaddr)")
  let pd ← requirePagedir process.pagedir
  return pd.toPagedir (pgNo uaddr)

/-- `pagedir_is_accessed`; the upper part of every page directory is the kernel's. -/
def pagedirIsAccessed (pd : Option PageTable) (vpage : Nat) : KernelAction Bool := do
  let pd ← requirePagedir pd
  let k ← Action.get
  if vpage < physBase then return (pd.lookup (pgNo vpage)).any (·.accessed)
  else return k.kernelAccessed (pgNo vpage)

/-- `pagedir_set_accessed (pd, vpage, false)` for the page directory of thread `tid`. -/
def pagedirClearAccessed (tid vpage : Nat) : KernelAction Unit :=
  Action.modify fun k =>
    if vpage < physBase then
      k.updateProcess tid fun process => process.setPagedir
        (process.pagedir.map (·.update (pgNo vpage) ({ · with accessed := false })))
    else k.setKernelAccessed (Function.update k.kernelAccessed (pgNo vpage) false)

def freeMapped : List Mapping → KernelAction Unit
  | [] => pure ()
  | mapping :: rest => do
    pallocFreePage (.page mapping.frame)
    freeMapped rest

def destroyPagedir : KernelAction Unit := do
  let process ← threadCurrent
  match process.pagedir with
  | none => pure ()
  | some pd => do
    updateCurrent (·.setPagedir none)
    freeMapped pd.entries

end Pintos.Vm
