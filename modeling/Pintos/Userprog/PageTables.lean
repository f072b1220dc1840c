import Pintos.Threads.Palloc

/-!
# Page directories and page tables

`userprog/pagedir.c` with `threads/pte.h`: a directory and its page tables are
pages of 1024 packed words.  `words` gives the words of the page at a kernel
virtual address.  What `palloc_get_page` returns is chosen by the environment.
The translation lookaside buffer is not modelled, so `invalidate_pagedir` does
nothing.
-/

namespace Pintos.Userprog.PageTables

open Foundation

abbrev Word := BitVec 32

def pteAddr : Word := 0xfffff000#32

def pteP : Word := 0x1#32

def pteW : Word := 0x2#32

def pteU : Word := 0x4#32

def pteA : Word := 0x20#32

def pteD : Word := 0x40#32

def kernelBase : Word := 0xc0000000#32

def pgOfs (va : Word) : Word := va &&& 0xfff#32

def ptNo (va : Word) : Nat := ((va &&& 0x3ff000#32) >>> 12).toNat

def pdNo (va : Word) : Nat := (va >>> 22).toNat

def ptov (paddr : Word) : Except Fault Word := do
  assertThat (paddr < kernelBase) "(void *) paddr < PHYS_BASE"
  return paddr + kernelBase

def vtop (vaddr : Word) : Except Fault Word := do
  assertThat (kernelBase ≤ vaddr) "is_kernel_vaddr (vaddr)"
  return vaddr - kernelBase

def pdeCreate (pt : Word) : Except Fault Word := do
  assertThat (pgOfs pt = 0) "pg_ofs (pt) == 0"
  return (← vtop pt) ||| pteU ||| pteP ||| pteW

def pdeGetPt (pde : Word) : Except Fault Word := do
  assertThat (pde &&& pteP ≠ 0) "pde & PTE_P"
  ptov (pde &&& pteAddr)

def pteCreateKernel (page : Word) (writable : Bool) : Except Fault Word := do
  assertThat (pgOfs page = 0) "pg_ofs (page) == 0"
  return (← vtop page) ||| pteP ||| (if writable then pteW else 0)

def pteCreateUser (page : Word) (writable : Bool) : Except Fault Word := do
  return (← pteCreateKernel page writable) ||| pteU

def pteGetPage (pte : Word) : Except Fault Word := ptov (pte &&& pteAddr)

/-- `used` gives the bits of the used maps, for the pages of the two pools. -/
structure Pages where
  words : Word → Nat → Word
  used : Word → Option Bool

abbrev PagesAction := Action Pages Fault

namespace Pages

@[simps -fullyApplied] def allocate (p : Pages) (page : Word) (contents : Nat → Word) : Pages where
  words := update p.words page contents
  used := update p.used page (some true)

@[simps -fullyApplied] def setWord (p : Pages) (page : Word) (i : Nat) (word : Word) : Pages :=
  { p with words := update p.words page (update (p.words page) i word) }

@[simps -fullyApplied] def free (p : Pages) (page : Word) : Pages where
  words := update p.words page fun _ => 0xcccccccc#32
  used := update p.used page (some false)

end Pages

def pallocFreePage (page : Word) : PagesAction Unit := do
  require (pgOfs page = 0) (.assertion "pg_ofs (pages) == 0")
  if page = 0 then return ()
  else do
    let p ← Action.get
    match p.used page with
    | some used => do
      require (used = true) (.assertion "bitmap_all (pool->used_map, page_idx, page_cnt)")
      Action.modify (·.free page)
    | none => stop (.panic "executed an unreachable statement")

/-! ## Lookup -/

def tableEntry (pd vaddr : Word) : PagesAction (Option (Word × Nat)) := do
  let p ← Action.get
  let pt ← Action.ofExcept (pdeGetPt (p.words pd (pdNo vaddr)))
  return some (pt, ptNo vaddr)

/-- `lookup_page`: the page of the entry and its index there.  `palloc` is what `palloc_get_page`
returns if it is called. -/
def lookupPage (pd vaddr : Word) (create : Bool) (palloc : Word) :
    PagesAction (Option (Word × Nat)) := do
  require (pd ≠ 0) (.assertion "pd != NULL")
  require (create = false ∨ vaddr < kernelBase)
    (.assertion "!create || is_user_vaddr (vaddr)")
  let p ← Action.get
  if p.words pd (pdNo vaddr) = 0 then
    if create = true then
      if palloc = 0 then return none
      else do
        Action.modify (·.allocate palloc fun _ => 0)
        let pde ← Action.ofExcept (pdeCreate palloc)
        Action.modify (·.setWord pd (pdNo vaddr) pde)
        tableEntry pd vaddr
    else return none
  else tableEntry pd vaddr

def pagedirCreate (initPageDir palloc : Word) : PagesAction Word := do
  if palloc = 0 then return 0
  else do
    Action.modify fun p => p.allocate palloc (p.words initPageDir)
    return palloc

def pagedirSetPage (initPageDir : Word) (ramPages : Nat) (pd upage kpage : Word) (writable : Bool)
    (palloc : Word) : PagesAction Bool := do
  require (pgOfs upage = 0) (.assertion "pg_ofs (upage) == 0")
  require (pgOfs kpage = 0) (.assertion "pg_ofs (kpage) == 0")
  require (upage < kernelBase) (.assertion "is_user_vaddr (upage)")
  let frame ← Action.ofExcept (vtop kpage)
  require ((frame >>> 12).toNat < ramPages)
    (.assertion "vtop (kpage) >> PTSHIFT < init_ram_pages")
  require (pd ≠ initPageDir) (.assertion "pd != init_page_dir")
  match ← lookupPage pd upage true palloc with
  | some (pt, i) => do
    let p ← Action.get
    require (p.words pt i &&& pteP = 0) (.assertion "(*pte & PTE_P) == 0")
    let pte ← Action.ofExcept (pteCreateUser kpage writable)
    Action.modify (·.setWord pt i pte)
    return true
  | none => return false

def pagedirGetPage (pd uaddr : Word) : PagesAction Word := do
  require (uaddr < kernelBase) (.assertion "is_user_vaddr (uaddr)")
  match ← lookupPage pd uaddr false 0 with
  | some (pt, i) => do
    let p ← Action.get
    if p.words pt i &&& pteP ≠ 0 then do
      let page ← Action.ofExcept (pteGetPage (p.words pt i))
      return page + pgOfs uaddr
    else return 0
  | none => return 0

def pagedirClearPage (pd upage : Word) : PagesAction Unit := do
  require (pgOfs upage = 0) (.assertion "pg_ofs (upage) == 0")
  require (upage < kernelBase) (.assertion "is_user_vaddr (upage)")
  match ← lookupPage pd upage false 0 with
  | some (pt, i) => do
    let p ← Action.get
    if p.words pt i &&& pteP ≠ 0 then Action.modify (·.setWord pt i (p.words pt i &&& ~~~pteP))
  | none => return ()

def isFlag (flag pd vpage : Word) : PagesAction Bool := do
  match ← lookupPage pd vpage false 0 with
  | some (pt, i) => do
    let p ← Action.get
    return decide (p.words pt i &&& flag ≠ 0)
  | none => return false

def setFlag (flag pd vpage : Word) (value : Bool) : PagesAction Unit := do
  match ← lookupPage pd vpage false 0 with
  | some (pt, i) => do
    let p ← Action.get
    if value then Action.modify (·.setWord pt i (p.words pt i ||| flag))
    else Action.modify (·.setWord pt i (p.words pt i &&& ~~~flag))
  | none => return ()

def pagedirIsDirty (pd vpage : Word) : PagesAction Bool := isFlag pteD pd vpage

def pagedirSetDirty (pd vpage : Word) (dirty : Bool) : PagesAction Unit :=
  setFlag pteD pd vpage dirty

def pagedirIsAccessed (pd vpage : Word) : PagesAction Bool := isFlag pteA pd vpage

def pagedirSetAccessed (pd vpage : Word) (accessed : Bool) : PagesAction Unit :=
  setFlag pteA pd vpage accessed

def destroyTable (pt : Word) (i : Nat) : Nat → PagesAction Unit
  | 0 => return ()
  | remaining + 1 => do
    let p ← Action.get
    if p.words pt i &&& pteP ≠ 0 then do
      let page ← Action.ofExcept (pteGetPage (p.words pt i))
      pallocFreePage page
    destroyTable pt (i + 1) remaining

def destroyTables (pd : Word) (i : Nat) : Nat → PagesAction Unit
  | 0 => return ()
  | remaining + 1 => do
    let p ← Action.get
    if p.words pd i &&& pteP ≠ 0 then do
      let pt ← Action.ofExcept (pdeGetPt (p.words pd i))
      destroyTable pt 0 1024
      pallocFreePage pt
    destroyTables pd (i + 1) remaining

def pagedirDestroy (initPageDir pd : Word) : PagesAction Unit := do
  if pd = 0 then return ()
  else do
    require (pd ≠ initPageDir) (.assertion "pd != init_page_dir")
    destroyTables pd 0 (pdNo kernelBase)
    pallocFreePage pd

/-! ## The base page directory -/

/-- The loop of `paging_init` over the pages of memory; `pt` is the current page table, and `palloc`
gives the page that is allocated for a new one. -/
def pagingInitLoop (pd : Word) (palloc : Nat → Word) (writable : Nat → Bool) (pt : Word)
    (page : Nat) : Nat → PagesAction Unit
  | 0 => return ()
  | remaining + 1 => do
    let vaddr ← Action.ofExcept (ptov (BitVec.ofNat 32 (page * 4096)))
    let p ← Action.get
    if p.words pd (pdNo vaddr) = 0 then do
      Action.modify (·.allocate (palloc page) fun _ => 0)
      let pde ← Action.ofExcept (pdeCreate (palloc page))
      Action.modify (·.setWord pd (pdNo vaddr) pde)
      let pte ← Action.ofExcept (pteCreateKernel vaddr (writable page))
      Action.modify (·.setWord (palloc page) (ptNo vaddr) pte)
      pagingInitLoop pd palloc writable (palloc page) (page + 1) remaining
    else do
      let pte ← Action.ofExcept (pteCreateKernel vaddr (writable page))
      Action.modify (·.setWord pt (ptNo vaddr) pte)
      pagingInitLoop pd palloc writable pt (page + 1) remaining

/-- `paging_init`, with `init_page_dir` at `pd`; `writable` tells the pages of the kernel's code
from the others. -/
def pagingInit (ramPages : Nat) (pd : Word) (palloc : Nat → Word) (writable : Nat → Bool) :
    PagesAction Unit := do
  Action.modify (·.allocate pd fun _ => 0)
  pagingInitLoop pd palloc writable 0 0 ramPages

end Pintos.Userprog.PageTables
