import Pintos.Foundation.Transition
import Pintos.Userprog.Pagedir

/-!
# The block allocator

`threads/malloc.c`.  A descriptor is named by its index in `descs`, an arena by
the address of its first page, and a block by its address.  `header` says which
pages start with an arena header, that is with `ARENA_MAGIC`.  What the page
allocator returns is chosen by the environment, and `held` are the ranges that
were obtained from it and not given back, by the address of the first page.  The
locks of the descriptors are left out: one call is made after the other.
-/

namespace Pintos.Threads

open Foundation Userprog

structure Desc where
  blockSize : Nat
  blocksPerArena : Nat
  deriving DecidableEq, Repr

/-- `desc` is empty for a big block, and `freeCnt` is its number of pages then. -/
structure Arena where
  desc : Option Nat
  freeCnt : Nat
  deriving DecidableEq, Repr

structure Malloc where
  descs : List Desc
  freeList : Nat → List Nat
  header : Nat → Option Arena
  held : Nat → Option Nat

abbrev MallocAction := Action Malloc Fault

namespace Malloc

@[simps -fullyApplied] def setFreeList (h : Malloc) (d : Nat) (blocks : List Nat) : Malloc :=
  { h with freeList := update h.freeList d blocks }

@[simps -fullyApplied] def setHeader (h : Malloc) (a : Nat) (arena : Option Arena) : Malloc :=
  { h with header := update h.header a arena }

@[simps -fullyApplied] def setHeld (h : Malloc) (a : Nat) (pages : Option Nat) : Malloc :=
  { h with held := update h.held a pages }

end Malloc

/-- `sizeof (struct arena)`. -/
def arenaSize : Nat := 12

/-- `sizeof (struct block)`. -/
def blockHeadSize : Nat := 8

def mallocInitLoop : Nat → Nat → List Desc → Except Fault (List Desc)
  | 0, _, descs => .ok descs
  | fuel + 1, blockSize, descs =>
    if blockSize < pgSize / 2 then do
      assertThat (descs.length + 1 ≤ 10) "desc_cnt <= sizeof descs / sizeof *descs"
      mallocInitLoop fuel (blockSize * 2) (descs ++ [⟨blockSize, (pgSize - arenaSize) / blockSize⟩])
    else .ok descs

def mallocInit : Except Fault Malloc := do
  let descs ← mallocInitLoop 32 16 []
  return ⟨descs, fun _ => [], fun _ => none, fun _ => none⟩

def descAt (d : Nat) : MallocAction Desc := do
  let h ← Action.get
  match h.descs[d]? with
  | some desc => return desc
  | none => stop .wildAccess

/-- `ASSERT (a != NULL)` and `ASSERT (a->magic == ARENA_MAGIC)`. -/
def validArena (a : Nat) : MallocAction Arena := do
  require (a ≠ 0) (.assertion "a != NULL")
  let h ← Action.get
  match h.header a with
  | some arena => return arena
  | none => stop (.assertion "a->magic == ARENA_MAGIC")

def blockToArena (b : Nat) : MallocAction Nat := do
  let arena ← validArena (pgRoundDown b)
  match arena.desc with
  | some d => do
    let desc ← descAt d
    require (toUnsigned32 (pgOfs b - arenaSize) % desc.blockSize = 0)
      (.assertion "a->desc == NULL || (pg_ofs (b) - sizeof *a) % a->desc->block_size == 0")
  | none =>
    require (pgOfs b = arenaSize)
      (.assertion "a->desc != NULL || pg_ofs (b) == sizeof *a")
  return pgRoundDown b

def arenaToBlock (a idx : Nat) : MallocAction Nat := do
  let arena ← validArena a
  match arena.desc with
  | none => stop .wildAccess
  | some d => do
    let desc ← descAt d
    require (idx < desc.blocksPerArena) (.assertion "idx < a->desc->blocks_per_arena")
    return a + arenaSize + idx * desc.blockSize

def addBlocks (d a idx : Nat) : Nat → MallocAction Unit
  | 0 => return ()
  | remaining + 1 => do
    let b ← arenaToBlock a idx
    Action.modify fun h => h.setFreeList d (h.freeList d ++ [b])
    addBlocks d a (idx + 1) remaining

def listRemove (d b : Nat) : MallocAction Unit := do
  let h ← Action.get
  require (b ∈ h.freeList d) (.assertion "is_interior (elem)")
  Action.modify (·.setFreeList d ((h.freeList d).erase b))

def removeBlocks (d a idx : Nat) : Nat → MallocAction Unit
  | 0 => return ()
  | remaining + 1 => do
    let b ← arenaToBlock a idx
    listRemove d b
    removeBlocks d a (idx + 1) remaining

def newArena (a pageCnt : Nat) (arena : Arena) : MallocAction Unit :=
  Action.modify fun h => (h.setHeld a (some pageCnt)).setHeader a (some arena)

def freeArena (a pageCnt : Nat) : MallocAction Unit := do
  let h ← Action.get
  require (h.held a = some pageCnt) .misuse
  Action.modify fun h => (h.setHeld a none).setHeader a none

def takeBlock (d : Nat) : MallocAction Nat := do
  let h ← Action.get
  match h.freeList d with
  | [] => stop (.assertion "!list_empty (list)")
  | b :: rest => do
    Action.modify (·.setFreeList d rest)
    let a ← blockToArena b
    let arena ← validArena a
    Action.modify (·.setHeader a (some ⟨arena.desc, toUnsigned32 (arena.freeCnt - 1)⟩))
    return b

/-- `DIV_ROUND_UP (size + sizeof *a, PGSIZE)`. -/
def bigPageCnt (size : Nat) : Nat := (size + arenaSize + pgSize - 1) % 2 ^ 32 / pgSize

def descFor (descs : List Desc) (size : Nat) : Option Nat :=
  descs.findIdx? fun desc => decide (size ≤ desc.blockSize)

/-- `palloc` is what the page allocator returns if it is called, a null pointer being 0. -/
def malloc (size palloc : Nat) : MallocAction Nat := do
  if size = 0 then return 0
  else do
    let h ← Action.get
    match descFor h.descs size with
    | none =>
      if palloc = 0 then return 0
      else do
        newArena palloc (bigPageCnt size) ⟨none, bigPageCnt size⟩
        return palloc + arenaSize
    | some d =>
      if h.freeList d = [] then
        if palloc = 0 then return 0
        else do
          let desc ← descAt d
          newArena palloc 1 ⟨some d, desc.blocksPerArena⟩
          addBlocks d palloc 0 desc.blocksPerArena
          takeBlock d
      else takeBlock d

def free (p : Nat) : MallocAction Unit := do
  if p = 0 then return ()
  else do
    let a ← blockToArena p
    let arena ← validArena a
    match arena.desc with
    | some d => do
      let desc ← descAt d
      Action.modify fun h => h.setFreeList d (p :: h.freeList d)
      let freeCnt := (arena.freeCnt + 1) % 2 ^ 32
      Action.modify (·.setHeader a (some ⟨some d, freeCnt⟩))
      if freeCnt ≥ desc.blocksPerArena then do
        require (freeCnt = desc.blocksPerArena)
          (.assertion "a->free_cnt == d->blocks_per_arena")
        removeBlocks d a 0 desc.blocksPerArena
        freeArena a 1
    | none => freeArena a arena.freeCnt

def blockSize (block : Nat) : MallocAction Nat := do
  let a ← blockToArena block
  let arena ← validArena a
  match arena.desc with
  | some d => do
    let desc ← descAt d
    return desc.blockSize
  | none => return toUnsigned32 ((pgSize * arena.freeCnt : Nat) - pgOfs block)

def calloc (a b palloc : Nat) : MallocAction Nat := do
  let size := a * b % 2 ^ 32
  if size < a ∨ size < b then return 0 else malloc size palloc

/-! ## Runs -/

structure Block where
  start : Nat
  size : Nat
  deriving DecidableEq, Repr

structure MallocClient where
  heap : Malloc
  live : List Block

inductive MallocEvent where
  | malloc (size palloc : Nat)
  | free (block : Block)
  deriving DecidableEq, Repr

def mallocStep (s : MallocClient) : MallocEvent → Option MallocClient
  | .malloc size palloc =>
    match malloc size palloc s.heap with
    | .ok (0, h) => some ⟨h, s.live⟩
    | .ok (b, h) => some ⟨h, ⟨b, size⟩ :: s.live⟩
    | .error _ => none
  | .free block =>
    match free block.start s.heap with
    | .ok (_, h) => some ⟨h, s.live.erase block⟩
    | .error _ => none

def pagesFor (descs : List Desc) (size : Nat) : Nat :=
  if descFor descs size = none then bigPageCnt size else 1

def Fresh (h : Malloc) (a pages : Nat) : Prop :=
  a = 0 ∨ pgOfs a = 0 ∧ ∀ a' pages', h.held a' = some pages' →
    a + pgSize * pages ≤ a' ∨ a' + pgSize * pages' ≤ a

def MallocAllowed (s : MallocClient) : MallocEvent → Prop
  | .malloc size palloc => size < 2 ^ 31 ∧ Fresh s.heap palloc (pagesFor s.heap.descs size)
  | .free block => block ∈ s.live

/-- The page allocator returns a null pointer or pages that are not held, and a null pointer if it
is asked for no page. -/
def Obtained (h : Malloc) (size palloc : Nat) : Prop :=
  Fresh h palloc (pagesFor h.descs size) ∧ (pagesFor h.descs size = 0 → palloc = 0)

def SizeAllowed (s : MallocClient) : MallocEvent → Prop
  | .malloc size palloc => size < 2 ^ 32 ∧ Obtained s.heap size palloc
  | .free block => block ∈ s.live

/-! ## What holds between calls -/

def blockLength (descs : List Desc) (arena : Arena) : Nat :=
  match arena.desc with
  | some d => (descs.getD d ⟨0, 0⟩).blockSize
  | none => pgSize * arena.freeCnt - arenaSize

def Apart (p len p' len' : Nat) : Prop := p + len ≤ p' ∨ p' + len' ≤ p

structure MallocSafe (s : MallocClient) : Prop where
  /-- Every block in use is inside an arena and has room for what was asked for. -/
  inside : ∀ b ∈ s.live, ∃ arena, s.heap.header (pgRoundDown b.start) = some arena ∧
    b.size ≤ blockLength s.heap.descs arena
  disjoint : s.live.Pairwise fun b b' => ∀ arena arena',
    s.heap.header (pgRoundDown b.start) = some arena →
    s.heap.header (pgRoundDown b'.start) = some arena' →
    Apart b.start (blockLength s.heap.descs arena) b'.start (blockLength s.heap.descs arena')
  headers : ∀ b ∈ s.live, ∀ arena, s.heap.header (pgRoundDown b.start) = some arena → ∀ a arena',
    s.heap.header a = some arena' → Apart b.start (blockLength s.heap.descs arena) a arenaSize
  freeElems : ∀ b ∈ s.live, ∀ arena, s.heap.header (pgRoundDown b.start) = some arena →
    ∀ d, ∀ f ∈ s.heap.freeList d, Apart b.start (blockLength s.heap.descs arena) f blockHeadSize
  counts : ∀ a arena d, s.heap.header a = some arena → arena.desc = some d →
    arena.freeCnt = (s.heap.freeList d).countP (fun f => decide (pgRoundDown f = a)) ∧
    ∃ desc, s.heap.descs[d]? = some desc ∧ arena.freeCnt < desc.blocksPerArena
  /-- The pages that are held are those of the arenas with a block in use. -/
  returned : ∀ a, s.heap.held a ≠ none ↔ ∃ b ∈ s.live, pgRoundDown b.start = a

end Pintos.Threads
