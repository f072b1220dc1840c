import Pintos.Foundation.Transition
import Pintos.Lib.Bitmap
import Pintos.Userprog.Pagedir

/-!
# The page allocator

`threads/palloc.c`, and the size of memory as `threads/start.S` finds it out.
Each pool has the bitmap of its used pages at its start and its pages behind it.
The addresses stay below `2 ^ 32`, so pointer arithmetic is that of the natural
numbers.  The lock of a pool is left out: one call is made after the other.
-/

namespace Pintos

open Foundation

def Bitmap.bufSize (bitCnt : Nat) : Nat := 8 + byteCnt bitCnt

def Bitmap.createInBuf (bitCnt block blockSize : Nat) (memory : Memory) : Except Fault Bitmap := do
  assertThat (bufSize bitCnt ≤ blockSize) "block_size >= bitmap_buf_size (bit_cnt)"
  match ← create bitCnt fun k => BitVec.ofNat 32 (word32 memory (block + 8 + 4 * k)) with
  | some b => return b
  | none => .error .wildAccess

end Pintos

namespace Pintos.Threads

open Foundation Userprog

variable {address first n userPageLimit : Nat} {usedMap : Bitmap} {memory : Memory} {α : Type}

structure Pool where
  usedMap : Bitmap
  /-- The address of the bitmap. -/
  mapAt : Nat
  base : Nat

inductive PoolName where
  | kernelPool
  | userPool
  deriving DecidableEq, Repr

structure Palloc where
  pool : PoolName → Pool
  memory : Memory

abbrev PallocAction := Action Palloc Fault

namespace Palloc

@[simps -fullyApplied] def setMap (p : Palloc) (name : PoolName) (usedMap : Bitmap) : Palloc :=
  { p with pool := update p.pool name { p.pool name with usedMap } }

@[simps -fullyApplied] def setMemory (p : Palloc) (memory : Memory) : Palloc := { p with memory }

end Palloc

def palAssert : Nat := 1

def palZero : Nat := 2

def palUser : Nat := 4

/-- `init_ram_pages`, from the kilobytes beyond the first 1024 that the BIOS reports. -/
def initRamPages (extended : BitVec 16) : Nat := min (extended.toNat + 1024) 0x10000 / 4

def ptov (paddr : Nat) : Except Fault Nat := do
  assertThat (paddr < physBase) "(void *) paddr < PHYS_BASE"
  return paddr + physBase

/-- `DIV_ROUND_UP (bitmap_buf_size (page_cnt), PGSIZE)`. -/
def bmPages (pageCnt : Nat) : Nat := (Bitmap.bufSize pageCnt + pgSize - 1) / pgSize

def initPool (base pageCnt : Nat) (name : String) (memory : Memory) : Except Fault Pool := do
  if bmPages pageCnt > pageCnt then
    .error (.panic ("Not enough memory in " ++ name ++ " for bitmap."))
  else do
    let usedMap ← Bitmap.createInBuf (pageCnt - bmPages pageCnt) base (bmPages pageCnt * pgSize)
      memory
    return ⟨usedMap, base, base + bmPages pageCnt * pgSize⟩

def initPools (freeStart freePages userPageLimit : Nat) (memory : Memory) :
    Except Fault Palloc := do
  let userPages := if freePages / 2 > userPageLimit then userPageLimit else freePages / 2
  let kernelPages := freePages - userPages
  let kernelPool ← initPool freeStart kernelPages "kernel pool" memory
  let userPool ← initPool (freeStart + kernelPages * pgSize) userPages "user pool" memory
  return ⟨fun name => if name = .kernelPool then kernelPool else userPool, memory⟩

def pallocInit (ramPages userPageLimit : Nat) (memory : Memory) : Except Fault Palloc := do
  let freeStart ← ptov (1024 * 1024)
  let freeEnd ← ptov (ramPages * pgSize)
  initPools freeStart ((freeEnd - freeStart) / pgSize) userPageLimit memory

def poolFor (flags : Nat) : PoolName := if flags &&& palUser ≠ 0 then .userPool else .kernelPool

def pallocGetMultiple (flags pageCnt : Nat) : PallocAction Nat := do
  if pageCnt = 0 then return 0
  else do
    let p ← Action.get
    let pool := p.pool (poolFor flags)
    let (pageIdx, usedMap) ← Action.ofExcept (pool.usedMap.scanAndFlip 0 pageCnt false)
    Action.modify (·.setMap (poolFor flags) usedMap)
    match pageIdx with
    | some pageIdx => do
      let pages := pool.base + pgSize * pageIdx
      if flags &&& palZero ≠ 0 then
        Action.modify fun p => p.setMemory (fill p.memory pages 0 (pgSize * pageCnt))
      return pages
    | none => do
      require (flags &&& palAssert = 0) (.panic "palloc_get: out of pages")
      return 0

def pallocGetPage (flags : Nat) : PallocAction Nat := pallocGetMultiple flags 1

def pageFromPool (pool : Pool) (page : Nat) : Bool :=
  let pageNo := pgNo page
  let startPage := pgNo pool.base
  let endPage := startPage + pool.usedMap.bitCnt
  decide (startPage ≤ pageNo ∧ pageNo < endPage)

def poolOfPage (p : Palloc) (pages : Nat) : Except Fault PoolName :=
  if pageFromPool (p.pool .kernelPool) pages then .ok .kernelPool
  else if pageFromPool (p.pool .userPool) pages then .ok .userPool
  else .error (.panic "executed an unreachable statement")

def pallocFreeMultiple (pages pageCnt : Nat) : PallocAction Unit := do
  require (pgOfs pages = 0) (.assertion "pg_ofs (pages) == 0")
  if pages = 0 ∨ pageCnt = 0 then return ()
  else do
    let p ← Action.get
    let name ← Action.ofExcept (poolOfPage p pages)
    let pool := p.pool name
    let pageIdx := pgNo pages - pgNo pool.base
    Action.modify fun p => p.setMemory (fill p.memory pages 0xcc (pgSize * pageCnt))
    let used ← Action.ofExcept (pool.usedMap.all pageIdx pageCnt)
    require (used = true) (.assertion "bitmap_all (pool->used_map, page_idx, page_cnt)")
    let usedMap ← Action.ofExcept (pool.usedMap.setMultiple pageIdx pageCnt false)
    Action.modify (·.setMap name usedMap)

def pallocFreePage (page : Nat) : PallocAction Unit := pallocFreeMultiple page 1

/-! ## Ranges -/

structure Range where
  start : Nat
  count : Nat
  pool : PoolName
  deriving DecidableEq, Repr

variable {name : PoolName} {pool : Pool} {r : Range} {p : Palloc}

def Range.Covers (r : Range) (address : Nat) : Prop :=
  r.start ≤ address ∧ address < r.start + pgSize * r.count

namespace Pool

def size (pool : Pool) : Nat := pool.usedMap.bitCnt

def page (pool : Pool) (i : Nat) : Nat := pool.base + pgSize * i

def Contains (pool : Pool) (address : Nat) : Prop :=
  pool.base ≤ address ∧ address < pool.base + pgSize * pool.size

def InMap (pool : Pool) (address : Nat) : Prop :=
  pool.mapAt ≤ address ∧ address < pool.mapAt + Bitmap.bufSize pool.size

end Pool

structure PallocClient where
  palloc : Palloc
  live : List Range

def PallocClient.HasFree (s : PallocClient) (name : PoolName) (n : Nat) : Prop :=
  ∃ i, i + n ≤ (s.palloc.pool name).size ∧
    ∀ j, i ≤ j → j < i + n → ∀ r ∈ s.live, ¬ r.Covers ((s.palloc.pool name).page j)

/-- The request is answered by a null pointer, or by a panic if `PAL_ASSERT` is set. -/
def Refused (p : Palloc) (flags n : Nat) : Prop :=
  if flags &&& palAssert = 0 then ∃ q, pallocGetMultiple flags n p = .ok (0, q)
  else pallocGetMultiple flags n p = .error (.panic "palloc_get: out of pages")

inductive PallocEvent where
  | get (flags pageCnt : Nat)
  | free (range : Range)
  deriving DecidableEq, Repr

def pallocStep (s : PallocClient) : PallocEvent → Option PallocClient
  | .get flags pageCnt =>
    match pallocGetMultiple flags pageCnt s.palloc with
    | .ok (0, p) => some ⟨p, s.live⟩
    | .ok (pages, p) => some ⟨p, ⟨pages, pageCnt, poolFor flags⟩ :: s.live⟩
    | .error _ => none
  | .free range =>
    match pallocFreeMultiple range.start range.count s.palloc with
    | .ok (_, p) => some ⟨p, s.live.erase range⟩
    | .error _ => none

def Returned (s : PallocClient) : PallocEvent → Prop
  | .get _ _ => True
  | .free range => range ∈ s.live

structure PallocSafe (s : PallocClient) : Prop where
  disjoint : s.live.Pairwise fun r r' => ∀ address, ¬ (r.Covers address ∧ r'.Covers address)
  aligned : ∀ r ∈ s.live, pgOfs r.start = 0
  inPool : ∀ r ∈ s.live, ∀ address, r.Covers address → (s.palloc.pool r.pool).Contains address
  clear : ∀ r ∈ s.live, ∀ address, r.Covers address → ∀ name, ¬ (s.palloc.pool name).InMap address
  refused : ∀ flags n, 1 ≤ n → (Refused s.palloc flags n ↔ ¬ s.HasFree (poolFor flags) n)
  granted : ∀ flags n, 1 ≤ n → s.HasFree (poolFor flags) n →
    ∃ pages p, pallocGetMultiple flags n s.palloc = .ok (pages, p) ∧ pages ≠ 0
  freed : ∀ r ∈ s.live, poolOfPage s.palloc r.start = .ok r.pool ∧
    ∃ p, pallocFreeMultiple r.start r.count s.palloc = .ok ((), p)

/-! ## The invariant -/

structure Layout (p : Palloc) : Prop where
  aligned : ∀ name, pgOfs (p.pool name).base = 0
  mapFits : ∀ name, (p.pool name).mapAt + Bitmap.bufSize (p.pool name).size ≤ (p.pool name).base
  kernelFirst : (p.pool .kernelPool).base + pgSize * (p.pool .kernelPool).size =
    (p.pool .userPool).mapAt
  high : 0 < (p.pool .kernelPool).mapAt

def Range.has (r : Range) (p : Palloc) (name : PoolName) (i : Nat) : Bool :=
  decide (r.pool = name ∧ r.start ≤ (p.pool name).page i ∧
    (p.pool name).page i < r.start + pgSize * r.count)

structure Range.At (r : Range) (p : Palloc) (first : Nat) : Prop where
  start : r.start = (p.pool r.pool).page first
  count : 1 ≤ r.count
  fits : first + r.count ≤ (p.pool r.pool).size

structure PallocOk (s : PallocClient) : Prop where
  layout : Layout s.palloc
  ranges : ∀ r ∈ s.live, ∃ first, r.At s.palloc first
  /-- A page is used when one range has it, and no page is in two. -/
  used : ∀ name, ∀ i < (s.palloc.pool name).size, s.live.countP (·.has s.palloc name i) =
      if (s.palloc.pool name).usedMap.get i then 1 else 0

section Ranges

lemma Range.At.has_iff (h : r.At p first) (name : PoolName) (i : Nat) :
    r.has p name i = true ↔ r.pool = name ∧ first ≤ i ∧ i < first + r.count := by
  simp only [Range.has, decide_eq_true_eq]
  refine and_congr_right fun hname => ?_
  subst hname
  rw [h.start]
  simp only [Pool.page, pgSize]
  omega

lemma Range.At.page_of_covers (h : r.At p first) (hcovers : r.Covers address) :
    ∃ i, first ≤ i ∧ i < first + r.count ∧ (p.pool r.pool).page i ≤ address ∧
      address < (p.pool r.pool).page i + pgSize := by
  obtain ⟨hlo, hhi⟩ := hcovers
  rw [h.start] at hlo hhi
  refine ⟨(address - (p.pool r.pool).base) / pgSize, ?_⟩
  simp only [Pool.page, pgSize] at *
  omega

lemma Range.At.contains (h : r.At p first) (hcovers : r.Covers address) :
    (p.pool r.pool).Contains address := by
  obtain ⟨hlo, hhi⟩ := hcovers
  have hfits := h.fits
  rw [h.start] at hlo hhi
  simp only [Pool.page, Pool.Contains, pgSize] at *
  omega

lemma Layout.apart (h : Layout p) {name' : PoolName} (hin : (p.pool name).Contains address) :
    ¬ (p.pool name').InMap address ∧ ((p.pool name').Contains address → name = name') := by
  have hkernel := h.mapFits .kernelPool
  have huser := h.mapFits .userPool
  have hfirst := h.kernelFirst
  obtain ⟨hlo, hhi⟩ := hin
  simp only [Pool.InMap, Pool.Contains, pgSize] at *
  cases name <;> cases name' <;> simp only [reduceCtorEq, imp_false, implies_true, and_true] <;>
    omega

lemma Layout.page_aligned (h : Layout p) (name : PoolName) (i : Nat) :
    pgOfs ((p.pool name).page i) = 0 := by
  have halign := h.aligned name
  simp only [pgOfs, Pool.page, pgSize] at *
  omega

lemma pageFromPool_iff (hbase : pgOfs pool.base = 0) {page : Nat}
    (hpage : pgOfs page = 0) : pageFromPool pool page = true ↔ pool.Contains page := by
  rw [pageFromPool, decide_eq_true_iff]
  simp only [Pool.Contains, Pool.size, pgNo, pgOfs, pgSize] at *
  omega

lemma Range.At.covers_start (h : r.At p first) : r.Covers r.start := by
  have hcnt := h.count
  simp only [Range.Covers, pgSize]
  omega

lemma Layout.poolOfPage_eq (h : Layout p) (hat : r.At p first) :
    poolOfPage p r.start = .ok r.pool := by
  have hpage : pgOfs r.start = 0 := hat.start ▸ h.page_aligned r.pool first
  have hin := hat.contains hat.covers_start
  have hown := (pageFromPool_iff (h.aligned r.pool) hpage).mpr hin
  rw [poolOfPage]
  cases hpool : r.pool with
  | kernelPool =>
    rw [hpool] at hown
    rw [if_pos hown]
  | userPool =>
    rw [hpool] at hown hin
    have hother : ¬ pageFromPool (p.pool .kernelPool) r.start = true := fun hfrom => by
      have := (h.apart hin).2 ((pageFromPool_iff (h.aligned _) hpage).mp hfrom)
      contradiction
    rw [if_neg hother, if_pos hown]

lemma Layout.pageIdx_eq (h : Layout p) (hat : r.At p first) :
    pgNo r.start - pgNo (p.pool r.pool).base = first := by
  have halign := h.aligned r.pool
  rw [hat.start]
  simp only [pgNo, pgOfs, Pool.page, pgSize] at *
  omega

lemma Layout.page_pos (h : Layout p) (name : PoolName) (i : Nat) : 0 < (p.pool name).page i := by
  have hkernel := h.mapFits .kernelPool
  have huser := h.mapFits .userPool
  have hfirst := h.kernelFirst
  have hhigh := h.high
  simp only [Pool.page, pgSize] at *
  cases name <;> omega

end Ranges

/-! ## Changes of a map -/

section Maps

lemma Palloc.setMap_geometry (hsize : usedMap.bitCnt = (p.pool name).size) (other : PoolName) :
    ((p.setMap name usedMap).pool other).base = (p.pool other).base ∧
      ((p.setMap name usedMap).pool other).mapAt = (p.pool other).mapAt ∧
      ((p.setMap name usedMap).pool other).size = (p.pool other).size := by
  rw [Palloc.setMap_pool, update_apply]
  split
  · next heq =>
      subst heq
      exact ⟨rfl, rfl, hsize⟩
  · exact ⟨rfl, rfl, rfl⟩

structure SamePlaces (p q : Palloc) : Prop where
  base : ∀ name, (q.pool name).base = (p.pool name).base
  mapAt : ∀ name, (q.pool name).mapAt = (p.pool name).mapAt
  size : ∀ name, (q.pool name).size = (p.pool name).size

lemma SamePlaces.setMap (hsize : usedMap.bitCnt = (p.pool name).size) :
    SamePlaces p (p.setMap name usedMap) :=
  ⟨fun other => (p.setMap_geometry hsize other).1, fun other => (p.setMap_geometry hsize other).2.1,
    fun other => (p.setMap_geometry hsize other).2.2⟩

variable {q : Palloc}

section

variable (h : SamePlaces p q)

include h

lemma SamePlaces.layout (hp : Layout p) : Layout q where
  aligned other := by rw [h.base]; exact hp.aligned other
  mapFits other := by rw [h.base, h.mapAt, h.size]; exact hp.mapFits other
  kernelFirst := by rw [h.base, h.size, h.mapAt]; exact hp.kernelFirst
  high := by rw [h.mapAt]; exact hp.high

lemma SamePlaces.page (other : PoolName) (i : Nat) :
    (q.pool other).page i = (p.pool other).page i := by rw [Pool.page, h.base]; rfl

lemma SamePlaces.at (hat : r.At p first) : r.At q first :=
  ⟨by rw [h.page]; exact hat.start, hat.count, by rw [h.size]; exact hat.fits⟩

lemma SamePlaces.has (r : Range) (other : PoolName) (i : Nat) :
    r.has q other i = r.has p other i := by rw [Range.has, h.page]; rfl

end

end Maps

/-! ## The functions -/

section Functions

variable {s : PallocClient}

namespace PallocOk

variable (h : PallocOk s)

include h

lemma hasFree_iff (name : PoolName) (n : Nat) :
    s.HasFree name n ↔ ∃ i, (s.palloc.pool name).usedMap.Run i n false := by
  have hfree : ∀ j < (s.palloc.pool name).size,
      ((∀ r ∈ s.live, ¬ r.Covers ((s.palloc.pool name).page j)) ↔
        (s.palloc.pool name).usedMap.get j = false) := by
    intro j hj
    have hused := h.used name j hj
    have hhas : ∀ r ∈ s.live, r.Covers ((s.palloc.pool name).page j) ↔
        r.has s.palloc name j = true := by
      intro r hr
      obtain ⟨first, hat⟩ := h.ranges r hr
      simp only [Range.has, decide_eq_true_eq]
      refine ⟨fun hcovers => ⟨?_, hcovers⟩, fun hh => hh.2⟩
      -- the page lies in its own pool, and the pools do not overlap
      refine (h.layout.apart (hat.contains hcovers)).2 ⟨?_, ?_⟩
      · exact Nat.le_add_right _ _
      simp only [Pool.page, pgSize]
      omega
    rw [← Bool.not_eq_true]
    constructor
    · intro hnone hget
      rw [if_pos hget] at hused
      have hpos : 0 < s.live.countP (·.has s.palloc name j) := by omega
      obtain ⟨r, hr, hrhas⟩ := List.countP_pos_iff.mp hpos
      exact hnone r hr ((hhas r hr).mpr hrhas)
    · intro hget r hr hcovers
      rw [if_neg hget] at hused
      have hpos : 0 < s.live.countP (·.has s.palloc name j) :=
        List.countP_pos_iff.mpr ⟨r, hr, (hhas r hr).mp hcovers⟩
      omega
  constructor
  · rintro ⟨i, hfits, hall⟩
    exact ⟨i, hfits, fun j hlo hhi => (hfree j (by omega)).mp (hall j hlo hhi)⟩
  · rintro ⟨i, hfits, hall⟩
    have hfits' : i + n ≤ (s.palloc.pool name).size := hfits
    exact ⟨i, hfits, fun j hlo hhi => (hfree j (by omega)).mpr (hall j hlo hhi)⟩

lemma grant {i : Nat}
    (memory : Memory) (hpos : 1 ≤ n) (hrun : (s.palloc.pool name).usedMap.Run i n false)
    (hsize : usedMap.bitCnt = (s.palloc.pool name).size) (hget : ∀ j, usedMap.get j =
      if i ≤ j ∧ j < i + n then true else (s.palloc.pool name).usedMap.get j) :
    PallocOk ⟨(s.palloc.setMap name usedMap).setMemory memory,
      ⟨(s.palloc.pool name).page i, n, name⟩ :: s.live⟩ := by
  have hsame : SamePlaces s.palloc ((s.palloc.setMap name usedMap).setMemory memory) :=
    ⟨(SamePlaces.setMap hsize).base, (SamePlaces.setMap hsize).mapAt,
      (SamePlaces.setMap hsize).size⟩
  have hat : (⟨(s.palloc.pool name).page i, n, name⟩ : Range).At s.palloc i := ⟨rfl, hpos, hrun.1⟩
  refine ⟨hsame.layout h.layout, fun r hr => ?_, fun other j hj => ?_⟩
  · rcases mem_cons.mp hr with rfl | hold
    · exact ⟨i, hsame.at hat⟩
    obtain ⟨first, hfirst⟩ := h.ranges r hold
    exact ⟨first, hsame.at hfirst⟩
  rw [hsame.size] at hj
  have hused := h.used other j hj
  have hcnt : s.live.countP (·.has ((s.palloc.setMap name usedMap).setMemory memory) other j) =
      s.live.countP (·.has s.palloc other j) := List.countP_congr fun r _ => by rw [hsame.has]
  have hhas := hat.has_iff other j
  rw [countP_cons, hcnt, hused, hsame.has]
  by_cases hother : other = name
  · subst hother
    have hmap : ((s.palloc.setMap other usedMap).setMemory memory).pool other =
        { s.palloc.pool other with usedMap } := update_self _ _ _
    rw [hmap, hget]
    by_cases hin : i ≤ j ∧ j < i + n
    · have hfree := hrun.2 j hin.1 hin.2
      rw [if_pos (hhas.mpr ⟨rfl, hin⟩), hfree]
      simp [hin]
    · rw [if_neg fun hh => hin (hhas.mp hh).2]
      simp [hin]
  · have hmap : ((s.palloc.setMap name usedMap).setMemory memory).pool other =
        s.palloc.pool other := update_of_ne hother _ _
    rw [hmap, if_neg fun hh => hother (hhas.mp hh).1.symm, Nat.add_zero]

lemma release (hr : r ∈ s.live) (hat : r.At s.palloc first)
    (hsize : usedMap.bitCnt = (s.palloc.pool r.pool).size) (hget : ∀ j, usedMap.get j =
      if first ≤ j ∧ j < first + r.count then false else (s.palloc.pool r.pool).usedMap.get j) :
    PallocOk ⟨(s.palloc.setMemory memory).setMap r.pool usedMap, s.live.erase r⟩ := by
  have hsame : SamePlaces s.palloc ((s.palloc.setMemory memory).setMap r.pool usedMap) :=
    ⟨(SamePlaces.setMap hsize).base, (SamePlaces.setMap hsize).mapAt,
      (SamePlaces.setMap hsize).size⟩
  refine ⟨hsame.layout h.layout, fun r' hr' => ?_, fun other j hj => ?_⟩
  · obtain ⟨first', hfirst⟩ := h.ranges r' (mem_of_mem_erase hr')
    exact ⟨first', hsame.at hfirst⟩
  rw [hsame.size] at hj
  have hused := h.used other j hj
  have hcnt : (s.live.erase r).countP
      (·.has ((s.palloc.setMemory memory).setMap r.pool usedMap) other j) =
      (s.live.erase r).countP (·.has s.palloc other j) :=
    List.countP_congr fun r _ => by rw [hsame.has]
  have hhas := hat.has_iff other j
  rw [hcnt]
  rw [(List.perm_cons_erase hr).countP_eq, countP_cons] at hused
  by_cases hother : other = r.pool
  · subst hother
    have hmap : ((s.palloc.setMemory memory).setMap r.pool usedMap).pool r.pool =
        { s.palloc.pool r.pool with usedMap } := update_self _ _ _
    rw [hmap, hget]
    by_cases hin : first ≤ j ∧ j < first + r.count
    · rw [if_pos (hhas.mpr ⟨rfl, hin⟩)] at hused
      simp only [hin, and_self, if_true, Bool.false_eq_true, if_false]
      split at hused <;> omega
    · rw [if_neg fun hh => hin (hhas.mp hh).2] at hused
      simpa [hin] using hused
  · have hmap : ((s.palloc.setMemory memory).setMap r.pool usedMap).pool other =
        s.palloc.pool other := update_of_ne hother _ _
    rw [if_neg fun hh => hother (hhas.mp hh).1.symm] at hused
    rw [hmap]
    exact hused

lemma get (flags : Nat) (hpos : 1 ≤ n) : (s.HasFree (poolFor flags) n ∧ ∃ pages p,
        pallocGetMultiple flags n s.palloc = .ok (pages, p) ∧ pages ≠ 0 ∧
        PallocOk ⟨p, ⟨pages, n, poolFor flags⟩ :: s.live⟩) ∨
      (¬ s.HasFree (poolFor flags) n ∧ pallocGetMultiple flags n s.palloc =
        if flags &&& palAssert = 0 then .ok (0, s.palloc)
        else .error (.panic "palloc_get: out of pages")) := by
  have hne : n ≠ 0 := by omega
  rw [h.hasFree_iff]
  rcases (s.palloc.pool (poolFor flags)).usedMap.scanAndFlip_spec n false (Nat.zero_le _) with
    ⟨i, usedMap, hscan, -, hrun, -, hsize, hget⟩ | ⟨hscan, hnone⟩
  · left
    refine ⟨⟨i, hrun⟩, ?_⟩
    have hpage := h.layout.page_pos (poolFor flags) i
    have hgrant := fun memory => h.grant memory hpos hrun hsize hget
    have hwp : wp (pallocGetMultiple flags n) (fun pages p => pages ≠ 0 ∧
        PallocOk ⟨p, ⟨pages, n, poolFor flags⟩ :: s.live⟩) s.palloc := by
      simp only [pallocGetMultiple, hne, if_false, wp_bind, wp_get,
        wp_ofExcept hscan, wp_modify, wp_ite, wp_pure]
      split
      · exact ⟨hpage.ne', hgrant _⟩
      · exact ⟨hpage.ne', hgrant s.palloc.memory⟩
    obtain ⟨pages, p, hrun', hp⟩ := wp_iff.mp hwp
    exact ⟨pages, p, hrun', hp⟩
  right
  refine ⟨not_exists.mpr fun i => hnone i (Nat.zero_le _), ?_⟩
  have hsame : s.palloc.setMap (poolFor flags) (s.palloc.pool (poolFor flags)).usedMap =
      s.palloc := by
    rw [Palloc.setMap]
    exact congrArg (Palloc.mk · s.palloc.memory) (Function.update_eq_self _ _)
  split
  · next hno =>
      apply eq_ok_of_wp
      simp only [pallocGetMultiple, hne, if_false, wp_bind, wp_get,
        wp_ofExcept hscan, wp_modify, hsame, wp_require, wp_pure]
      exact ⟨hno, trivial, trivial⟩
  · next hassert =>
      apply Action.eq_error_of_outcome
      simp only [pallocGetMultiple, hne, if_false, outcome_bind, outcome_get,
        outcome_ofExcept hscan, outcome_modify]
      exact outcome_require (fun hno => absurd hno hassert) fun _ => rfl

lemma free (hr : r ∈ s.live) : wp (pallocFreeMultiple r.start r.count)
      (fun _ p => PallocOk ⟨p, s.live.erase r⟩) s.palloc := by
  obtain ⟨first, hat⟩ := h.ranges r hr
  have hpage : pgOfs r.start = 0 := hat.start ▸ h.layout.page_aligned r.pool first
  have hpos : 0 < r.start := hat.start ▸ h.layout.page_pos r.pool first
  have hcnt := hat.count
  have hused : ∀ j, first ≤ j → j < first + r.count →
      (s.palloc.pool r.pool).usedMap.get j = true := by
    intro j hlo hhi
    have hfits := hat.fits
    have hmem : 0 < s.live.countP (·.has s.palloc r.pool j) :=
      List.countP_pos_iff.mpr ⟨r, hr, (hat.has_iff r.pool j).mpr ⟨rfl, hlo, hhi⟩⟩
    have huse := h.used r.pool j (by omega)
    by_contra hnot
    rw [if_neg hnot] at huse
    omega
  obtain ⟨ok, hall, hok⟩ := (s.palloc.pool r.pool).usedMap.all_spec hat.fits
  obtain ⟨usedMap, hset, hsize, hget⟩ :=
    (s.palloc.pool r.pool).usedMap.setMultiple_spec false hat.fits
  have hnonzero : ¬ (r.start = 0 ∨ r.count = 0) := by omega
  simp only [pallocFreeMultiple, wp_bind, wp_require, wp_get,
    hnonzero, if_false, wp_ofExcept (h.layout.poolOfPage_eq hat), h.layout.pageIdx_eq hat,
    wp_modify, wp_ofExcept hall, wp_ofExcept hset]
  exact ⟨hpage, hok.mpr hused, h.release hr hat hsize hget⟩

end PallocOk

lemma pallocGetMultiple_zero (flags : Nat) (p : Palloc) :
    pallocGetMultiple flags 0 p = .ok (0, p) := rfl

lemma pallocStep_ok (h : PallocOk s) {event : PallocEvent} (hevent : Returned s event)
    {t : PallocClient} (ht : pallocStep s event = some t) : PallocOk t := by
  cases event with
  | get flags n =>
    simp only [pallocStep] at ht
    by_cases hzero : n = 0
    · subst hzero
      rw [pallocGetMultiple_zero] at ht
      obtain rfl := some.inj ht
      exact h
    rcases h.get flags (n := n) (by omega) with ⟨-, pages, p, hget, hne, hp⟩ | ⟨-, hget⟩
    · rw [hget] at ht
      cases pages with
      | zero => contradiction
      | succ pages =>
        obtain rfl := some.inj ht
        exact hp
    · rw [hget] at ht
      split_ifs at ht
      · obtain rfl := some.inj ht
        exact h
  | free r =>
    obtain ⟨_, p, hfree, hp⟩ := wp_iff.mp (h.free hevent)
    rw [pallocStep, hfree] at ht
    obtain rfl := some.inj ht
    exact hp

lemma pairwise_of_countP {β : Type} {l : List α} (f : β → α → Bool)
    (h : ∀ b, l.countP (f b) ≤ 1) : l.Pairwise fun x y => ∀ b, ¬ (f b x = true ∧ f b y = true) := by
  induction l with
  | nil => exact .nil
  | cons x l ih =>
    refine .cons (fun y hy b hb => ?_) (ih fun b => ?_)
    · have hone := h b
      rw [countP_cons, if_pos hb.1] at hone
      have := List.countP_pos_iff.mpr ⟨y, hy, hb.2⟩
      omega
    · have hone := h b
      rw [countP_cons] at hone
      omega

lemma PallocOk.safe (h : PallocOk s) : PallocSafe s := by
  refine ⟨?_, fun r hr => ?_, fun r hr address hcovers => ?_, fun r hr address hcovers name => ?_,
    fun flags n hn => ?_, fun flags n hn hfree => ?_, fun r hr => ?_⟩
  · -- a page that two ranges have is counted twice
    have honce := pairwise_of_countP (l := s.live)
      (fun (b : PoolName × Nat) r =>
        r.has s.palloc b.1 b.2 && decide (b.2 < (s.palloc.pool b.1).size))
      fun b => by
        by_cases hb : b.2 < (s.palloc.pool b.1).size
        · have hused := h.used b.1 b.2 hb
          simp only [hb, decide_true, Bool.and_true, hused]
          split <;> omega
        · simp [hb]
    refine honce.imp_of_mem fun {r r'} hr hr' hnot address hboth => ?_
    obtain ⟨first, hat⟩ := h.ranges r hr
    obtain ⟨first', hat'⟩ := h.ranges r' hr'
    obtain ⟨i, hlo, hhi, hpage, hpage'⟩ := hat.page_of_covers hboth.1
    have hpool := (h.layout.apart (hat.contains hboth.1)).2 (hat'.contains hboth.2)
    have hfits := hat.fits
    refine hnot (r.pool, i) ⟨?_, ?_⟩
    · simp only [Bool.and_eq_true, decide_eq_true_eq]
      exact ⟨(hat.has_iff _ _).mpr ⟨rfl, hlo, hhi⟩, by omega⟩
    simp only [Bool.and_eq_true, decide_eq_true_eq]
    refine ⟨(hat'.has_iff _ _).mpr ⟨hpool.symm, ?_⟩, by omega⟩
    obtain ⟨hcov, hcov'⟩ := hboth.2
    rw [hat'.start, ← hpool] at hcov hcov'
    simp only [Pool.page, pgSize] at *
    omega
  · obtain ⟨first, hat⟩ := h.ranges r hr
    exact hat.start ▸ h.layout.page_aligned r.pool first
  · obtain ⟨first, hat⟩ := h.ranges r hr
    exact hat.contains hcovers
  · obtain ⟨first, hat⟩ := h.ranges r hr
    exact (h.layout.apart (hat.contains hcovers)).1
  · rw [Refused]
    rcases h.get flags hn with ⟨hfree, pages, p, hget, hne, -⟩ | ⟨hfree, hget⟩
    · simp only [hget, hfree, not_true_eq_false, iff_false]
      split
      · rintro ⟨q, hq⟩
        cases hq
        exact hne rfl
      · simp
    · simp only [hget, hfree, not_false_eq_true, iff_true]
      split
      · exact ⟨_, rfl⟩
      · rfl
  · rcases h.get flags hn with ⟨-, pages, p, hget, hne, -⟩ | ⟨hnot, -⟩
    · exact ⟨pages, p, hget, hne⟩
    · exact absurd hfree hnot
  · obtain ⟨first, hat⟩ := h.ranges r hr
    obtain ⟨_, p, hrun, -⟩ := wp_iff.mp (h.free hr)
    exact ⟨h.layout.poolOfPage_eq hat, p, hrun⟩

end Functions

/-! ## Initialisation -/

lemma createInBuf_spec {bitCnt block blockSize : Nat} {b : Bitmap}
    (h : Bitmap.createInBuf bitCnt block blockSize memory = .ok b) :
    Bitmap.bufSize bitCnt ≤ blockSize ∧ b.bitCnt = bitCnt ∧ ∀ j < bitCnt, b.get j = false := by
  by_cases hfits : Bitmap.bufSize bitCnt ≤ blockSize
  · simp only [Bitmap.createInBuf, assertThat_of_true _ hfits, bind, Except.bind] at h
    by_cases hcnt : bitCnt ≤ 2 ^ 32 - 32
    · obtain ⟨c, hc, hsize, hget⟩ := Bitmap.create_spec
        (fun k => BitVec.ofNat 32 (word32 memory (block + 8 + 4 * k))) hcnt
      rw [hc] at h
      obtain rfl := Except.ok.inj h
      exact ⟨hfits, hsize, hget⟩
    · simp only [Bitmap.create, hcnt, dite_false, pure, Except.pure] at h
      cases h
  · simp [Bitmap.createInBuf, assertThat, hfits, bind, Except.bind] at h

structure PoolAt (pool : Pool) (base pageCnt : Nat) : Prop where
  mapAt : pool.mapAt = base
  base_eq : pool.base = base + bmPages pageCnt * pgSize
  size : pool.size + bmPages pageCnt = pageCnt
  fits : Bitmap.bufSize pool.size ≤ bmPages pageCnt * pgSize
  free : ∀ i < pool.size, pool.usedMap.get i = false

lemma initPool_spec {base pageCnt : Nat} {name : String}
    (h : initPool base pageCnt name memory = .ok pool) : PoolAt pool base pageCnt := by
  by_cases hroom : bmPages pageCnt > pageCnt
  · simp [initPool, hroom] at h
  simp only [initPool, hroom, if_false, bind, Except.bind] at h
  cases hmap : Bitmap.createInBuf (pageCnt - bmPages pageCnt) base (bmPages pageCnt * pgSize)
      memory with
  | error fault => simp [hmap] at h
  | ok usedMap =>
    rw [hmap] at h
    obtain rfl := Except.ok.inj h
    obtain ⟨hfits, hsize, hfree⟩ := createInBuf_spec hmap
    have hsize' : (Pool.mk usedMap base (base + bmPages pageCnt * pgSize)).size =
      pageCnt - bmPages pageCnt := hsize
    exact ⟨rfl, rfl, by omega, hsize' ▸ hfits, hsize' ▸ hfree⟩

lemma PallocOk.ofPools {kernelPool userPool : Pool} {start kernelPages userPages : Nat}
    (memory : Memory) (halign : start % pgSize = 0) (hpos : 0 < start)
    (hkernel : PoolAt kernelPool start kernelPages)
    (huser : PoolAt userPool (start + kernelPages * pgSize) userPages) :
    PallocOk ⟨⟨fun name => if name = .kernelPool then kernelPool else userPool, memory⟩, []⟩ := by
  have hsize := hkernel.size
  refine ⟨⟨fun name => ?_, fun name => ?_, ?_, ?_⟩, by simp, fun name i hi => ?_⟩
  · cases name with
    | kernelPool =>
      change pgOfs kernelPool.base = 0
      rw [hkernel.base_eq, pgOfs]
      simp only [pgSize] at *
      omega
    | userPool =>
      change pgOfs userPool.base = 0
      rw [huser.base_eq, pgOfs]
      simp only [pgSize] at *
      omega
  · cases name with
    | kernelPool =>
      change kernelPool.mapAt + Bitmap.bufSize kernelPool.size ≤ kernelPool.base
      rw [hkernel.mapAt, hkernel.base_eq]
      exact Nat.add_le_add_left hkernel.fits _
    | userPool =>
      change userPool.mapAt + Bitmap.bufSize userPool.size ≤ userPool.base
      rw [huser.mapAt, huser.base_eq]
      exact Nat.add_le_add_left huser.fits _
  · change kernelPool.base + pgSize * kernelPool.size = userPool.mapAt
    have hbytes := congrArg (· * pgSize) hsize
    simp only [Nat.add_mul] at hbytes
    rw [hkernel.base_eq, huser.mapAt, Nat.mul_comm pgSize]
    omega
  · change 0 < kernelPool.mapAt
    rw [hkernel.mapAt]
    exact hpos
  cases name with
  | kernelPool =>
    have hfree := hkernel.free i hi
    change List.countP _ [] = if kernelPool.usedMap.get i then 1 else 0
    simp [hfree]
  | userPool =>
    have hfree := huser.free i hi
    change List.countP _ [] = if userPool.usedMap.get i then 1 else 0
    simp [hfree]

lemma initPools_ok {freeStart freePages : Nat}
    (halign : freeStart % pgSize = 0) (hpos : 0 < freeStart)
    (h : initPools freeStart freePages userPageLimit memory = .ok p) : PallocOk ⟨p, []⟩ := by
  simp only [initPools, bind, Except.bind, pure, Except.pure] at h
  generalize (if freePages / 2 > userPageLimit then userPageLimit else freePages / 2) =
    userPages at h
  cases hkernel : initPool freeStart (freePages - userPages) "kernel pool" memory with
  | error fault => simp [hkernel] at h
  | ok kernelPool =>
    rw [hkernel] at h
    cases huser : initPool (freeStart + (freePages - userPages) * pgSize) userPages "user pool"
        memory with
    | error fault => simp [huser] at h
    | ok userPool =>
      rw [huser] at h
      obtain rfl := Except.ok.inj h
      exact .ofPools memory halign hpos (initPool_spec hkernel) (initPool_spec huser)

lemma initRamPages_le (extended : BitVec 16) : initRamPages extended ≤ 16384 := by
  unfold initRamPages
  omega

lemma ptov_bind {paddr : Nat} (h : paddr < physBase) (f : Nat → Except Fault α) :
    (ptov paddr >>= f) = f (paddr + physBase) := by
  rw [ptov, assertThat_of_true _ h]
  rfl

lemma pallocInit_ok {extended : BitVec 16}
    (h : pallocInit (initRamPages extended) userPageLimit memory = .ok p) : PallocOk ⟨p, []⟩ := by
  have hhigh := initRamPages_le extended
  have hram : initRamPages extended * pgSize < physBase := by
    simp only [pgSize, physBase]
    omega
  have hmega : 1024 * 1024 < physBase := by
    unfold physBase
    norm_num
  obtain ⟨freeStart, hstart⟩ : ∃ freeStart, freeStart = 1024 * 1024 + physBase := ⟨_, rfl⟩
  have halign : freeStart % pgSize = 0 ∧ 0 < freeStart := by
    rw [hstart]
    simp only [physBase, pgSize]
    norm_num
  rw [pallocInit, ptov_bind hmega, ptov_bind hram, ← hstart] at h
  exact initPools_ok halign.1 halign.2 h

/-- In every run from a successful initialisation, the ranges in use do not overlap and every call
does what it should. -/
theorem palloc_safe_of_run {extended : BitVec 16} {userPageLimit : Nat} {memory : Memory}
    {p : Palloc} (hinit : pallocInit (initRamPages extended) userPageLimit memory = .ok p)
    {events : List PallocEvent} {s : PallocClient}
    (hevents : Meets pallocStep Returned ⟨p, []⟩ events)
    (hrun : run pallocStep ⟨p, []⟩ events = some s) : PallocSafe s :=
  (run_invariant (I := PallocOk) (fun _ _ _ h hevent ht => pallocStep_ok h hevent ht)
    (pallocInit_ok hinit) hevents hrun).safe

instance (s : PallocClient) : ∀ event, Decidable (Returned s event)
  | .get _ _ => inferInstanceAs (Decidable True)
  | .free range => inferInstanceAs (Decidable (range ∈ s.live))

def getAndFree : List PallocEvent :=
  [.get palUser 1, .get palZero 1, .free ⟨0xC0101000, 1, .kernelPool⟩, .get 0 2]

theorem palloc_safe_two_pages : ∃ p s, pallocInit (initRamPages 16#16) 100 (fun _ => 0) = .ok p ∧
    Meets pallocStep Returned ⟨p, []⟩ getAndFree ∧
    run pallocStep ⟨p, []⟩ getAndFree = some s ∧ PallocSafe s := by
  have hruns : (match pallocInit (initRamPages 16#16) 100 (fun _ => 0) with
      | .ok p => decide (Meets pallocStep Returned ⟨p, []⟩ getAndFree) &&
          (run pallocStep ⟨p, []⟩ getAndFree).isSome
      | .error _ => false) = true := by decide +kernel
  cases hinit : pallocInit (initRamPages 16#16) 100 (fun _ => 0) with
  | error fault => simp [hinit] at hruns
  | ok p =>
    simp only [hinit, Bool.and_eq_true, decide_eq_true_eq] at hruns
    obtain ⟨s, hs⟩ := isSome_iff_exists.mp hruns.2
    exact ⟨p, s, rfl, hruns.1, hs, palloc_safe_of_run hinit hruns.1 hs⟩

end Pintos.Threads
