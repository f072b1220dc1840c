import Pintos.Vm.Frame

/-!
# Loading pages

`vm/page.c`, and `vm_swap_in` of `vm/swap.c`.  A page is brought in the same way
everywhere: a frame is taken, filled and mapped, and given back if that fails.
-/

namespace Pintos.Vm

open Foundation Filesys Userprog

variable {fillPage : KernelPtr → KernelAction Bool} {loaded : Bool} {f : Process → Process}

def provideFrame (flags : PallocFlags) (page : Nat) (writable : Bool)
    (fillPage : KernelPtr → KernelAction Bool) : KernelAction Bool := do
  match ← vmGetFrame flags with
  | none => return false
  | some kpage => do
    if ← fillPage kpage then
      if ← pagedirSetPage page kpage writable then return true
      else do
        vmFreeFrame kpage
        return false
    else do
      vmFreeFrame kpage
      return false

def getSpe (page : Nat) : KernelAction (Option SupPageEntry) := do
  let process ← threadCurrent
  return process.supplPageTable page

def setSpe (page : Nat) (spe : Option SupPageEntry) : KernelAction Unit :=
  updateCurrent (·.setSpe page spe)

/-- Read the page's bytes from the file and clear the `zeroBytes` that follow.  A frame table
entry taken for a frame is overwritten along with its neighbours on the heap. -/
def readPage (spe : SupPageEntry) (zeroBytes : Nat) : KernelPtr → KernelAction Bool
  | .entry _ => stop .wildAccess
  | .page frame => do
    require (spe.readBytes + zeroBytes ≤ pgSize) .wildAccess
    let k ← Action.get
    let (bytesRead, contents) ← onFs (fileRead spe.file (k.memory frame) spe.readBytes)
    Action.modify (·.setPage frame contents)
    if bytesRead = spe.readBytes then do
      Action.modify (·.setPage frame (fill contents spe.readBytes 0 zeroBytes))
      return true
    else return false

def loadFilePage (page : Nat) (spe : SupPageEntry) : KernelAction Bool := do
  onFs (fileSeek spe.file spe.offset)
  let loaded ← provideFrame ⟨false, false, true⟩ page spe.writable (readPage spe spe.zeroBytes)
  if loaded then setSpe page (some { spe with loaded := true })
  return loaded

def loadPageMmf (page : Nat) (spe : SupPageEntry) : KernelAction Bool := do
  onFs (fileSeek spe.file spe.offset)
  let loaded ← provideFrame ⟨false, false, true⟩ page true (readPage spe (pgSize - spe.readBytes))
  if loaded then
    setSpe page (some { spe with
      loaded := true, type := if spe.type = .mmfSwap then .mmf else spe.type })
  return loaded

def vmSwapIn (swapIdx frame : Nat) : KernelAction Unit := do
  let k ← Action.get
  require (8 * swapIdx + 8 ≤ k.swap.size) (.panic "Access past end of device")
  Action.modify fun k =>
    k.setPage frame (copy (k.memory frame) 0 k.swap.disk (pgSize * swapIdx) pgSize)
  let map ← Action.ofExcept (k.swap.map.flip swapIdx)
  Action.modify (·.setSwap { k.swap with map })

def loadPageSwap (page : Nat) (spe : SupPageEntry) : KernelAction Bool := do
  let loaded ← provideFrame ⟨false, false, true⟩ page spe.swapWritable fun _ => pure true
  if loaded then do
    -- the data is stored through the user mapping
    require (spe.swapWritable = true) .wildAccess
    match ← pagedirGetPage (page * pgSize) with
    | none => stop .wildAccess
    | some pte => do
      vmSwapIn spe.swapSlotIdx pte.frame
      match spe.type with
      | .swap => setSpe page none
      | .fileSwap => setSpe page (some { spe with type := .file, loaded := true })
      | _ => pure ()
  return loaded

def loadPage (page : Nat) (spe : SupPageEntry) : KernelAction Bool :=
  match spe.type with
  | .file => loadFilePage page spe
  | .mmf | .mmfSwap => loadPageMmf page spe
  | .fileSwap | .swap => loadPageSwap page spe
  | .other => pure false

def growStack (uvaddr : Nat) : KernelAction Unit := do
  let _ ← provideFrame ⟨false, true, true⟩ (pgNo uvaddr) true fun _ => pure true
  return ()

/-! ## Providing a frame -/

section

variable {k : Kernel}

structure SameMappings (k t : Kernel) : Prop where
  userPool : t.userPool = k.userPool
  frameTable : t.frameTable = k.frameTable
  allList : t.allList = k.allList
  current : t.current = k.current

structure Provides (k t : Kernel) (page frame : Nat) (writable : Bool) (process : Process)
    (pd : PageTable) : Prop where
  marks : Marks k.userPool t.userPool frame true
  current : t.current = k.current
  user : page * pgSize < physBase
  found : findAt Process.tid k.allList k.current = some process
  pagedir : process.pagedir = some pd
  fresh : pd.lookup page = none
  allList : t.allList = updateAt Process.tid k.allList k.current
    (·.setPagedir (some (pd.add page frame writable)))

structure Declines (k t : Kernel) : Prop where
  bitCnt : t.userPool.bitCnt = k.userPool.bitCnt
  get : ∀ j, t.userPool.get j = k.userPool.get j
  current : t.current = k.current
  allList : t.allList = k.allList

lemma vmFreeFrame_declines {t : Kernel} {page : Nat}
    (hmarks : Marks k.userPool t.userPool page true) (hcur : t.current = k.current)
    (hallList : t.allList = k.allList) :
    wp (vmFreeFrame (.page page)) (fun _ u => Declines k u) t := by
  have hused : (t.setFrameTable (removeFrame (.page page) t.frameTable)).Used page := by
    refine ⟨?_, ?_⟩
    · exact hmarks.bitCnt ▸ hmarks.lt
    · simp [hmarks.get]
  obtain ⟨pool, contents, hfreed, hfree⟩ := pallocFreePage_used hused
  simp only [vmFreeFrame, wp_bind, wp_modify]
  rw [wp_of_ok hfree]
  refine ⟨hfreed.bitCnt.trans hmarks.bitCnt, fun j => ?_, hcur, hallList⟩
  simp only [Kernel.setPool_userPool, hfreed.get, Kernel.setFrameTable_userPool, hmarks.get]
  by_cases hj : j = page
  · simp [hj, hmarks.old]
  · simp [hj]

lemma provideFrame_outcome (flags : PallocFlags) (page : Nat) (writable : Bool)
    (hfill : ∀ kpage s, outcome (fillPage kpage) (fun _ t => SameMappings s t) (fun _ => True) s) :
    outcome (provideFrame flags page writable fillPage) (fun provided t =>
        (provided = true ∧ ∃ frame process pd, Provides k t page frame writable process pd) ∨
        provided = false ∧ Declines k t) (fun _ => True) k := by
  rw [provideFrame, outcome_bind]
  refine outcome_mono (vmGetFrame_frame flags) ?_ fun _ => id
  rintro _ s (⟨frame, rfl, hs⟩ | ⟨addr, rfl⟩)
  · simp only [outcome_bind]
    refine outcome_mono (hfill _ s) ?_ fun _ => id
    intro filled t ht
    have hmarks : Marks k.userPool t.userPool frame true := ht.userPool ▸ hs.marks
    have hcur : t.current = k.current := ht.current.trans hs.current
    have hallList : t.allList = k.allList := ht.allList.trans hs.allList
    cases filled with
    | false =>
      simp only [Bool.false_eq_true, if_false, outcome_bind, outcome_pure]
      refine outcome_of_wp (wp_mono (vmFreeFrame_declines hmarks hcur hallList) ?_)
      intro _ u hu
      exact .inr ⟨trivial, hu⟩
    | true =>
      simp only [if_true, outcome_bind]
      refine outcome_mono (pagedirSetPage_outcome page _ writable) ?_ fun _ => id
      rintro set u (⟨rfl, fs, -, rfl⟩ | ⟨rfl, frame', process, pd, hframe, hu⟩)
      · simp only [Bool.false_eq_true, if_false, outcome_bind, outcome_pure]
        refine outcome_of_wp (wp_mono (vmFreeFrame_declines hmarks hcur hallList) ?_)
        intro _ v hv
        exact .inr ⟨trivial, hv⟩
      cases hframe
      obtain ⟨fs, -, rfl⟩ := hu.result
      have hfound := hu.current
      rw [hallList, hcur] at hfound
      simp only [if_true, outcome_pure]
      refine .inl ⟨trivial, frame, process, pd, hmarks, hcur, hu.user, hfound, hu.pagedir,
        hu.fresh, ?_⟩
      simp only [Kernel.updateProcess, Kernel.setAllList_allList, Kernel.setFs_allList,
        hallList, hcur]
  · -- an entry taken for a frame can be neither mapped nor freed
    simp only [outcome_bind]
    refine outcome_mono (outcome_of_stops _ s trivial) ?_ fun _ => id
    intro filled t _
    cases filled <;> trivial

end

/-! ## The pages of the current process -/

def maps (k : Kernel) (page : Nat) : Bool :=
  ((findAt Process.tid k.allList k.current).bind Process.pagedir).any
    fun pd => (pd.lookup page).isSome

def speOf (k : Kernel) (page : Nat) : Option SupPageEntry :=
  (findAt Process.tid k.allList k.current).bind (·.supplPageTable page)

def Running (k : Kernel) : Prop :=
  ∃ process pd, findAt Process.tid k.allList k.current = some process ∧ process.pagedir = some pd

section

variable {k t : Kernel} {page : Nat}

lemma PageTable.lookup_add (pd : PageTable) (page frame q : Nat) (writable : Bool) :
    ((pd.add page frame writable).lookup q).isSome =
      (decide (q = page) || (pd.lookup q).isSome) := by
  simp only [PageTable.lookup, PageTable.add, findAt, List.find?_cons]
  by_cases h : page = q
  · simp [h]
  · simp [h, Ne.symm h]

lemma onFs_outcome {α : Type} (x : FsAction α) :
    outcome (onFs x) (fun _ t => ∃ fs, t = k.setFs fs) (fun _ => True) k := by
  rw [onFs, outcome_zoom]
  exact outcome_mono (outcome_of_stops x _ trivial) (fun _ fs _ => ⟨fs, rfl⟩) fun _ => id

variable {process : Process} {pd : PageTable}

section

variable (hcur : findAt Process.tid k.allList k.current = some process)

include hcur

lemma wp_pagedirGetPage
    (hpd : process.pagedir = some pd) {uaddr : Nat} (huser : uaddr < physBase)
    (Q : Option Pte → Kernel → Prop) :
    wp (pagedirGetPage uaddr) Q k ↔ Q (pd.toPagedir (pgNo uaddr)) k := by
  simp [pagedirGetPage, threadCurrent, hcur, hpd, huser, requirePagedir]

lemma wp_getSpe (page : Nat)
    (Q : Option SupPageEntry → Kernel → Prop) :
    wp (getSpe page) Q k ↔ Q (process.supplPageTable page) k := by
  simp [getSpe, threadCurrent, hcur]

end

lemma current_updateProcess (h : findAt Process.tid k.allList k.current = some process)
    (htid : ∀ p, (f p).tid = p.tid) :
    findAt Process.tid (k.updateProcess k.current f).allList k.current = some (f process) := by
  rw [Kernel.updateProcess, Kernel.setAllList_allList, findAt_updateAt_self htid, h]
  rfl

lemma maps_updateProcess (htid : ∀ p, (f p).tid = p.tid) (hpd : ∀ p, (f p).pagedir = p.pagedir)
    (q : Nat) : maps (k.updateProcess k.current f) q = maps k q := by
  simp only [maps, Kernel.updateProcess, Kernel.setAllList_allList, Kernel.setAllList_current]
  rw [findAt_updateAt_self htid]
  cases findAt Process.tid k.allList k.current with
  | none => rfl
  | some process => simp [hpd]

section

variable (h : findAt Process.tid k.allList k.current = some process)

include h

lemma speOf_of_current (q : Nat) : speOf k q = process.supplPageTable q := by
  rw [speOf, h, Option.bind_some]

lemma maps_of_current
    (hpd : process.pagedir = some pd) (q : Nat) : maps k q = (pd.lookup q).isSome := by
  rw [maps, h, Option.bind_some, hpd, Option.any_some]

lemma wp_threadCurrent (Q : Process → Kernel → Prop) : wp threadCurrent Q k ↔ Q process k := by
  simp [threadCurrent, h]

end

lemma getSpe_outcome (q : Nat) : outcome (getSpe q) (fun _ t => t = k) (fun _ => True) k := by
  simp only [getSpe, threadCurrent, outcome_bind, outcome_get]
  cases findAt Process.tid k.allList k.current with
  | none => trivial
  | some process => rfl

lemma pagedirGetPage_outcome (uaddr : Nat) :
    outcome (pagedirGetPage uaddr) (fun _ t => t = k) (fun _ => True) k := by
  simp only [pagedirGetPage, threadCurrent, outcome_bind, outcome_get]
  cases findAt Process.tid k.allList k.current with
  | none => trivial
  | some process =>
    simp only [outcome_pure]
    refine outcome_require (fun _ => ?_) fun _ => trivial
    cases process.pagedir with
    | none => trivial
    | some pd => rfl

end

/-! ## The order of the supplemental page table -/

structure UserPage where
  addr : BitVec 32
  below : addr.toNat < physBase
  aligned : pgOfs addr.toNat = 0

def supplPtLess (a b : UserPage) : Bool := (a.addr - b.addr).slt 0#32

structure OrdersStrictly (pages : Set UserPage) : Prop where
  irrefl : ∀ a ∈ pages, supplPtLess a a = false
  asymm : ∀ a ∈ pages, ∀ b ∈ pages, supplPtLess a b = true → supplPtLess b a = false
  trans : ∀ a ∈ pages, ∀ b ∈ pages, ∀ c ∈ pages, supplPtLess a b = true →
    supplPtLess b c = true → supplPtLess a c = true
  total : ∀ a ∈ pages, ∀ b ∈ pages, supplPtLess a b = true ∨ a = b ∨ supplPtLess b a = true

/-- No two of the pages are 2 GB apart, and none lies between two that are further apart than that
with less than 2 GB to either of them. -/
structure NotFarApart (pages : Set UserPage) : Prop where
  pairs : ∀ a ∈ pages, ∀ b ∈ pages, b.addr.toNat ≠ a.addr.toNat + 2 ^ 31
  triples : ∀ a ∈ pages, ∀ b ∈ pages, ∀ c ∈ pages, a.addr.toNat < b.addr.toNat →
    b.addr.toNat < c.addr.toNat → b.addr.toNat < a.addr.toNat + 2 ^ 31 →
    c.addr.toNat < b.addr.toNat + 2 ^ 31 → c.addr.toNat < a.addr.toNat + 2 ^ 31

lemma supplPtLess_iff (a b : UserPage) : supplPtLess a b = true ↔ a.addr.toNat < b.addr.toNat ∧
    b.addr.toNat ≤ a.addr.toNat + 2 ^ 31 ∨ b.addr.toNat + 2 ^ 31 ≤ a.addr.toNat := by
  have ha := a.addr.isLt
  have hb := b.addr.isLt
  rw [supplPtLess, BitVec.slt_zero_iff_msb_cond, BitVec.msb_eq_decide, decide_eq_true_iff,
    BitVec.toNat_sub]
  omega

lemma supplPtLess_eq_false_iff (a b : UserPage) : supplPtLess a b = false ↔
    ¬ (a.addr.toNat < b.addr.toNat ∧ b.addr.toNat ≤ a.addr.toNat + 2 ^ 31 ∨
      b.addr.toNat + 2 ^ 31 ≤ a.addr.toNat) := by
  rw [← supplPtLess_iff, Bool.not_eq_true]

lemma UserPage.ext_toNat {a b : UserPage} (h : a.addr.toNat = b.addr.toNat) : a = b := by
  obtain ⟨x, _, _⟩ := a
  obtain ⟨y, _, _⟩ := b
  obtain rfl : x = y := BitVec.eq_of_toNat_eq h
  rfl

/-- The comparison orders a set of pages exactly when they are not too far apart. -/
theorem supplPtLess_orders_iff (pages : Set UserPage) :
    OrdersStrictly pages ↔ NotFarApart pages := by
  constructor
  · intro h
    refine ⟨fun a ha b hb heq => ?_, fun a ha b hb c hc hab hbc hnear hnear' => ?_⟩
    · have hless := (supplPtLess_iff a b).mpr (.inl (by omega))
      have := (supplPtLess_eq_false_iff b a).mp (h.asymm a ha b hb hless)
      omega
    · have hac := h.trans a ha b hb c hc ((supplPtLess_iff a b).mpr (.inl (by omega)))
        ((supplPtLess_iff b c).mpr (.inl (by omega)))
      by_contra hfar
      have hasymm := (supplPtLess_eq_false_iff c a).mp (h.asymm a ha c hc hac)
      omega
  intro h
  refine ⟨fun a ha => ?_, fun a ha b hb => ?_, fun a ha b hb c hc => ?_, fun a ha b hb => ?_⟩
  · rw [supplPtLess_eq_false_iff]
    omega
  · rw [supplPtLess_iff, supplPtLess_eq_false_iff]
    have hab := h.pairs a ha b hb
    have hba := h.pairs b hb a ha
    omega
  · rw [supplPtLess_iff, supplPtLess_iff, supplPtLess_iff]
    -- the three addresses in any of the orders that make a cycle
    have habc := h.triples a ha b hb c hc
    have hbca := h.triples b hb c hc a ha
    have hcab := h.triples c hc a ha b hb
    have hab := h.pairs a ha b hb
    have hba := h.pairs b hb a ha
    have hbc := h.pairs b hb c hc
    have hcb := h.pairs c hc b hb
    have hlow := a.below
    have hlow' := b.below
    have hlow'' := c.below
    unfold physBase at hlow hlow' hlow''
    omega
  · rw [supplPtLess_iff, supplPtLess_iff]
    by_cases heq : a.addr.toNat = b.addr.toNat
    · exact .inr (.inl (UserPage.ext_toNat heq))
    have hlow := a.below
    have hlow' := b.below
    omega

/-- The first page and the one at 2 GB are each below the other; three pages go round in a
circle. -/
theorem supplPtLess_circles : (∃ a b : UserPage, supplPtLess a b = true ∧ supplPtLess b a = true) ∧
    (∃ a b c : UserPage, supplPtLess a b = true ∧ supplPtLess b c = true ∧
      supplPtLess a c = false) ∧ ¬ OrdersStrictly Set.univ := by
  have hboth :
      supplPtLess ⟨0#32, by decide, by decide⟩ ⟨0x80000000#32, by decide, by decide⟩ = true ∧
      supplPtLess ⟨0x80000000#32, by decide, by decide⟩ ⟨0#32, by decide, by decide⟩ = true := by
    decide
  refine ⟨⟨_, _, hboth⟩, ⟨⟨0#32, by decide, by decide⟩, ⟨0x50000000#32, by decide, by decide⟩,
    ⟨0xa0000000#32, by decide, by decide⟩, by decide⟩, fun h => ?_⟩
  have := h.asymm _ trivial _ trivial hboth.1
  exact absurd (this.symm.trans hboth.2) (by decide)

end Pintos.Vm
