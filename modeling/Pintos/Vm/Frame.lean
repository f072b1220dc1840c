import Pintos.Vm.Kernel

/-!
# The frame table

`vm/frame.c`.  The list is walked and changed under `frame_table_lock`, so every
function here is one step for the other threads.  `save_evicted_page` has no
body in the source.
-/

namespace Pintos.Vm

open Foundation Filesys Userprog

variable {t : Kernel} {flags : PallocFlags} {Q : Option KernelPtr → Kernel → Prop}

def addFrameTableEntry (newFramePtr : Nat) : KernelAction Unit := do
  let heap ← onFs uninitialised
  let allocated ← onFs malloc
  require (allocated = true) (.assertion "new_frame_table_entry != NULL")
  let addr ← onFs newAddress
  -- `page_ptr` keeps what the block held before
  Action.modify fun k => k.setFrameTable
    (k.frameTable ++ [⟨addr, newFramePtr, word32 heap 4, k.current⟩])

def moveToBack (entries : List FrameTableEntry) (entry : FrameTableEntry) :
    List FrameTableEntry := removeAt FrameTableEntry.addr entries entry.addr ++ [entry]

/-- The loop of `next_frame_table_entry_to_clear` over the entries not yet visited. -/
def clearLoop : List FrameTableEntry → KernelAction (Option FrameTableEntry)
  | [] => pure none
  | entry :: rest => do
    match ← threadGetById entry.ownerThreadTid with
    -- the page directory is read through a null pointer
    | none => stop .nullAccess
    | some thread => do
      if ← pagedirIsAccessed thread.pagedir entry.pagePtr then do
        pagedirClearAccessed thread.tid entry.pagePtr
        clearLoop rest
      else do
        Action.modify fun k => k.setFrameTable (moveToBack k.frameTable entry)
        return some entry

def nextFrameTableEntryToClear : KernelAction FrameTableEntry := do
  let k ← Action.get
  match ← clearLoop k.frameTable with
  | some entry => return entry
  | none =>
    match k.frameTable with
    | entry :: _ => return entry
    -- `list_begin` of the empty list is its tail, which is then written to as an entry
    | [] => stop .wildAccess

def evictPageFromFrame : KernelAction KernelPtr := do
  let cleared ← nextFrameTableEntryToClear
  Action.modify fun k => k.setFrameTable (updateAt FrameTableEntry.addr k.frameTable cleared.addr
      ({ · with ownerThreadTid := k.current, pagePtr := 0 }))
  return .entry cleared.addr

def vmGetFrame (flags : PallocFlags) : KernelAction (Option KernelPtr) := do
  let newFramePtr ← (if flags.user then pallocGetPage flags else pure none)
  match newFramePtr with
  | some page => do
    addFrameTableEntry page
    return some (.page page)
  | none => do
    let entry ← evictPageFromFrame
    return some entry

def removeFrame (frame : KernelPtr) (entries : List FrameTableEntry) : List FrameTableEntry :=
  entries.eraseP fun entry => .page entry.framePtr = frame

def vmFreeFrame (frame : KernelPtr) : KernelAction Unit := do
  Action.modify fun k => k.setFrameTable (removeFrame frame k.frameTable)
  pallocFreePage frame

/-! ## Allocation and release of a frame -/

section

variable {k : Kernel}

@[simp] lemma wp_onFs {α : Type} (x : FsAction α) (Q : α → Kernel → Prop) :
    wp (onFs x) Q k ↔ wp x (fun a fs => Q a (k.setFs fs)) k.fs :=
  wp_zoom _ _ _ _ _

def Kernel.Used (k : Kernel) (page : Nat) : Prop :=
  page < k.userPool.bitCnt ∧ k.userPool.get page = true

def Kernel.HasFree (k : Kernel) : Prop := ∃ page < k.userPool.bitCnt, k.userPool.get page = false

structure Marks (pool pool' : Bitmap) (page : Nat) (value : Bool) : Prop where
  lt : page < pool.bitCnt
  old : pool.get page = !value
  bitCnt : pool'.bitCnt = pool.bitCnt
  get : ∀ j, pool'.get j = if j = page then value else pool.get j

lemma run_one (b : Bitmap) (i : Nat) (value : Bool) :
    b.Run i 1 value ↔ i < b.bitCnt ∧ b.get i = value := by
  constructor
  · rintro ⟨hle, hget⟩
    exact ⟨by omega, hget i (le_refl i) (by omega)⟩
  rintro ⟨hlt, hget⟩
  refine ⟨by omega, fun j hlo hhi => ?_⟩
  rw [show j = i by omega]
  exact hget

lemma pallocGetPage_free (flags : PallocFlags) (h : k.HasFree) :
    ∃ page pool contents, Marks k.userPool pool page true ∧
      pallocGetPage flags k = .ok (some page, (k.setPool pool).setPage page contents) := by
  obtain ⟨free, hlt, hfree⟩ := h
  rcases k.userPool.scanAndFlip_spec 1 false (Nat.zero_le k.userPool.bitCnt) with
    ⟨page, pool, hscan, -, hrun, -, hcnt, hget⟩ | ⟨-, hnone⟩
  · obtain ⟨hpage, hold⟩ := (run_one _ _ _).mp hrun
    refine ⟨page, pool, if flags.zero then fill (k.memory page) 0 0 pgSize else k.memory page,
      ⟨hpage, hold, hcnt, fun j => ?_⟩, eq_ok_of_wp ?_⟩
    · rw [hget]
      exact if_congr (by omega) rfl rfl
    · cases hzero : flags.zero <;>
        simp [pallocGetPage, wp_ofExcept hscan, hzero, Kernel.setPage, Kernel.setPool]
  · exact absurd ((run_one _ _ _).mpr ⟨hlt, hfree⟩) (hnone free (Nat.zero_le _))

lemma pallocGetPage_full (flags : PallocFlags) (h : ¬ k.HasFree) : pallocGetPage flags k =
      if flags.assert then .error (.panic "palloc_get: out of pages") else .ok (none, k) := by
  rcases k.userPool.scanAndFlip_spec 1 false (Nat.zero_le k.userPool.bitCnt) with
    ⟨page, pool, -, -, hrun, -, -, -⟩ | ⟨hscan, -⟩
  · obtain ⟨hpage, hold⟩ := (run_one _ _ _).mp hrun
    exact absurd ⟨page, hpage, hold⟩ h
  cases hassert : flags.assert with
  | false =>
    refine eq_ok_of_wp ?_
    simp [pallocGetPage, wp_ofExcept hscan, hassert, Kernel.setPool]
  | true => simp [pallocGetPage, bind, Action.get, Action.ofExcept, hscan, Except.map,
      Action.modify, require, hassert]

lemma pallocFreePage_used {page : Nat} (h : k.Used page) :
    ∃ pool contents, Marks k.userPool pool page false ∧
      pallocFreePage (.page page) k = .ok ((), (k.setPage page contents).setPool pool) := by
  obtain ⟨hlt, hused⟩ := h
  obtain ⟨used, hall, hiff⟩ := k.userPool.all_spec (show page + 1 ≤ k.userPool.bitCnt by omega)
  obtain ⟨pool, hset, hcnt, hget⟩ :=
    k.userPool.setMultiple_spec false (show page + 1 ≤ k.userPool.bitCnt by omega)
  have htrue : used = true := hiff.mpr fun j hlo hhi => by rw [show j = page by omega]; exact hused
  refine ⟨pool, fill (k.memory page) 0 0xcc pgSize, ⟨hlt, hused, hcnt, fun j => ?_⟩, eq_ok_of_wp ?_⟩
  · rw [hget]
    exact if_congr (by omega) rfl rfl
  · simp [pallocFreePage, wp_ofExcept hall, wp_ofExcept hset, htrue, hlt]

lemma used_of_pallocFreePage {frame : KernelPtr}
    (h : pallocFreePage frame k = .ok ((), t)) : ∃ page, frame = .page page ∧ k.Used page := by
  cases frame with
  | entry addr => cases h
  | page page =>
    have hwp : wp (pallocFreePage (.page page)) (fun _ _ => True) k := wp_iff.mpr ⟨_, _, h, trivial⟩
    simp only [pallocFreePage, wp_bind, wp_get, wp_require] at hwp
    obtain ⟨hlt, hwp⟩ := hwp
    obtain ⟨used, hall, hiff⟩ := k.userPool.all_spec (show page + 1 ≤ k.userPool.bitCnt by omega)
    rw [wp_modify, wp_ofExcept hall] at hwp
    refine ⟨page, rfl, hlt, hiff.mp hwp.1 page (le_refl _) (by omega)⟩

/-! ## Eviction -/

structure Searched (k t : Kernel) : Prop where
  userPool : t.userPool = k.userPool
  fs : t.fs = k.fs
  current : t.current = k.current
  tids : t.allList.map Process.tid = k.allList.map Process.tid
  frameTable : t.frameTable.Perm k.frameTable

lemma Searched.refl (k : Kernel) : Searched k k := ⟨rfl, rfl, rfl, rfl, List.Perm.refl _⟩

lemma Searched.trans {u : Kernel} (h : Searched k t) (h' : Searched t u) : Searched k u :=
  ⟨h'.userPool.trans h.userPool, h'.fs.trans h.fs, h'.current.trans h.current,
    h'.tids.trans h.tids, h'.frameTable.trans h.frameTable⟩

lemma tids_updateProcess (tid : Nat) {f : Process → Process} (h : ∀ p, (f p).tid = p.tid) :
    (k.updateProcess tid f).allList.map Process.tid = k.allList.map Process.tid :=
  map_updateAt Process.tid h

lemma pagedirClearAccessed_searched (tid vpage : Nat) : wp (pagedirClearAccessed tid vpage)
      (fun _ t => Searched k t ∧ t.frameTable = k.frameTable) k := by
  simp only [pagedirClearAccessed, wp_modify]
  split
  · exact ⟨⟨rfl, rfl, rfl, tids_updateProcess tid fun _ => rfl, List.Perm.refl _⟩, rfl⟩
  · exact ⟨⟨rfl, rfl, rfl, rfl, List.Perm.refl _⟩, rfl⟩

lemma perm_moveToBack {entries : List FrameTableEntry} {entry : FrameTableEntry}
    (hnodup : (entries.map FrameTableEntry.addr).Nodup) (h : entry ∈ entries) :
    (moveToBack entries entry).Perm entries := by
  have hperm := map_perm_removeAt id hnodup h
  simp only [List.map_id_fun, id_eq] at hperm
  exact (List.perm_append_singleton _ _).trans hperm.symm

lemma pagedirIsAccessed_outcome (pd : Option PageTable) (vpage : Nat) :
    outcome (pagedirIsAccessed pd vpage) (fun _ t => t = k) (fun _ => True) k := by
  cases pd with
  | none => simp [pagedirIsAccessed, requirePagedir]
  | some pd =>
    simp only [pagedirIsAccessed, requirePagedir, outcome_bind, outcome_pure, outcome_get]
    split <;> simp

lemma clearLoop_outcome (rest : List FrameTableEntry) {k : Kernel}
    (hnodup : (k.frameTable.map FrameTableEntry.addr).Nodup) (hrest : rest ⊆ k.frameTable) :
    outcome (clearLoop rest)
      (fun found t => Searched k t ∧ ∀ entry, found = some entry → entry ∈ k.frameTable)
      (fun _ => True) k := by
  induction rest generalizing k with
  | nil => exact ⟨.refl k, by simp⟩
  | cons entry rest ih =>
    obtain ⟨hentry, hrest⟩ := List.cons_subset.mp hrest
    simp only [clearLoop, threadGetById, outcome_bind, outcome_get, outcome_pure]
    cases findAt Process.tid k.allList entry.ownerThreadTid with
    | none => trivial
    | some thread =>
      simp only [outcome_bind]
      refine outcome_mono (pagedirIsAccessed_outcome _ _) ?_ fun _ => id
      rintro accessed _ rfl
      split
      · simp only [outcome_bind]
        refine outcome_mono (outcome_of_wp (pagedirClearAccessed_searched _ _)) ?_ fun _ => id
        rintro _ t ⟨hsearched, hsame⟩
        refine outcome_mono (ih (hsame ▸ hnodup) (hsame ▸ hrest)) ?_ fun _ => id
        rintro found u ⟨hu, hfound⟩
        exact ⟨hsearched.trans hu, fun e he => hsame ▸ hfound e he⟩
      · simp only [outcome_bind, outcome_modify, outcome_pure, some.injEq]
        refine ⟨⟨rfl, rfl, rfl, rfl, perm_moveToBack hnodup hentry⟩, ?_⟩
        rintro _ rfl
        exact hentry

structure Evicts (k t : Kernel) (entry : FrameTableEntry) : Prop where
  mem : entry ∈ k.frameTable
  userPool : t.userPool = k.userPool
  fs : t.fs = k.fs
  current : t.current = k.current
  tids : t.allList.map Process.tid = k.allList.map Process.tid
  frameTable : t.frameTable.Perm (updateAt FrameTableEntry.addr k.frameTable entry.addr
    ({ · with ownerThreadTid := k.current, pagePtr := 0 }))

lemma evictPageFromFrame_outcome (hnodup : (k.frameTable.map FrameTableEntry.addr).Nodup) :
    outcome evictPageFromFrame
      (fun frame t => ∃ entry, frame = .entry entry.addr ∧ Evicts k t entry) (fun _ => True) k := by
  have hupdate : ∀ entry ∈ k.frameTable, ∀ t, Searched k t →
      Evicts k (t.setFrameTable (updateAt FrameTableEntry.addr t.frameTable entry.addr
        ({ · with ownerThreadTid := t.current, pagePtr := 0 }))) entry := by
    intro entry hentry t ht
    refine ⟨hentry, ht.userPool, ht.fs, ht.current, ht.tids, ?_⟩
    simp only [Kernel.setFrameTable_frameTable, ht.current]
    exact ht.frameTable.map _
  simp only [evictPageFromFrame, nextFrameTableEntryToClear, outcome_bind, outcome_get]
  refine outcome_mono (clearLoop_outcome k.frameTable hnodup (List.Subset.refl _)) ?_ fun _ => id
  rintro found t ⟨ht, hfound⟩
  cases found with
  | some entry =>
    simp only [outcome_pure, outcome_modify]
    exact ⟨entry, rfl, hupdate entry (hfound entry rfl) t ht⟩
  | none =>
    cases htab : k.frameTable with
    | nil => trivial
    | cons entry rest =>
      simp only [outcome_pure, outcome_modify]
      exact ⟨entry, rfl, hupdate entry (by simp [htab]) t ht⟩

/-! ## `vm_get_frame` -/

structure Grants (k t : Kernel) (page : Nat) : Prop where
  marks : Marks k.userPool t.userPool page true
  fs : t.fs = (k.fs.spend 1).bump
  current : t.current = k.current
  allList : t.allList = k.allList
  frameTable : ∃ pagePtr,
    t.frameTable = k.frameTable ++ [⟨k.fs.nextAddress, page, pagePtr, k.current⟩]

lemma wp_addFrameTableEntry (newFramePtr : Nat) (Q : Unit → Kernel → Prop) :
    wp (addFrameTableEntry newFramePtr) Q k ↔ k.fs.heapOk k.fs.allocations = true ∧
        Q () ((k.setFs (k.fs.spend 1).bump).setFrameTable
          (k.frameTable ++ [⟨k.fs.nextAddress, newFramePtr,
            word32 (k.fs.garbage k.fs.allocations) 4, k.current⟩])) := by
  simp [addFrameTableEntry, uninitialised]

lemma vmGetFrame_free (huser : flags.user = true) (h : k.HasFree) :
    ∃ page t, Grants k t page ∧ ∀ Q, wp (vmGetFrame flags) Q k ↔
      k.fs.heapOk k.fs.allocations = true ∧ Q (some (.page page)) t := by
  obtain ⟨page, pool, contents, hmarks, hget⟩ := pallocGetPage_free flags h
  refine ⟨page, ((k.setPool pool).setPage page contents |>.setFs (k.fs.spend 1).bump).setFrameTable
    (k.frameTable ++ [⟨k.fs.nextAddress, page, word32 (k.fs.garbage k.fs.allocations) 4,
      k.current⟩]), ⟨hmarks, rfl, rfl, rfl, _, rfl⟩, fun Q => ?_⟩
  rw [vmGetFrame, if_pos huser, wp_bind, wp_of_ok hget]
  simp only [wp_bind, wp_pure, wp_addFrameTableEntry]
  exact Iff.rfl

lemma vmGetFrame_of_free (h : flags.user = true ∧ k.HasFree)
    (hQ : ∀ page t, Grants k t page → Q (some (.page page)) t) :
    outcome (vmGetFrame flags) Q (fun _ => True) k := by
  obtain ⟨page, t, ht, hwp⟩ := vmGetFrame_free h.1 h.2
  by_cases hheap : k.fs.heapOk k.fs.allocations = true
  · exact outcome_of_wp ((hwp _).mpr ⟨hheap, hQ page t ht⟩)
  unfold outcome
  cases hrun : vmGetFrame flags k with
  | error e => trivial
  | ok r =>
    have hr : wp (vmGetFrame flags) (fun _ _ => True) k := wp_iff.mpr ⟨_, _, hrun, trivial⟩
    exact absurd ((hwp _).mp hr).1 hheap

lemma vmGetFrame_of_full (h : ¬ (flags.user = true ∧ k.HasFree))
    (hQ : outcome evictPageFromFrame (fun frame t => Q (some frame) t) (fun _ => True) k) :
    outcome (vmGetFrame flags) Q (fun _ => True) k := by
  have hevict : outcome (do let entry ← evictPageFromFrame; return some entry) Q
      (fun _ => True) k := by
    simpa only [outcome_bind, outcome_pure] using hQ
  rw [vmGetFrame, outcome_bind]
  cases huser : flags.user with
  | false => exact hevict
  | true =>
    have hfull := pallocGetPage_full flags fun hfree => h ⟨huser, hfree⟩
    cases hassert : flags.assert with
    | false =>
      simp only [hassert, Bool.false_eq_true, if_false] at hfull
      simpa only [if_true, outcome, hfull] using hevict
    | true =>
      simp only [hassert, if_true] at hfull
      simp only [if_true, outcome, hfull]

lemma vmGetFrame_outcome (flags : PallocFlags)
    (hnodup : (k.frameTable.map FrameTableEntry.addr).Nodup) : outcome (vmGetFrame flags)
      (fun frame t => (∃ page, frame = some (.page page) ∧ Grants k t page) ∨
        ∃ entry, frame = some (.entry entry.addr) ∧ Evicts k t entry) (fun _ => True) k := by
  by_cases h : flags.user = true ∧ k.HasFree
  · exact vmGetFrame_of_free h fun page t ht => .inl ⟨page, rfl, ht⟩
  refine vmGetFrame_of_full h (outcome_mono (evictPageFromFrame_outcome hnodup) ?_ fun _ => id)
  rintro _ t ⟨entry, rfl, ht⟩
  exact .inr ⟨entry, rfl, ht⟩

lemma vmGetFrame_full (h : ¬ (flags.user = true ∧ k.HasFree)) : outcome
    (vmGetFrame flags) (fun frame _ => ∃ addr, frame = some (.entry addr)) (fun _ => True) k := by
  refine vmGetFrame_of_full h ?_
  simp only [evictPageFromFrame, outcome_bind, outcome_pure, outcome_modify]
  refine outcome_mono (outcome_of_stops _ k trivial) ?_ fun _ => id
  intro entry t _
  exact ⟨entry.addr, rfl⟩

lemma vmGetFrame_frame (flags : PallocFlags) : outcome (vmGetFrame flags)
      (fun frame t => (∃ page, frame = some (.page page) ∧ Grants k t page) ∨
        ∃ addr, frame = some (.entry addr)) (fun _ => True) k := by
  by_cases h : flags.user = true ∧ k.HasFree
  · exact vmGetFrame_of_free h fun page t ht => .inl ⟨page, rfl, ht⟩
  · exact outcome_mono (vmGetFrame_full h) (fun _ _ => .inr) fun _ => id

lemma vmGetFrame_memory (flags : PallocFlags) :
    outcome (vmGetFrame flags) (fun frame t => ∀ page, frame = some (.page page) →
      ∃ contents, t.memory = update k.memory page contents ∧
        (flags.zero = true → ∀ i < pgSize, contents i = 0)) (fun _ => True) k := by
  have hevict : ∀ s : Kernel, outcome (do let entry ← evictPageFromFrame; return some entry)
      (fun frame t => ∀ page, frame = some (.page page) → ∃ contents,
        t.memory = update k.memory page contents ∧
          (flags.zero = true → ∀ i < pgSize, contents i = 0)) (fun _ => True) s := by
    intro s
    simp only [evictPageFromFrame, outcome_bind, outcome_pure, outcome_modify]
    refine outcome_mono (outcome_of_stops _ s trivial) ?_ fun _ => id
    intro entry t _ page heq
    cases heq
  rw [vmGetFrame, outcome_bind]
  cases flags.user with
  | false => exact hevict k
  | true =>
    rw [if_pos rfl]
    rcases k.userPool.scanAndFlip_spec 1 false (Nat.zero_le k.userPool.bitCnt) with
      ⟨page, pool, hscan, -⟩ | ⟨hscan, -⟩
    · have hget : ∃ contents, (flags.zero = true → ∀ i < pgSize, contents i = 0) ∧
          pallocGetPage flags k = .ok (some page, (k.setPool pool).setPage page contents) := by
        refine ⟨if flags.zero then fill (k.memory page) 0 0 pgSize else k.memory page,
          fun hzero i hi => ?_, eq_ok_of_wp ?_⟩
        · rw [if_pos hzero, fill, if_pos (by omega)]
        cases hzero : flags.zero <;>
          simp [pallocGetPage, wp_ofExcept hscan, hzero, Kernel.setPage, Kernel.setPool]
      obtain ⟨contents, hzero, hget⟩ := hget
      rw [outcome, hget]
      simp only [addFrameTableEntry, uninitialised, onFs, outcome_bind, outcome_zoom,
        outcome_get, outcome_pure, outcome_malloc, outcome_newAddress, outcome_modify]
      refine outcome_require (fun _ => ?_) fun _ => trivial
      rintro _ ⟨⟩
      exact ⟨contents, rfl, hzero⟩
    · simp only [pallocGetPage, outcome_bind, outcome_get, outcome_ofExcept hscan, outcome_modify]
      exact outcome_require (fun _ => hevict _) fun _ => trivial

/-! ## `pagedir_set_page` -/

structure Installs (k t : Kernel) (page frame : Nat) (writable : Bool) (process : Process)
    (pd : PageTable) : Prop where
  user : page * pgSize < physBase
  current : findAt Process.tid k.allList k.current = some process
  pagedir : process.pagedir = some pd
  fresh : pd.lookup page = none
  result : ∃ fs, (fs = k.fs ∨ fs = k.fs.spend 1) ∧
    t = (k.setFs fs).updateProcess k.current (·.setPagedir (some (pd.add page frame writable)))

lemma pagedirSetPage_outcome (page : Nat) (kpage : KernelPtr) (writable : Bool) :
    outcome (pagedirSetPage page kpage writable)
      (fun set t => (set = false ∧ ∃ fs, (fs = k.fs ∨ fs = k.fs.spend 1) ∧ t = k.setFs fs) ∨
        set = true ∧ ∃ frame process pd, kpage = .page frame ∧
          Installs k t page frame writable process pd) (fun _ => True) k := by
  cases kpage with
  | entry addr => trivial
  | page frame =>
    simp only [pagedirSetPage, threadCurrent, outcome_bind, outcome_get]
    refine outcome_require (fun huser => ?_) fun _ => trivial
    cases hproc : findAt Process.tid k.allList k.current with
    | none => trivial
    | some process =>
      simp only [outcome_pure]
      cases hpd : process.pagedir with
      | none => trivial
      | some pd =>
        simp only [requirePagedir, outcome_pure]
        have hstore : ∀ fs, (fs = k.fs ∨ fs = k.fs.spend 1) → ∀ found,
            outcome (storePte pd page frame writable found) (fun set t =>
                (set = false ∧ ∃ fs, (fs = k.fs ∨ fs = k.fs.spend 1) ∧ t = k.setFs fs) ∨
                set = true ∧ ∃ frame' process pd, KernelPtr.page frame = .page frame' ∧
                  Installs k t page frame' writable process pd)
              (fun _ => True) (k.setFs fs) := by
          intro fs hfs found
          cases found with
          | false => exact .inl ⟨rfl, fs, hfs, rfl⟩
          | true =>
            simp only [storePte, if_true, outcome_bind]
            refine outcome_require (fun hfresh => ?_) fun _ => trivial
            exact .inr ⟨rfl, frame, process, pd, rfl, huser, hproc, hpd, hfresh, fs, hfs, rfl⟩
        split
        · exact hstore k.fs (.inl rfl) true
        simp only [onFs, outcome_zoom, outcome_malloc]
        exact hstore (k.fs.spend 1) (.inr rfl) _

end

end Pintos.Vm
