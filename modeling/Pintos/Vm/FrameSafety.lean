import Pintos.Vm.FrameTable
import Pintos.Vm.Page

/-!
# Frames that are handed out

The ways in which the kernel uses frames: a page is provided for a process
(`load_segment`, `setup_stack`, `load_page` and `grow_stack`), a process is
created or exits, the processor sets the bits of page table entries, and other
code uses the heap.  In every state so reached a mapped frame is in use and
mapped once, and `vm_get_frame` hands out a frame exactly as long as the pool
has one.
-/

namespace Pintos.Vm

open Foundation Filesys Userprog

variable {k : Kernel} {page : Nat} {process : Process}

inductive VmEvent where
  | create (tid : Nat)
  /-- Provide a page; `filled` tells whether its contents could be read. -/
  | provide (tid : Nat) (zero : Bool) (page : Nat) (writable filled : Bool)
  /-- The processor notes an access. -/
  | access (tid page : Nat) (write : Bool)
  /-- Other kernel code, which allocates and frees on the heap and changes page contents. -/
  | elsewhere (fs : Fs) (memory : Nat → Memory)
  | exit (tid : Nat)

def noteAccess (page : Nat) (write : Bool) : KernelAction Unit :=
  updateCurrent fun process => process.setPagedir (process.pagedir.map
    (·.update page fun m => { m with accessed := true, dirty := m.dirty || write }))

def vmStep (k : Kernel) : VmEvent → Option Kernel
  | .create tid => frameStep k (.create tid)
  | .provide tid zero page writable filled =>
    asThread tid (provideFrame ⟨false, zero, true⟩ page writable fun _ => pure filled) k
  | .access tid page write => asThread tid (noteAccess page write) k
  | .elsewhere fs memory =>
    if k.fs.nextAddress ≤ fs.nextAddress then some { k with fs, memory } else none
  | .exit tid => asThread tid exitMemory k

def Process.frames (process : Process) : List Nat :=
  match process.pagedir with
  | none => []
  | some pd => pd.entries.map (·.frame)

def Kernel.mapped (k : Kernel) : List Nat := k.allList.flatMap Process.frames

structure Backed (k : Kernel) : Prop where
  tids : (k.allList.map Process.tid).Nodup
  distinct : k.mapped.Nodup
  used : ∀ frame ∈ k.mapped, k.Used frame

section Lists

variable {t : Kernel}

lemma mapped_perm (h : (k.allList.map Process.tid).Nodup)
    (hfind : findAt Process.tid k.allList k.current = some process) : k.mapped.Perm
      (process.frames ++ (removeAt Process.tid k.allList k.current).flatMap Process.frames) := by
  have := (perm_removeAt h hfind).flatMap_right Process.frames
  simpa [Kernel.mapped] using this

lemma mapped_updateAt (h : (k.allList.map Process.tid).Nodup)
    (hfind : findAt Process.tid k.allList k.current = some process) {f : Process → Process}
    (hf : ∀ p, (f p).tid = p.tid) (ht : t.allList = updateAt Process.tid k.allList k.current f) :
    t.mapped.Perm ((f process).frames ++
      (removeAt Process.tid k.allList k.current).flatMap Process.frames) := by
  have := (perm_updateAt h hfind hf).flatMap_right Process.frames
  simpa [Kernel.mapped, ht] using this

end Lists

/-! ## Freeing the frames of a process -/

structure Releases (pool pool' : Bitmap) (pages : List Nat) : Prop where
  bitCnt : pool'.bitCnt = pool.bitCnt
  get : ∀ j, pool'.get j = if j ∈ pages then false else pool.get j

lemma freeMapped_spec (mappings : List Mapping) (hnodup : (mappings.map (·.frame)).Nodup)
    (hused : ∀ m ∈ mappings, k.Used m.frame) : wp (freeMapped mappings)
      (fun _ t => ∃ pool memory, t = { k with userPool := pool, memory := memory } ∧
        Releases k.userPool pool (mappings.map (·.frame))) k := by
  induction mappings generalizing k with
  | nil => exact ⟨k.userPool, k.memory, rfl, rfl, by simp⟩
  | cons m rest ih =>
    obtain ⟨pool, contents, hmarks, hfree⟩ := pallocFreePage_used (hused m mem_cons_self)
    rw [map_cons, nodup_cons] at hnodup
    simp only [freeMapped, wp_bind]
    rw [wp_of_ok hfree]
    have hrest : ∀ m' ∈ rest, ((k.setPage m.frame contents).setPool pool).Used m'.frame := by
      intro m' hm'
      obtain ⟨hlt, hget⟩ := hused m' (mem_cons_of_mem _ hm')
      have hne : m'.frame ≠ m.frame := fun heq => hnodup.1 (heq ▸ mem_map_of_mem hm')
      refine ⟨?_, ?_⟩
      · exact hmarks.bitCnt ▸ hlt
      · simpa [hmarks.get, hne] using hget
    refine wp_mono (ih hnodup.2 hrest) ?_
    rintro _ _ ⟨pool', memory, rfl, hreleases⟩
    refine ⟨pool', memory, rfl, hreleases.bitCnt.trans hmarks.bitCnt, fun j => ?_⟩
    simp only [hreleases.get, Kernel.setPool_userPool, hmarks.get, map_cons, mem_cons]
    by_cases hj : j = m.frame
    · simp [hj]
    · simp [hj]

/-! ## Steps -/

section Steps

variable {t : Kernel}

lemma Backed.of_perm (h : Backed k) (htids : t.allList.map Process.tid = k.allList.map Process.tid)
    (hmapped : t.mapped.Perm k.mapped) (hpool : t.userPool = k.userPool) : Backed t := by
  refine ⟨htids ▸ h.tids, hmapped.nodup_iff.mpr h.distinct, fun frame hframe => ?_⟩
  rw [Kernel.Used, hpool]
  exact h.used frame (hmapped.mem_iff.mp hframe)

lemma Backed.provides (h : Backed k) {frame : Nat} {writable : Bool}
    {pd : PageTable} (ht : Provides k t page frame writable process pd) : Backed t := by
  have hold := mapped_perm h.tids ht.found
  have hnew : t.mapped.Perm (frame :: k.mapped) := by
    refine (mapped_updateAt h.tids ht.found (by simp) ht.allList).trans ?_
    simpa [Process.frames, PageTable.add, ht.pagedir] using (hold.cons frame).symm
  have hunmapped : frame ∉ k.mapped := by
    intro hmem
    have := (h.used frame hmem).2
    simp [ht.marks.old] at this
  refine ⟨?_, hnew.nodup_iff.mpr (nodup_cons.mpr ⟨hunmapped, h.distinct⟩), fun f hf => ?_⟩
  · rw [ht.allList, map_updateAt Process.tid (by simp)]
    exact h.tids
  rw [Kernel.Used, ht.marks.bitCnt, ht.marks.get]
  rcases mem_cons.mp (hnew.mem_iff.mp hf) with rfl | hmem
  · exact ⟨ht.marks.lt, by simp⟩
  have hne : f ≠ frame := fun heq => hunmapped (heq ▸ hmem)
  simpa [hne, Kernel.Used] using h.used f hmem

lemma Backed.declines (h : Backed k) (ht : Declines k t) : Backed t := by
  refine ⟨ht.allList ▸ h.tids, ?_, fun frame hframe => ?_⟩
  · rw [Kernel.mapped, ht.allList]
    exact h.distinct
  · rw [Kernel.mapped, ht.allList] at hframe
    rw [Kernel.Used, ht.bitCnt, ht.get]
    exact h.used frame hframe

lemma frames_noteAccess (process : Process) (page : Nat) {f : Mapping → Mapping}
    (hf : ∀ m, (f m).frame = m.frame) :
    (process.setPagedir (process.pagedir.map (·.update page f))).frames = process.frames := by
  cases hpd : process.pagedir with
  | none => simp [Process.frames, hpd]
  | some pd =>
    simp only [Process.frames, Process.setPagedir_pagedir, Option.map_some, hpd, PageTable.update]
    exact map_updateAt _ hf

lemma destroyPagedir_spec (h : Backed k)
    (hfind : findAt Process.tid k.allList k.current = some process) : wp destroyPagedir
      (fun _ t => t.fs = k.fs ∧
        findAt Process.tid t.allList t.current = some (process.setPagedir none) ∧
        removeAt Process.tid t.allList t.current = removeAt Process.tid k.allList k.current ∧
        Releases k.userPool t.userPool process.frames) k := by
  have hperm := mapped_perm h.tids hfind
  have hframes : process.frames.Nodup := (nodup_append.mp (hperm.nodup_iff.mp h.distinct)).1
  have hused : ∀ frame ∈ process.frames, k.Used frame := fun frame hframe =>
    h.used frame (hperm.mem_iff.mpr (mem_append_left _ hframe))
  simp only [destroyPagedir, wp_bind, wp_threadCurrent hfind]
  cases hpd : process.pagedir with
  | none =>
    have hsame : process.setPagedir none = process := by rw [← hpd]; rfl
    simp only [wp_pure, Process.frames, hpd, hsame]
    exact ⟨trivial, hfind, trivial, rfl, by simp⟩
  | some pd =>
    simp only [Process.frames, hpd] at hframes hused
    simp only [updateCurrent, wp_bind, wp_modify, Process.frames, hpd]
    refine wp_mono (freeMapped_spec pd.entries hframes fun m hm => hused _ (mem_map_of_mem hm)) ?_
    rintro _ _ ⟨pool, memory, rfl, hreleases⟩
    exact ⟨rfl, current_updateProcess hfind (by simp), removeAt_updateAt fun _ => rfl, hreleases⟩

lemma Backed.exits (h : Backed k) (hfind : findAt Process.tid k.allList k.current = some process)
    (hexit : exitMemory k = .ok ((), t)) : Backed t := by
  have hexits : wp exitMemory (fun _ t => t.allList = removeAt Process.tid k.allList k.current ∧
      Releases k.userPool t.userPool process.frames) k := by
    rw [exitMemory, wp_bind]
    refine wp_mono (destroyPagedir_spec h hfind) ?_
    rintro _ u ⟨-, -, hleft, hreleases⟩
    exact ⟨hleft, hreleases⟩
  obtain ⟨hallList, hreleases⟩ := (wp_of_ok hexit).mp hexits
  have hperm := mapped_perm h.tids hfind
  have hmapped : t.mapped = (removeAt Process.tid k.allList k.current).flatMap Process.frames := by
    rw [Kernel.mapped, hallList]
  obtain ⟨-, hrest, hdisj⟩ := nodup_append.mp (hperm.nodup_iff.mp h.distinct)
  refine ⟨hallList ▸ nodup_removeAt h.tids _, hmapped ▸ hrest, fun frame hframe => ?_⟩
  rw [hmapped] at hframe
  have hother : frame ∉ process.frames := fun hmem => hdisj frame hmem frame hframe rfl
  have hold := h.used frame (hperm.mem_iff.mpr (mem_append_right _ hframe))
  simpa [Kernel.Used, hreleases.bitCnt, hreleases.get, hother] using hold

lemma Backed.setCurrent (h : Backed k) (tid : Nat) : Backed (k.setCurrent tid) :=
  h.of_perm rfl (List.Perm.refl _) rfl

lemma vmStep_backed {event : VmEvent} (h : Backed k) (hstep : vmStep k event = some t) :
    Backed t := by
  cases event with
  | create tid =>
    simp only [vmStep, frameStep] at hstep
    cases hnew : findAt Process.tid k.allList tid with
    | some process => simp [hnew] at hstep
    | none =>
      simp only [hnew, some.injEq] at hstep
      subst hstep
      have hmapped : (k.setAllList (k.allList ++ [.new tid])).mapped = k.mapped := by
        simp [Kernel.mapped, Process.frames, Process.new, PageTable.empty]
      refine ⟨?_, hmapped ▸ h.distinct, fun frame hframe => h.used frame (hmapped ▸ hframe)⟩
      simp only [Kernel.setAllList_allList, map_append, map_cons, map_nil]
      refine nodup_append.mpr ⟨h.tids, by simp, ?_⟩
      rintro other hother _ hlast rfl
      obtain ⟨process, hproc, hother⟩ := mem_map.mp hother
      rw [mem_singleton.mp hlast] at hother
      exact findAt_eq_none.mp hnew process hproc hother
  | provide tid zero page writable filled =>
    have hfill : ∀ (kpage : KernelPtr) (s : Kernel),
        outcome (pure filled) (fun _ t => SameMappings s t) (fun _ : Fault => True) s :=
      fun _ _ => ⟨rfl, rfl, rfl, rfl⟩
    obtain ⟨-, provided, ⟨-, frame, process, pd, ht⟩ | ⟨-, ht⟩⟩ :=
      asThread_outcome hstep (provideFrame_outcome ⟨false, zero, true⟩ page writable hfill)
    · exact (h.setCurrent tid).provides ht
    · exact (h.setCurrent tid).declines ht
  | access tid page write =>
    obtain ⟨_, -, _, hrun⟩ := asThread_eq_some hstep
    cases hrun
    refine h.of_perm (tids_updateProcess tid fun _ => rfl) (List.Perm.of_eq ?_) rfl
    simp only [Kernel.mapped, Kernel.updateProcess, Kernel.setAllList_allList, updateAt,
      List.flatMap_map]
    refine List.flatMap_congr fun process hproc => ?_
    split
    · exact frames_noteAccess process page fun _ => rfl
    · rfl
  | elsewhere fs memory =>
    simp only [vmStep, ite_none_right_eq_some, some.injEq] at hstep
    obtain ⟨-, rfl⟩ := hstep
    exact h.of_perm rfl (List.Perm.refl _) rfl
  | exit tid =>
    obtain ⟨process, hfind, _, hexit⟩ := asThread_eq_some hstep
    exact (h.setCurrent tid).exits hfind hexit

end Steps

/-! ## What `vm_get_frame` returns -/

/-- A null pointer, or a page of the user pool that is in the frame table for the current thread
and mapped nowhere. -/
def Fresh (frame : Option KernelPtr) (k : Kernel) : Prop :=
  match frame with
  | none => True
  | some (.entry _) => False
  | some (.page page) => page < k.userPool.bitCnt ∧
      (∃ entry ∈ k.frameTable, entry.framePtr = page ∧ entry.ownerThreadTid = k.current) ∧
      ∀ process ∈ k.allList, page ∉ process.frames

instance (frame : Option KernelPtr) (k : Kernel) : Decidable (Fresh frame k) := by
  unfold Fresh
  split <;> infer_instance

lemma Grants.fresh {t : Kernel} (h : Backed k) (ht : Grants k t page) :
    Fresh (some (.page page)) t := by
  obtain ⟨pagePtr, htab⟩ := ht.frameTable
  refine ⟨ht.marks.bitCnt ▸ ht.marks.lt, ⟨⟨k.fs.nextAddress, page, pagePtr, k.current⟩, ?_, rfl,
    ht.current.symm⟩, fun process hproc hmem => ?_⟩
  · rw [htab]
    exact mem_append_right _ (mem_singleton.mpr rfl)
  · rw [ht.allList] at hproc
    have := (h.used page (List.mem_flatMap.mpr ⟨process, hproc, hmem⟩)).2
    simp [ht.marks.old] at this

lemma Backed.vmGetFrame_iff (h : Backed k) (zero : Bool) : wp
    (vmGetFrame ⟨false, zero, true⟩) Fresh k ↔ k.HasFree ∧ k.fs.heapOk k.fs.allocations = true := by
  have huser : (PallocFlags.mk false zero true).user = true := rfl
  by_cases hfree : k.HasFree
  · obtain ⟨page, t, ht, hwp⟩ := vmGetFrame_free huser hfree
    rw [hwp]
    constructor
    · rintro ⟨hheap, -⟩
      exact ⟨hfree, hheap⟩
    · rintro ⟨-, hheap⟩
      exact ⟨hheap, ht.fresh h⟩
  constructor
  · intro hwp
    obtain ⟨frame, t, hrun, hfresh⟩ := wp_iff.mp hwp
    have hnone : ¬ ((PallocFlags.mk false zero true).user = true ∧ k.HasFree) :=
      fun hboth => hfree hboth.2
    have hfull := vmGetFrame_full hnone
    simp only [outcome, hrun] at hfull
    obtain ⟨addr, rfl⟩ := hfull
    exact hfresh.elim
  · rintro ⟨hyes, -⟩
    exact absurd hyes hfree

structure NoProcesses (k : Kernel) : Prop extends NoFrames k where
  tids : (k.allList.map Process.tid).Nodup
  unmapped : ∀ process ∈ k.allList, process.frames = []

lemma NoProcesses.backed (h : NoProcesses k) : Backed k := by
  have hmapped : k.mapped = [] := List.flatMap_eq_nil_iff.mpr h.unmapped
  exact ⟨h.tids, by simp [hmapped], by simp [hmapped]⟩

lemma twoPages_noProcesses : NoProcesses twoPages :=
  ⟨twoPages_noFrames, by simp [twoPages], by simp [twoPages]⟩

def providePages (n : Nat) : List VmEvent :=
  .create 3 :: (List.range n).map fun i => .provide 3 false (0x8048 + i) true true

/-- No frame is mapped twice. -/
theorem frames_backed_of_run {k t : Kernel} {events : List VmEvent} (h : NoProcesses k)
    (hrun : run vmStep k events = some t) : Backed t :=
  run_keeps (fun _ _ _ => vmStep_backed) h.backed hrun

theorem frames_backed_when_full :
    ∃ t ∈ run vmStep twoPages (providePages 2), t.mapped.length = 2 ∧ Backed t := by
  have h : run vmStep twoPages (providePages 2) = some _ := rfl
  exact ⟨_, h, rfl, frames_backed_of_run twoPages_noProcesses h⟩

end Pintos.Vm
