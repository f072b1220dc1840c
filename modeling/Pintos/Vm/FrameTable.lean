import Pintos.Vm.Frame

/-!
# The frame table and the user pool

Any number of processes call `vm_get_frame` and `vm_free_frame`, map frames,
are created and exit.  A frame goes back to the pool along two ways:
`vm_free_frame` takes it off the frame table, `pagedir_destroy` does not.
-/

namespace Pintos.Vm

open Foundation Filesys Userprog

/-- A process after `start_process` has set up its tables and `load` its page directory. -/
def Process.new (tid : Nat) : Process where
  tid := tid
  pagedir := some .empty
  supplPageTable _ := none
  mmfiles := none
  mapidAllocator := 0
  priority := 31
  nextFd := 2
  openFiles := []
  exec := none

/-- The steps of `thread_exit` that concern memory: `process_exit` destroys the page directory,
and the thread leaves `all_list`. -/
def exitMemory : KernelAction Unit := do
  destroyPagedir
  Action.modify fun k => k.setAllList (removeAt Process.tid k.allList k.current)

inductive FrameEvent where
  | create (tid : Nat)
  | getFrame (tid : Nat) (flags : PallocFlags)
  | freeFrame (tid : Nat) (frame : KernelPtr)
  | setPage (tid page : Nat) (frame : KernelPtr) (writable : Bool)
  | exit (tid : Nat)
  deriving DecidableEq, Repr

def asThread {α : Type} (tid : Nat) (x : KernelAction α) (k : Kernel) : Option Kernel :=
  match findAt Process.tid k.allList tid, x (k.setCurrent tid) with
  | some _, .ok (_, t) => some t
  | _, _ => none

def frameStep (k : Kernel) : FrameEvent → Option Kernel
  | .create tid =>
    match findAt Process.tid k.allList tid with
    | some _ => none
    | none => some (k.setAllList (k.allList ++ [.new tid]))
  | .getFrame tid flags => asThread tid (vmGetFrame flags) k
  | .freeFrame tid frame => asThread tid (vmFreeFrame frame) k
  | .setPage tid page frame writable => asThread tid (pagedirSetPage page frame writable) k
  | .exit tid => asThread tid exitMemory k

structure NoFrames (k : Kernel) : Prop where
  frameTable : k.frameTable = []
  unused : ∀ page, ¬ k.Used page

structure Mirrors (k : Kernel) : Prop where
  distinct : (k.frameTable.map FrameTableEntry.framePtr).Nodup
  used : ∀ page, page ∈ k.frameTable.map FrameTableEntry.framePtr ↔ k.Used page
  owners : ∀ entry ∈ k.frameTable, ∃ process ∈ k.allList, process.tid = entry.ownerThreadTid

def ExitsEmpty (k : Kernel) : FrameEvent → Prop
  | .exit tid => (∀ entry ∈ k.frameTable, entry.ownerThreadTid ≠ tid) ∧
      ∀ process ∈ k.allList, process.tid = tid → ∀ pd ∈ process.pagedir, pd.entries = []
  | _ => True

instance (k : Kernel) (event : FrameEvent) : Decidable (ExitsEmpty k event) := by
  unfold ExitsEmpty
  split <;> infer_instance

structure Allocated (k : Kernel) : Prop where
  nodup : (k.frameTable.map FrameTableEntry.addr).Nodup
  below : ∀ entry ∈ k.frameTable, entry.addr < k.fs.nextAddress

structure Kept (k : Kernel) : Prop extends Mirrors k, Allocated k

section Steps

variable {k t : Kernel} {tid : Nat}

lemma asThread_eq_some {α : Type} {x : KernelAction α} (h : asThread tid x k = some t) :
    ∃ process, findAt Process.tid k.allList tid = some process ∧
      ∃ a, x (k.setCurrent tid) = .ok (a, t) := by
  unfold asThread at h
  cases hlive : findAt Process.tid k.allList tid with
  | none => simp [hlive] at h
  | some process =>
    cases hrun : x (k.setCurrent tid) with
    | error e => simp [hlive, hrun] at h
    | ok r =>
      simp only [hlive, hrun, some.injEq] at h
      subst h
      exact ⟨process, rfl, r.1, rfl⟩

lemma asThread_outcome {α : Type} {x : KernelAction α} {Q : α → Kernel → Prop}
    (h : asThread tid x k = some t) (hx : outcome x Q (fun _ => True) (k.setCurrent tid)) :
    (∃ process ∈ k.allList, process.tid = tid) ∧ ∃ a, Q a t := by
  obtain ⟨process, hfind, a, hrun⟩ := asThread_eq_some h
  refine ⟨⟨process, mem_of_find?_eq_some hfind, by simpa using find?_some hfind⟩, a, ?_⟩
  simpa [outcome, hrun] using hx

lemma owners_of_tids {entries : List FrameTableEntry}
    (htids : t.allList.map Process.tid = k.allList.map Process.tid)
    (h : ∀ entry ∈ entries, ∃ process ∈ k.allList, process.tid = entry.ownerThreadTid) :
    ∀ entry ∈ entries, ∃ process ∈ t.allList, process.tid = entry.ownerThreadTid := by
  intro entry hentry
  have hmem : entry.ownerThreadTid ∈ t.allList.map Process.tid := by
    rw [htids]
    exact mem_map.mpr (h entry hentry)
  exact mem_map.mp hmem

lemma Kept.of_eq (h : Kept k) (htab : t.frameTable = k.frameTable)
    (hpool : t.userPool = k.userPool) (haddr : t.fs.nextAddress = k.fs.nextAddress)
    (htids : t.allList.map Process.tid = k.allList.map Process.tid) : Kept t := by
  refine ⟨⟨?_, fun page => ?_, ?_⟩, ?_, ?_⟩
  · rw [htab]
    exact h.distinct
  · rw [htab, h.used, Kernel.Used, Kernel.Used, hpool]
  · rw [htab]
    exact owners_of_tids htids h.owners
  · rw [htab]
    exact h.nodup
  · rw [htab, haddr]
    exact h.below

lemma Kept.grants (h : Kept k) {page : Nat}
    (hlive : ∃ process ∈ k.allList, process.tid = k.current) (ht : Grants k t page) : Kept t := by
  obtain ⟨pagePtr, htab⟩ := ht.frameTable
  have hnew : page ∉ k.frameTable.map FrameTableEntry.framePtr := by
    intro hmem
    have := ((h.used page).mp hmem).2
    have hold : k.userPool.get page = false := ht.marks.old
    simp [hold] at this
  refine ⟨⟨?_, fun other => ?_, ?_⟩, ?_, ?_⟩
  · rw [htab, map_append, nodup_append]
    refine ⟨h.distinct, by simp, ?_⟩
    rintro other hother _ hlast rfl
    simp only [map_cons, map_nil, mem_singleton] at hlast
    exact hnew (hlast ▸ hother)
  · rw [htab, map_append, mem_append, h.used, Kernel.Used, Kernel.Used,
      ht.marks.bitCnt, ht.marks.get]
    have hlt : page < k.userPool.bitCnt := ht.marks.lt
    by_cases hother : other = page
    · simp [hother, hlt]
    · simp [hother]
  · rw [htab, ht.allList]
    intro entry hentry
    rcases mem_append.mp hentry with hold | hlast
    · exact h.owners entry hold
    rw [mem_singleton.mp hlast]
    exact hlive
  · rw [htab, map_append, nodup_append]
    refine ⟨h.nodup, by simp, ?_⟩
    rintro addr haddr _ hlast rfl
    obtain ⟨entry, hentry, rfl⟩ := mem_map.mp haddr
    have := h.below entry hentry
    simp only [map_cons, map_nil, mem_singleton] at hlast
    omega
  · rw [htab, ht.fs]
    intro entry hentry
    simp only [Fs.bump_nextAddress, Fs.spend_nextAddress]
    rcases mem_append.mp hentry with hold | hlast
    · have := h.below entry hold
      omega
    · rw [mem_singleton.mp hlast]
      exact Nat.lt_succ_self _

lemma Kept.evicts (h : Kept k) {entry : FrameTableEntry}
    (hlive : ∃ process ∈ k.allList, process.tid = k.current) (ht : Evicts k t entry) : Kept t := by
  have hframes : (t.frameTable.map FrameTableEntry.framePtr).Perm
      (k.frameTable.map FrameTableEntry.framePtr) := by
    refine (ht.frameTable.map _).trans (List.Perm.of_eq ?_)
    exact map_updateAt FrameTableEntry.framePtr fun _ => rfl
  have haddrs : (t.frameTable.map FrameTableEntry.addr).Perm
      (k.frameTable.map FrameTableEntry.addr) := by
    refine (ht.frameTable.map _).trans (List.Perm.of_eq ?_)
    exact map_updateAt FrameTableEntry.addr fun _ => rfl
  refine ⟨⟨hframes.nodup_iff.mpr h.distinct, fun page => ?_, ?_⟩, haddrs.nodup_iff.mpr h.nodup, ?_⟩
  · rw [hframes.mem_iff, h.used, Kernel.Used, Kernel.Used, ht.userPool]
  · refine owners_of_tids ht.tids fun other hother => ?_
    exact forall_mem_updateAt h.owners (fun _ _ _ => hlive) other (ht.frameTable.mem_iff.mp hother)
  · intro other hother
    rw [ht.fs]
    have hmem := haddrs.mem_iff.mp (mem_map_of_mem hother)
    obtain ⟨old, hold, haddr⟩ := mem_map.mp hmem
    exact haddr ▸ h.below old hold

lemma removeFrame_page (entries : List FrameTableEntry) (page : Nat) :
    (removeFrame (.page page) entries).map FrameTableEntry.framePtr =
      (entries.map FrameTableEntry.framePtr).erase page := by
  induction entries with
  | nil => rfl
  | cons entry rest ih =>
    by_cases hentry : entry.framePtr = page
    · simp [removeFrame, hentry]
    · simpa [removeFrame, hentry] using ih

lemma Kept.frees (h : Kept k) {frame : KernelPtr}
    (hfree : vmFreeFrame frame k = .ok ((), t)) : Kept t := by
  have hrest : pallocFreePage frame (k.setFrameTable (removeFrame frame k.frameTable)) =
      .ok ((), t) := hfree
  obtain ⟨page, rfl, hused⟩ := used_of_pallocFreePage hrest
  obtain ⟨pool, contents, hmarks, hpalloc⟩ := pallocFreePage_used hused
  rw [hpalloc] at hrest
  cases hrest
  have hsub : (removeFrame (.page page) k.frameTable).Sublist k.frameTable := List.eraseP_sublist
  refine ⟨⟨?_, fun other => ?_, fun entry hentry => h.owners entry (hsub.mem hentry)⟩,
    h.nodup.sublist (hsub.map _), fun entry hentry => h.below entry (hsub.mem hentry)⟩
  · exact h.distinct.sublist (hsub.map _)
  simp only [Kernel.setPool_frameTable, Kernel.setPage_frameTable, Kernel.setFrameTable_frameTable]
  rw [removeFrame_page, h.distinct.mem_erase_iff, h.used, Kernel.Used, Kernel.Used]
  simp only [Kernel.setPool_userPool]
  rw [hmarks.bitCnt, hmarks.get]
  by_cases hother : other = page
  · simp [hother]
  · simp [hother]

lemma Kept.exits (h : Kept k) (hempty : ExitsEmpty k (.exit k.current))
    (hexit : exitMemory k = .ok ((), t)) : Kept t := by
  obtain ⟨hunowned, hunmapped⟩ := hempty
  have hleave : ∀ s : Kernel, Kept s → s.frameTable = k.frameTable → s.current = k.current →
      Kept (s.setAllList (removeAt Process.tid s.allList s.current)) := by
    intro s hs htab hcur
    refine ⟨⟨hs.distinct, hs.used, fun entry hentry => ?_⟩, hs.nodup, hs.below⟩
    obtain ⟨process, hproc, howner⟩ := hs.owners entry hentry
    refine ⟨process, mem_removeAt.mpr ⟨hproc, ?_⟩, howner⟩
    rw [howner, hcur]
    exact hunowned entry (htab ▸ hentry)
  have hwp : wp exitMemory (fun _ u => u = t) k := wp_iff.mpr ⟨_, _, hexit, rfl⟩
  simp only [exitMemory, destroyPagedir, threadCurrent, wp_bind, wp_get] at hwp
  cases hproc : findAt Process.tid k.allList k.current with
  | none => simp [hproc] at hwp
  | some process =>
    have hmem : process ∈ k.allList := mem_of_find?_eq_some hproc
    have htid : process.tid = k.current := by simpa using find?_some hproc
    simp only [hproc, wp_pure] at hwp
    cases hpd : process.pagedir with
    | none =>
      simp only [hpd, wp_pure, wp_modify] at hwp
      exact hwp ▸ hleave k h rfl rfl
    | some pd =>
      have hnil : pd.entries = [] := hunmapped process hmem htid pd (by simp [hpd])
      simp only [hpd, hnil, freeMapped, updateCurrent, wp_bind, wp_pure, wp_modify] at hwp
      exact hwp ▸ hleave _ (h.of_eq rfl rfl rfl (tids_updateProcess _ fun _ => rfl)) rfl rfl

lemma Kept.setCurrent (h : Kept k) (tid : Nat) : Kept (k.setCurrent tid) := h.of_eq rfl rfl rfl rfl

lemma frameStep_kept {event : FrameEvent} (h : Kept k) (hempty : ExitsEmpty k event)
    (hstep : frameStep k event = some t) : Kept t := by
  cases event with
  | create tid =>
    simp only [frameStep] at hstep
    cases hnew : findAt Process.tid k.allList tid with
    | some process => simp [hnew] at hstep
    | none =>
      simp only [hnew, some.injEq] at hstep
      subst hstep
      refine ⟨⟨h.distinct, h.used, fun entry hentry => ?_⟩, h.nodup, h.below⟩
      obtain ⟨process, hproc, howner⟩ := h.owners entry hentry
      exact ⟨process, mem_append_left _ hproc, howner⟩
  | getFrame tid flags =>
    obtain ⟨hlive, frame, ⟨page, -, ht⟩ | ⟨entry, -, ht⟩⟩ :=
      asThread_outcome hstep (vmGetFrame_outcome flags h.nodup)
    · exact (h.setCurrent tid).grants hlive ht
    · exact (h.setCurrent tid).evicts hlive ht
  | freeFrame tid frame =>
    obtain ⟨_, -, _, hfree⟩ := asThread_eq_some hstep
    exact (h.setCurrent tid).frees hfree
  | setPage tid page frame writable =>
    obtain ⟨-, set, ⟨-, fs, hfs, rfl⟩ | ⟨-, frame, process, pd, -, ht⟩⟩ :=
      asThread_outcome hstep (pagedirSetPage_outcome page frame writable)
    · exact h.of_eq rfl rfl (by rcases hfs with rfl | rfl <;> rfl) rfl
    obtain ⟨fs, hfs, rfl⟩ := ht.result
    refine h.of_eq (by rfl) (by rfl) (by rcases hfs with rfl | rfl <;> rfl) ?_
    exact tids_updateProcess tid fun _ => rfl
  | exit tid =>
    obtain ⟨_, -, _, hexit⟩ := asThread_eq_some hstep
    exact (h.setCurrent tid).exits hempty hexit

end Steps

lemma NoFrames.kept {k : Kernel} (h : NoFrames k) : Kept k := by
  refine ⟨⟨?_, fun page => ?_, ?_⟩, ?_, ?_⟩ <;> simp [h.frameTable, h.unused]

theorem mirrors_of_run {k : Kernel} {events : List FrameEvent} (h : NoFrames k)
    (hempty : Meets frameStep ExitsEmpty k events) : ∀ t ∈ run frameStep k events, Mirrors t := by
  intro t hrun
  have hkept : Kept t :=
    run_invariant (fun _ _ _ h hok hstep => frameStep_kept h hok hstep) h.kept hempty hrun
  exact hkept.toMirrors

/-! ## Two processes -/

def twoPages : Kernel where
  fs := .unstarted 0 (fun _ => 0) (fun _ => true) fun _ _ => 0
  userPool := ⟨2, [0#32], rfl, by decide⟩
  memory _ _ := 0
  frameTable := []
  swap := ⟨0, fun _ => 0, ⟨0, [], noBits_length, noBits_le⟩⟩
  kernelAccessed _ := false
  allList := []
  current := 0

lemma twoPages_noFrames : NoFrames twoPages := by
  refine ⟨rfl, ?_⟩
  rintro page ⟨hlt, hused⟩
  have : page = 0 ∨ page = 1 := by
    change page < 2 at hlt
    omega
  rcases this with rfl | rfl <;> revert hused <;> decide

def palUser : PallocFlags := ⟨false, false, true⟩

def getAndFree : List FrameEvent :=
  [.create 3, .getFrame 3 palUser, .freeFrame 3 (.page 0), .exit 3, .create 4, .getFrame 4 palUser]

theorem mirrors_getAndFree : NoFrames twoPages ∧ Meets frameStep ExitsEmpty twoPages getAndFree ∧
      ∀ t ∈ run frameStep twoPages getAndFree, Mirrors t :=
  have hempty : Meets frameStep ExitsEmpty twoPages getAndFree := by decide +kernel
  ⟨twoPages_noFrames, hempty, mirrors_of_run twoPages_noFrames hempty⟩

def mapAndExit : List FrameEvent :=
  [.create 3, .getFrame 3 palUser, .setPage 3 0x8048 (.page 0) true, .exit 3, .create 4,
    .getFrame 4 palUser]

theorem exit_leaves_entry : ∃ t ∈ run frameStep twoPages mapAndExit, ¬ Mirrors t ∧
      t.frameTable.map FrameTableEntry.framePtr = [0, 0] ∧
      t.frameTable.map FrameTableEntry.ownerThreadTid = [3, 4] ∧
      t.allList.map Process.tid = [4] := by
  have hrun : ∃ t ∈ run frameStep twoPages mapAndExit,
      t.frameTable.map FrameTableEntry.framePtr = [0, 0] ∧
      t.frameTable.map FrameTableEntry.ownerThreadTid = [3, 4] ∧
      t.allList.map Process.tid = [4] := by decide +kernel
  obtain ⟨t, ht, hframes, howners, htids⟩ := hrun
  refine ⟨t, ht, fun hmirrors => ?_, hframes, howners, htids⟩
  have := hmirrors.distinct
  simp [hframes] at this

end Pintos.Vm
