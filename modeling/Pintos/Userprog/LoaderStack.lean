import Pintos.Userprog.Arguments
import Pintos.Userprog.LoaderImage
import Pintos.Vm.FrameTable

/-!
# The first stack of a process

`setup_stack` with its loops, in the address space that `load` has built.  The
stores through `*esp` go wherever the page directory sends them; nothing in
`setup_stack` compares the size of the argument block with that of the page.
-/

namespace Pintos.Userprog.Loader

open Foundation Filesys Vm

def storeAll : List (Nat × Byte) → KernelAction Unit
  | [] => return ()
  | (address, byte) :: rest => do
    storeByte address byte
    storeAll rest

/-- `setup_stack`.  `heap` and `argv` are what the allocated blocks held before. -/
def setupStackLoops (heap : Nat → Memory) (argv : Nat → Nat) (cmdline : CommandLine) :
    KernelAction (Option Nat) := do
  copyString
  match ← vmGetFrame ⟨false, true, true⟩ with
  | none => return none
  | some kpage => do
    if ← installPage stackPage kpage true then do
      copyString
      let allocated ← onFs malloc
      require (allocated = true) .wildAccess
      match pushArguments heap argv cmdline.toCString with
      | none => stop .misuse
      | some pushes => do
        storeAll pushes.stores
        return some pushes.pointer
    else do
      vmFreeFrame kpage
      return none

/-! ## The stores of the argument block -/

lemma storeBytes_eq (address : Nat) (bytes : List Byte) :
    storeBytes address bytes = storeAll (placed address bytes) := by
  induction bytes generalizing address with
  | nil => rfl
  | cons byte bytes ih => rw [storeBytes, ih, placed, storeAll]

lemma storeAll_append (stores more : List (Nat × Byte)) :
    storeAll (stores ++ more) = storeAll stores >>= fun _ => storeAll more := by
  induction stores with
  | nil => rfl
  | cons store stores ih => rw [cons_append, storeAll, ih, storeAll, Action.bind_assoc]

lemma pushAll_eq (blocks : List (List Byte)) (esp : Nat) : pushAll esp blocks = (do
      storeAll ((⟨esp, []⟩ : Pushes).pushAll blocks).stores
      return ((⟨esp, []⟩ : Pushes).pushAll blocks).pointer) := by
  induction blocks generalizing esp with
  | nil => rfl
  | cons block blocks ih =>
    have hstores : ((⟨esp, []⟩ : Pushes).pushAll (block :: blocks)).stores = placed
        (esp - block.length) block ++ ((⟨esp - block.length, []⟩ : Pushes).pushAll blocks).stores :=
      Pushes.pushAll_stores ((⟨esp, []⟩ : Pushes).push block) blocks
    have hpointer : ((⟨esp, []⟩ : Pushes).pushAll (block :: blocks)).pointer =
        ((⟨esp - block.length, []⟩ : Pushes).pushAll blocks).pointer := by
      rw [Pushes.pushAll_cons, Pushes.pushAll_pointer, Pushes.pushAll_pointer]
      rfl
    rw [pushAll, ih, storeBytes_eq, hstores, hpointer, storeAll_append, Action.bind_assoc]

lemma setupStackLoops_eq (heap : Nat → Memory) (argv : Nat → Nat) (cmdline : CommandLine) :
    setupStackLoops heap argv cmdline = setupStack cmdline := by
  unfold setupStackLoops setupStack
  simp only [pushArguments_eq, pushAll_eq, Action.bind_assoc]
  rfl

lemma argumentSize_le (cmdline : CommandLine) : argumentSize cmdline.tokens ≤ physBase := by
  have hstrings : stringsSize cmdline.tokens ≤ cmdline.strlen + 1 := cmdline.tokens_size
  have hcnt : cmdline.tokens.length ≤ stringsSize cmdline.tokens := by
    rw [← strings_size, length_flatten]
    refine List.length_le_sum_of_one_le _ ?_ |>.trans' (by simp)
    intro size hsize
    simp only [map_map, mem_map, Function.comp_apply, length_append, length_singleton] at hsize
    obtain ⟨token, -, rfl⟩ := hsize
    omega
  have hpadding : paddingSize cmdline.tokens < 4 := Nat.mod_lt _ (by norm_num)
  have hfits := cmdline.fits
  simp only [argumentSize, physBase]
  simp only [pgSize] at hfits
  simp only [CString.strlen] at hstrings
  omega

def Inside (address : Nat) : Prop := stackPage ≤ address ∧ address < physBase

/-- Every store of `setup_stack` is to the stack page exactly if the argument block fits it. -/
theorem setupStack_inside_iff (heap : Nat → Memory) (argv : Nat → Nat) (cmdline : CommandLine) :
    (∃ pushes, pushArguments heap argv cmdline.toCString = some pushes ∧
        ∀ store ∈ pushes.stores, Inside store.1) ↔ argumentSize cmdline.tokens ≤ pgSize := by
  have hroom := argumentSize_le cmdline
  have hmem : ∀ i, (∃ byte, (i, byte) ∈
      ((⟨physBase, []⟩ : Pushes).pushAll (argumentBlocks cmdline.tokens)).stores) ↔
        physBase - argumentSize cmdline.tokens ≤ i ∧ i < physBase := by
    intro i
    rw [Pushes.mem_pushAll (by rw [argumentBlocks_size]; exact hroom), argumentBlocks_size]
    simp
  have hpos : 12 ≤ argumentSize cmdline.tokens := by
    simp only [argumentSize]
    omega
  simp only [pushArguments_eq, some.injEq, exists_eq_left', Inside, stackPage]
  simp only [physBase, pgSize] at hroom hmem ⊢
  constructor
  · intro hall
    -- the return address is stored to the lowest bytes
    obtain ⟨byte, hbyte⟩ := (hmem (0xC0000000 - argumentSize cmdline.tokens)).mpr (by omega)
    have := (hall _ hbyte).1
    omega
  · intro hfits store hstore
    have := (hmem store.1).mp ⟨store.2, hstore⟩
    omega

def longArgument : CommandLine where
  bytes := 112 :: 32 :: replicate 4078 97
  nonzero := by
    intro b hb
    simp only [mem_cons, List.mem_replicate] at hb
    rcases hb with rfl | rfl | ⟨-, rfl⟩ <;> decide
  fits := by
    simp only [length_cons, length_replicate, pgSize]
    omega

lemma runs_two {word : List Byte} (hne : word ≠ []) (hspace : 32 ∉ word) :
    CString.runs (112 :: 32 :: word) = [[112], word] := by
  rw [CString.runs_eq]
  have hcons : CString.pieces [32] ([112] ++ 32 :: word) = [112] :: CString.pieces [32] word :=
    CString.pieces_cons (by simp) (by simp) (by simp)
  refine hcons.trans (congrArg _ (CString.pieces_word hne fun b hb => ?_))
  rw [mem_singleton]
  rintro rfl
  exact hspace hb

lemma longArgument_tokens : longArgument.tokens.map (·.bytes) = [[112], replicate 4078 97] := by
  rw [CString.tokens_eq_runs]
  apply runs_two
  · exact List.replicate_succ_ne_nil
  rw [List.mem_replicate]
  exact fun h => absurd h.2 (by decide)

lemma longArgument_length : longArgument.tokens.length = 2 := by
  rw [← length_map, longArgument_tokens]
  rfl

lemma longArgument_size : argumentSize longArgument.tokens = 4108 := by
  have hstrings : stringsSize longArgument.tokens = 4081 := by
    have hmap : stringsSize longArgument.tokens =
        ((longArgument.tokens.map (·.bytes)).map fun bytes => bytes.length + 1).sum := by
      rw [stringsSize, map_map]
      rfl
    rw [hmap, longArgument_tokens, map_cons, map_cons, length_replicate]
    rfl
  simp only [argumentSize, paddingSize, hstrings, longArgument_length, physBase]

/-- The block of this command line has 4108 bytes. -/
theorem setupStack_longArgument :
    ¬ (∃ pushes, pushArguments (fun _ _ => 0) (fun _ => 0) longArgument.toCString = some pushes ∧
        ∀ store ∈ pushes.stores, Inside store.1) ∧
      physBase - argumentSize longArgument.tokens = 0xBFFFEFF4 := by
  refine ⟨?_, by rw [longArgument_size]; rfl⟩
  rw [setupStack_inside_iff, longArgument_size]
  decide

/-! ## Stores in an address space -/

section

variable {k : Kernel} {pd : PageTable}

def Writable (pd : PageTable) (address : Nat) : Prop := pageAccess pd (pgNo address) = some true

lemma eq_of_page_eq {a b : Nat} (hpage : pgNo a = pgNo b) (hofs : pgOfs a = pgOfs b) : a = b := by
  simp only [pgNo, pgOfs, pgSize] at hpage hofs
  omega

lemma storeByte_spec (h : Space k pd) {address : Nat} (hwritable : Writable pd address)
    (byte : Byte) : wp (storeByte address byte) (fun _ t => Space t pd ∧ t.fs = k.fs ∧
      userByte t pd = update (userByte k pd) address (some byte)) k := by
  obtain ⟨process, hproc, hpd⟩ := h.current
  obtain ⟨mapping, hmapping, haccess⟩ := Option.map_eq_some_iff.mp hwritable
  simp only [storeByte, threadCurrent, wp_bind, wp_get, hproc, wp_pure, hpd,
    Option.bind_some, hmapping, wp_require, haccess, wp_modify, true_and]
  refine ⟨h.congr rfl rfl rfl, rfl, ?_⟩
  funext a
  by_cases ha : a = address
  · rw [ha, update_self, userByte, hmapping]
    simp
  rw [update_of_ne ha, userByte, userByte]
  cases hlook : pd.lookup (pgNo a) with
  | none => rfl
  | some other =>
    simp only [Option.map_some, Kernel.setPage_memory, some.injEq]
    by_cases hframe : other.frame = mapping.frame
    · -- the same frame is the same page, at another offset
      have hsame : other = mapping :=
        List.inj_on_of_nodup_map h.frames (lookup_mem hlook).1 (lookup_mem hmapping).1 hframe
      have hpage : pgNo a = pgNo address := by
        rw [← (lookup_mem hlook).2, hsame, (lookup_mem hmapping).2]
      rw [hframe, update_self, update_of_ne]
      exact fun hofs => ha (eq_of_page_eq hpage hofs)
    · rw [update_of_ne hframe]

lemma storeAll_spec (stores : List (Nat × Byte)) {k : Kernel}
    (h : Space k pd) (hwritable : ∀ store ∈ stores, Writable pd store.1) : wp (storeAll stores)
    (fun _ t => Space t pd ∧ t.fs = k.fs ∧ userByte t pd = applied (userByte k pd) stores) k := by
  induction stores generalizing k with
  | nil => exact ⟨h, rfl, rfl⟩
  | cons store stores ih =>
    rw [forall_mem_cons] at hwritable
    rw [storeAll, wp_bind]
    refine wp_mono (storeByte_spec h hwritable.1 store.2) ?_
    rintro _ u ⟨hspace, hfs, hbyte⟩
    refine wp_mono (ih hspace hwritable.2) ?_
    rintro _ t ⟨hspace', hfs', hbytes⟩
    exact ⟨hspace', hfs'.trans hfs, by rw [hbytes, hbyte]; rfl⟩

lemma storeByte_writable (h : Space k pd) {address : Nat} (byte : Byte) :
    outcome (storeByte address byte) (fun _ _ => Writable pd address) (fun _ => True) k := by
  obtain ⟨process, hproc, hpd⟩ := h.current
  simp only [storeByte, threadCurrent, outcome_bind, outcome_get, hproc,
    outcome_pure, hpd, Option.bind_some]
  cases hlook : pd.lookup (pgNo address) with
  | none => trivial
  | some mapping =>
    simp only [outcome_bind]
    refine outcome_require (fun hwritable => ?_) fun _ => trivial
    simp only [outcome_modify, Writable, pageAccess, hlook, Option.map_some, hwritable]

/-! ## `setup_stack` -/

/-- A stack page has been added, and the argument block is stored as far as the page directory
says. -/
structure StackBuilt (k t : Kernel) (pd pd' : PageTable) (cmdline : CommandLine) (esp : Nat) :
    Prop where
  space : Space t pd'
  fresh : pageAccess pd (pgNo stackPage) = none
  access : ∀ page, pageAccess pd' page =
    if page = pgNo stackPage then some true else pageAccess pd page
  pointer : esp = physBase - argumentSize cmdline.tokens
  writable : ∀ address, esp ≤ address → address < physBase → Writable pd' address
  reads : Reads (userByte t pd') esp (argumentBlocks cmdline.tokens).reverse.flatten
  others : ∀ address, pgNo address ≠ pgNo stackPage → address < esp ∨ physBase ≤ address →
    userByte t pd' address = userByte k pd address

lemma storeAll_outcome (stores : List (Nat × Byte)) {k : Kernel} (h : Space k pd) :
    outcome (storeAll stores) (fun _ t => Space t pd ∧ (∀ store ∈ stores, Writable pd store.1) ∧
      userByte t pd = applied (userByte k pd) stores) (fun _ => True) k := by
  induction stores generalizing k with
  | nil => exact ⟨h, by simp, rfl⟩
  | cons store stores ih =>
    rw [storeAll, outcome_bind]
    refine outcome_mono (Q := fun _ u => Writable pd store.1 ∧ Space u pd ∧
      userByte u pd = update (userByte k pd) store.1 (some store.2)) ?_ ?_ fun _ => id
    · by_cases hwritable : Writable pd store.1
      · exact outcome_mono (outcome_of_wp (storeByte_spec h hwritable store.2))
          (fun _ _ hu => ⟨hwritable, hu.1, hu.2.2⟩) fun _ => id
      · exact outcome_mono (storeByte_writable h store.2)
          (fun _ _ hw => absurd hw hwritable) fun _ => id
    · rintro _ u ⟨hwritable, hspace, hbyte⟩
      refine outcome_mono (ih hspace) ?_ fun _ => id
      rintro _ t ⟨hspace', hrest, hbytes⟩
      exact ⟨hspace', forall_mem_cons.mpr ⟨hwritable, hrest⟩, by rw [hbytes, hbyte]; rfl⟩

lemma pushAll_outcome (h : Space k pd) (cmdline : CommandLine) :
    outcome (pushAll physBase (argumentBlocks cmdline.tokens)) (fun esp t => Space t pd ∧
      esp = physBase - argumentSize cmdline.tokens ∧
      (∀ address, esp ≤ address → address < physBase → Writable pd address) ∧
      Reads (userByte t pd) esp (argumentBlocks cmdline.tokens).reverse.flatten ∧
      ∀ address, address < esp ∨ physBase ≤ address →
        userByte t pd address = userByte k pd address) (fun _ => True) k := by
  have hroom : (argumentBlocks cmdline.tokens).flatten.length ≤
      (⟨physBase, []⟩ : Pushes).pointer := by
    rw [argumentBlocks_size]
    exact argumentSize_le cmdline
  rw [pushAll_eq, outcome_bind]
  refine outcome_mono (storeAll_outcome _ h) ?_ fun _ => id
  rintro _ t ⟨hspace, hwritable, hbytes⟩
  obtain ⟨hreads, hothers⟩ := Pushes.reads_pushAll (userByte k pd) _ hroom
  rw [argumentBlocks_size] at hreads hothers
  rw [outcome_pure, Pushes.pushAll_pointer, argumentBlocks_size, hbytes]
  refine ⟨hspace, rfl, fun address hlow hhigh => ?_, hreads, hothers⟩
  obtain ⟨byte, hbyte⟩ := (Pushes.mem_pushAll hroom).mpr (.inr (by
    rw [argumentBlocks_size]
    exact ⟨hlow, hhigh⟩))
  exact hwritable _ hbyte

lemma copyString_outcome (k : Kernel) : outcome copyString
    (fun _ t => t = k.setFs (k.fs.spend 1)) (fun _ => True) k := by
  simp only [copyString, onFs, outcome_bind, outcome_zoom, outcome_malloc]
  exact outcome_require (fun _ => rfl) fun _ => trivial

lemma installPage_entry (upage addr : Nat) (writable : Bool) (k : Kernel) :
    outcome (installPage upage (.entry addr) writable) (fun installed _ => installed = false)
      (fun _ => True) k := by
  rw [installPage, outcome_bind]
  refine outcome_mono (pagedirGetPage_outcome upage) ?_ fun _ => id
  rintro pte _ rfl
  cases pte with
  | some pte => rfl
  | none => trivial

lemma Space.installed (h : Space k pd) {s t : Kernel} {frame upage : Nat} {contents : Memory}
    {fs fs' : Fs} (hgrants : Grants (k.setFs fs) s frame)
    (hmem : s.memory = update k.memory frame contents)
    (ht : t = (s.setFs fs').updateProcess s.current
      (·.setPagedir (some (pd.add (pgNo upage) frame true))))
    (hfresh : pd.lookup (pgNo upage) = none) : Space t (pd.add (pgNo upage) frame true) ∧
      Adds (· = pgNo upage) k t pd (pd.add (pgNo upage) frame true) ∧
      pageAccess (pd.add (pgNo upage) frame true) (pgNo upage) = some true := by
  obtain ⟨hspace, hadds, haccess, -⟩ := h.add (t := t) (by rw [ht]; exact hgrants.marks)
    (by rw [ht]; exact hmem) (by rw [ht]; exact hgrants.current) (by
      rw [ht, Kernel.updateProcess, Kernel.setAllList_allList, Kernel.setFs_allList,
        hgrants.allList, hgrants.current]
      rfl) hfresh
  exact ⟨hspace, hadds, haccess⟩

lemma setupStack_outcome (h : Space k pd) (cmdline : CommandLine) :
    outcome (setupStack cmdline) (fun r t => ∀ esp, r = some esp →
      ∃ pd', StackBuilt k t pd pd' cmdline esp) (fun _ => True) k := by
  rw [setupStack, outcome_bind]
  refine outcome_mono (copyString_outcome k) ?_ fun _ => id
  rintro _ _ rfl
  rw [outcome_bind]
  refine outcome_mono (Action.outcome_and (vmGetFrame_frame _) (vmGetFrame_memory _)) ?_
    fun _ _ => trivial
  -- without a page nothing is stored
  have hfails : ∀ (kpage : KernelPtr) (t : Kernel),
      outcome (do vmFreeFrame kpage; return (none : Option Nat)) (fun r t => ∀ esp,
        r = some esp → ∃ pd', StackBuilt k t pd pd' cmdline esp) (fun _ => True) t := by
    intro kpage t
    simp only [outcome_bind, outcome_pure]
    refine outcome_mono (outcome_of_stops _ _ trivial) ?_ fun _ => id
    rintro _ _ _ _ ⟨⟩
  rintro _ s ⟨⟨frame, rfl, hgrants⟩ | ⟨addr, rfl⟩, hmem⟩
  · obtain ⟨contents, hmem, -⟩ := hmem frame rfl
    have hgranted : Space s pd := h.grant hgrants.marks hgrants.allList hgrants.current
    simp only [outcome_bind]
    refine outcome_mono (installPage_outcome hgranted stackPage frame true) ?_ fun _ => id
    intro installed t ht
    cases installed with
    | false => exact hfails _ t
    | true =>
      obtain ⟨hfresh, fs', -, ht⟩ := ht rfl
      obtain ⟨hspace, hadds, haccess⟩ := h.installed hgrants hmem ht hfresh
      simp only [if_true, outcome_bind]
      refine outcome_mono (copyString_outcome t) ?_ fun _ => id
      rintro _ _ rfl
      simp only [onFs, outcome_zoom, outcome_malloc]
      refine outcome_require (fun _ => ?_) fun _ => trivial
      generalize hv : (t.setFs (t.fs.spend 1)).setFs ((t.setFs (t.fs.spend 1)).fs.spend 1) = v
      have hspace' : Space v (pd.add (pgNo stackPage) frame true) := by
        rw [← hv]
        exact hspace.congr rfl rfl rfl
      have hsame : ∀ address, userByte v (pd.add (pgNo stackPage) frame true) address =
          userByte t (pd.add (pgNo stackPage) frame true) address := by
        rw [← hv]
        exact fun _ => rfl
      refine outcome_mono (pushAll_outcome hspace' cmdline) ?_ fun _ => id
      rintro esp u ⟨hspace', rfl, hwritable, hreads, hothers⟩
      simp only [outcome_pure, some.injEq]
      rintro _ rfl
      refine ⟨_, hspace', hadds.fresh _ rfl, fun page => ?_, rfl, hwritable, hreads,
        fun address hpage haddr => ?_⟩
      · by_cases hpage : page = pgNo stackPage
        · rw [if_pos hpage, hpage, haccess]
        · rw [if_neg hpage, hadds.access page hpage]
      · rw [hothers address haddr, hsame]
        exact hadds.bytes address hpage
  · simp only [outcome_bind]
    refine outcome_mono (installPage_entry stackPage addr true s) ?_ fun _ => id
    rintro _ t rfl
    exact hfails _ t

/-- Memory for everything that `setup_stack` allocates, and no page where the stack is to be. -/
structure Resources (k : Kernel) (pd : PageTable) : Prop where
  heap : ∀ n, k.fs.heapOk n = true
  frame : k.HasFree
  fresh : pageAccess pd (pgNo stackPage) = none

lemma installPage_wp (h : Space k pd) (hheap : k.fs.heapOk k.fs.allocations = true)
    (hfresh : pageAccess pd (pgNo stackPage) = none) (frame : Nat) :
    wp (installPage stackPage (.page frame) true)
      (fun installed t => installed = true ∧ ∃ n ≤ 1, t.fs = k.fs.spend n) k := by
  obtain ⟨process, hproc, hpd⟩ := h.current
  have huser : stackPage < physBase := by decide
  have hnone : pd.lookup (pgNo stackPage) = none := by simpa [pageAccess] using hfresh
  have hpage : pgNo stackPage * pgSize < physBase := by decide
  rw [installPage, wp_bind, wp_pagedirGetPage hproc hpd huser]
  simp only [PageTable.toPagedir, hnone, Option.map_none, pagedirSetPage, threadCurrent,
    requirePagedir, hproc, hpd, hpage, wp_bind, wp_require, wp_get, wp_pure, true_and]
  split
  · simp only [wp_pure, storePte, if_true, hnone, updateCurrent, wp_bind,
      wp_require, wp_modify, true_and]
    exact ⟨0, by omega, rfl⟩
  simp only [wp_onFs, wp_malloc, hheap, storePte, if_true, hnone, updateCurrent, wp_bind,
    wp_require, wp_modify, wp_pure, true_and]
  exact ⟨1, le_refl 1, rfl⟩

def BlockWritable (pd : PageTable) (cmdline : CommandLine) : Prop :=
  ∀ address, physBase - argumentSize cmdline.tokens ≤ address → address < physBase →
    pgNo address ≠ pgNo stackPage → Writable pd address

lemma blockWritable_of_fits {cmdline : CommandLine} (hfits : argumentSize cmdline.tokens ≤ pgSize) :
    BlockWritable pd cmdline := by
  intro address hlow hhigh hpage
  have : pgNo address = pgNo stackPage := by
    simp only [pgNo, stackPage, pgSize, physBase] at hlow hhigh hfits ⊢
    omega
  exact absurd this hpage

lemma pushAll_wp (h : Space k pd) (cmdline : CommandLine)
    (haccess : pageAccess pd (pgNo stackPage) = some true) (hroom : BlockWritable pd cmdline) :
    wp (pushAll physBase (argumentBlocks cmdline.tokens)) (fun _ t => t.fs = k.fs) k := by
  rw [pushAll_eq, wp_bind]
  refine wp_mono (storeAll_spec _ h ?_) fun _ _ ht => ht.2.1
  intro store hstore
  have hsize : (argumentBlocks cmdline.tokens).flatten.length ≤
      (⟨physBase, []⟩ : Pushes).pointer := by
    rw [argumentBlocks_size]
    exact argumentSize_le cmdline
  rcases (Pushes.mem_pushAll hsize).mp ⟨store.2, hstore⟩ with ⟨_, hnil⟩ | hrange
  · exact absurd hnil not_mem_nil
  rw [argumentBlocks_size] at hrange
  by_cases hpage : pgNo store.1 = pgNo stackPage
  · rw [Writable, hpage, haccess]
  · exact hroom store.1 hrange.1 hrange.2 hpage

lemma setupStack_completes (h : Space k pd)
    (hheap : ∀ n < 5, k.fs.heapOk (k.fs.allocations + n) = true) (hframe : k.HasFree)
    (hfresh : pageAccess pd (pgNo stackPage) = none) (cmdline : CommandLine)
    (hroom : BlockWritable pd cmdline) :
    wp (setupStack cmdline) (fun r t => r.isSome = true ∧ t.fs.files = k.fs.files ∧
      t.fs.openInodes = k.fs.openInodes) k := by
  have hfree : (k.setFs (k.fs.spend 1)).HasFree := hframe
  have hfirst : k.fs.heapOk k.fs.allocations = true := hheap 0 (by omega)
  simp only [setupStack, copyString, wp_bind, wp_onFs, wp_malloc, wp_require, hfirst, true_and]
  obtain ⟨frame, s, hgrants, hframe⟩ := vmGetFrame_free
    (show (⟨false, true, true⟩ : PallocFlags).user = true from rfl) hfree
  refine wp_mono (wp_of_outcome ((hframe fun r u => r = some (.page frame) ∧ u = s).mpr
    ⟨hheap 1 (by omega), rfl, rfl⟩) (vmGetFrame_memory _)) ?_
  rintro _ s ⟨⟨rfl, rfl⟩, hmem⟩
  obtain ⟨contents, hmem, -⟩ := hmem frame rfl
  have hspace : Space s pd := h.grant hgrants.marks hgrants.allList hgrants.current
  have hfs : s.fs = ((k.fs.spend 1).spend 1).bump := hgrants.fs
  simp only [wp_bind]
  refine wp_mono (wp_of_outcome (installPage_wp hspace (by
      rw [hfs]
      exact hheap 2 (by omega)) hfresh frame)
    (installPage_outcome hspace stackPage frame true)) ?_
  rintro installed t ⟨⟨rfl, n, hn, hsame⟩, hinstalled⟩
  obtain ⟨hnone, fs', -, ht⟩ := hinstalled rfl
  obtain ⟨hspace', hadds, haccess⟩ := h.installed hgrants hmem ht hnone
  have hheap' : ∀ m < 2, t.fs.heapOk (t.fs.allocations + m) = true := by
    intro m hm
    have hnext := hheap (1 + 1 + n + m) (by omega)
    rw [hsame, hfs]
    simpa only [Fs.spend_allocations, Fs.bump_allocations, Fs.spend_heapOk, Fs.bump_heapOk,
      Nat.add_assoc] using hnext
  have hfirst' : t.fs.heapOk t.fs.allocations = true := hheap' 0 (by omega)
  simp only [if_true, wp_bind, wp_onFs, wp_malloc, wp_require, Kernel.setFs_fs, Fs.spend_heapOk,
    Fs.spend_allocations, hheap' 1 (by omega), hfirst', true_and, wp_pure, Option.isSome_some]
  have hspace'' : Space ((t.setFs (t.fs.spend 1)).setFs ((t.fs.spend 1).spend 1))
      (pd.add (pgNo stackPage) frame true) := hspace'.congr rfl rfl rfl
  refine wp_mono (pushAll_wp hspace'' cmdline haccess fun address hlow hhigh hpage => ?_) ?_
  · rw [Writable, hadds.access _ hpage]
    exact hroom address hlow hhigh hpage
  · intro esp u hu
    simp only [hu, Kernel.setFs_fs, hsame, hfs, Fs.spend_files, Fs.bump_files, Fs.spend_openInodes,
      Fs.bump_openInodes, and_self]

lemma setupStack_succeeds (h : Space k pd) (hresources : Resources k pd) (cmdline : CommandLine)
    (hfits : argumentSize cmdline.tokens ≤ pgSize) :
    wp (setupStack cmdline) (fun r _ => r.isSome = true) k :=
  wp_mono (setupStack_completes h (fun _ _ => hresources.heap _) hresources.frame
    hresources.fresh cmdline (blockWritable_of_fits hfits)) fun _ _ ht => ht.1

/-- The arguments are found at the stack pointer. -/
theorem setupStack_arguments (heap : Nat → Memory) (argv : Nat → Nat) (h : Space k pd)
    (cmdline : CommandLine) (hfits : argumentSize cmdline.tokens ≤ pgSize) :
    outcome (setupStackLoops heap argv cmdline) (fun r t => ∀ esp, r = some esp →
        ∃ pd', Space t pd' ∧ ArgumentsAt (userByte t pd') esp (CString.runs cmdline.bytes))
      (fun _ => True) k ∧ (Resources k pd →
        wp (setupStackLoops heap argv cmdline) (fun r _ => r.isSome = true) k) := by
  rw [setupStackLoops_eq, ← CString.tokens_eq_runs]
  refine ⟨outcome_mono (setupStack_outcome h cmdline) ?_ fun _ => id,
    fun hresources => setupStack_succeeds h hresources cmdline hfits⟩
  intro r t ht esp hesp
  obtain ⟨pd', hbuilt⟩ := ht esp hesp
  refine ⟨pd', hbuilt.space, ?_⟩
  have hreads := hbuilt.reads
  rw [hbuilt.pointer] at hreads ⊢
  exact argumentsAt_of_reads cmdline.tokens (argumentSize_le cmdline) hreads

end

/-! ## An example -/

def bareProcess : Kernel := (twoPages.setAllList [.new 3]).setCurrent 3

/-- The command line `ls  -l ` with its spaces. -/
def listFiles : CommandLine where
  bytes := [108, 115, 32, 32, 45, 108, 32]
  nonzero := by simp
  fits := by simp [pgSize]

theorem setupStack_listFiles : ∃ esp t pd,
    setupStackLoops (fun _ _ => 0) (fun _ => 0) listFiles bareProcess = .ok (some esp, t) ∧
      ArgumentsAt (userByte t pd) esp [[108, 115], [45, 108]] := by
  have hspace : Space bareProcess .empty := ⟨⟨.new 3, rfl, rfl⟩, by simp [PageTable.empty], by
    simp [PageTable.empty]⟩
  have hresources : Resources bareProcess .empty := ⟨fun _ => rfl, ⟨0, by decide, by decide⟩, rfl⟩
  have hfits : argumentSize listFiles.tokens ≤ pgSize := by decide +kernel
  obtain ⟨houtcome, hruns⟩ :=
    setupStack_arguments (fun _ _ => 0) (fun _ => 0) hspace listFiles hfits
  obtain ⟨r, t, hrun, hsome⟩ := wp_iff.mp (hruns hresources)
  obtain ⟨esp, rfl⟩ := isSome_iff_exists.mp hsome
  rw [outcome, hrun] at houtcome
  obtain ⟨pd, -, harguments⟩ := houtcome esp rfl
  exact ⟨esp, t, pd, hrun, harguments⟩

end Pintos.Userprog.Loader
