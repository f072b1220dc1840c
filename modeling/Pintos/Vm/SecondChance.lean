import Pintos.Vm.FrameTable

/-!
# The choice of a victim

`next_frame_table_entry_to_clear` of `vm/frame.c` as a second-chance search.  It
reads and clears accessed bits in the page directories of the owners while it
walks the frame table, so the walk is stated over the page table entries that
the frames are mapped by.  Entries for different frames have different page
table entries, which is why clearing one bit leaves the bits still to be read.
-/

namespace Pintos.Vm

open Foundation Filesys Userprog

variable {scanned : List FrameTableEntry} {entry other : FrameTableEntry}

def Kernel.mappingOf (k : Kernel) (tid page : Nat) : Option Mapping := do
  let process ← findAt Process.tid k.allList tid
  let pd ← process.pagedir
  pd.lookup page

def Kernel.mappingFor (k : Kernel) (entry : FrameTableEntry) : Option Mapping :=
  k.mappingOf entry.ownerThreadTid (pgNo entry.pagePtr)

def Kernel.accessed (k : Kernel) (entry : FrameTableEntry) : Bool :=
  (k.mappingFor entry).any (·.accessed)

/-- Owners are live and `page_ptr` is the user page that the entry's frame holds. -/
structure PagesHeld (k : Kernel) : Prop where
  addrs : (k.frameTable.map FrameTableEntry.addr).Nodup
  frames : (k.frameTable.map FrameTableEntry.framePtr).Nodup
  user : ∀ entry ∈ k.frameTable, entry.pagePtr < physBase
  held : ∀ entry ∈ k.frameTable, ∃ mapping,
    k.mappingFor entry = some mapping ∧ mapping.frame = entry.framePtr

/-- The accessed bits of the pages of `scanned` are cleared, and no other entry changes. -/
def Clears (k t : Kernel) (scanned : List FrameTableEntry) : Prop :=
  ∀ tid page, t.mappingOf tid page =
    if ∃ entry ∈ scanned, entry.ownerThreadTid = tid ∧ pgNo entry.pagePtr = page then
      (k.mappingOf tid page).map ({ · with accessed := false })
    else k.mappingOf tid page

structure SameApart (k t : Kernel) : Prop where
  fs : t.fs = k.fs
  userPool : t.userPool = k.userPool
  memory : t.memory = k.memory
  swap : t.swap = k.swap
  kernelAccessed : t.kernelAccessed = k.kernelAccessed
  current : t.current = k.current
  tids : t.allList.map Process.tid = k.allList.map Process.tid

/-- The second-chance policy: the victim is the first entry whose bit is clear, or else the first
of all; the bits met on the way are cleared; the victim goes to the back. -/
structure SecondChance (k : Kernel) (victim : FrameTableEntry) (t : Kernel) : Prop where
  first : some victim = (k.frameTable.find? fun entry => !k.accessed entry).or k.frameTable.head?
  clears : Clears k t (k.frameTable.takeWhile k.accessed)
  order : t.frameTable = k.frameTable.filter (· ≠ victim) ++ [victim]
  rest : SameApart k t

section

variable {k t u : Kernel}

/-! ## One bit -/

/-- The state after `pagedir_set_accessed (.., false)` for the page of `entry`. -/
def Kernel.clearAccessed (k : Kernel) (entry : FrameTableEntry) : Kernel :=
  k.updateProcess entry.ownerThreadTid fun process => process.setPagedir
    (process.pagedir.map (·.update (pgNo entry.pagePtr) ({ · with accessed := false })))

lemma lookup_update (pd : PageTable) (page q : Nat) :
    (pd.update page ({ · with accessed := false })).lookup q =
      if page = q then (pd.lookup q).map ({ · with accessed := false }) else pd.lookup q := by
  unfold PageTable.lookup PageTable.update
  by_cases h : page = q
  · subst h
    rw [if_pos rfl, findAt_updateAt_self (by exact fun _ => rfl)]
  · rw [if_neg h, findAt_updateAt_of_ne (by exact fun _ => rfl) (Ne.symm h)]

lemma clears_clearAccessed (entry : FrameTableEntry) :
    Clears k (k.clearAccessed entry) [entry] := by
  intro tid page
  simp only [Kernel.mappingOf, Kernel.clearAccessed, Kernel.updateProcess,
    Kernel.setAllList_allList, mem_singleton, exists_eq_left]
  by_cases htid : entry.ownerThreadTid = tid
  · subst htid
    rw [findAt_updateAt_self (by exact fun _ => rfl)]
    cases findAt Process.tid k.allList entry.ownerThreadTid with
    | none => simp
    | some process =>
      cases hpd : process.pagedir with
      | none => simp [hpd]
      | some pd => simpa [hpd] using lookup_update pd (pgNo entry.pagePtr) page
  · rw [if_neg (fun h => htid h.1), findAt_updateAt_of_ne (by exact fun _ => rfl) (Ne.symm htid)]

lemma sameApart_clearAccessed (entry : FrameTableEntry) : SameApart k (k.clearAccessed entry) :=
  ⟨rfl, rfl, rfl, rfl, rfl, rfl, tids_updateProcess _ fun _ => rfl⟩

lemma SameApart.trans (h : SameApart k t) (h' : SameApart t u) : SameApart k u :=
  ⟨h'.fs.trans h.fs, h'.userPool.trans h.userPool, h'.memory.trans h.memory, h'.swap.trans h.swap,
    h'.kernelAccessed.trans h.kernelAccessed, h'.current.trans h.current, h'.tids.trans h.tids⟩

lemma Clears.trans {first rest : List FrameTableEntry} (h : Clears k t first)
    (h' : Clears t u rest) : Clears k u (first ++ rest) := by
  intro tid page
  rw [h' tid page, h tid page]
  simp only [mem_append, or_and_right, exists_or]
  by_cases hfirst : ∃ entry ∈ first, entry.ownerThreadTid = tid ∧ pgNo entry.pagePtr = page
  · by_cases hrest : ∃ entry ∈ rest, entry.ownerThreadTid = tid ∧ pgNo entry.pagePtr = page
    · simp only [if_pos hfirst, if_pos hrest, if_pos (Or.inl hfirst), Option.map_map]
      exact congrArg (Option.map · _) (funext fun _ => rfl)
    · rw [if_neg hrest, if_pos hfirst, if_pos (.inl hfirst)]
  · by_cases hrest : ∃ entry ∈ rest, entry.ownerThreadTid = tid ∧ pgNo entry.pagePtr = page
    · rw [if_pos hrest, if_neg hfirst, if_pos (.inr hrest)]
    · rw [if_neg hrest, if_neg hfirst, if_neg (not_or.mpr ⟨hfirst, hrest⟩)]

lemma Clears.frame (h : Clears k t scanned) {mapping : Mapping}
    (hmapping : k.mappingFor entry = some mapping) :
    ∃ mapping', t.mappingFor entry = some mapping' ∧ mapping'.frame = mapping.frame := by
  have hentry := h entry.ownerThreadTid (pgNo entry.pagePtr)
  change t.mappingFor entry = _ at hentry
  change k.mappingOf _ _ = _ at hmapping
  rw [hmapping] at hentry
  split at hentry
  · exact ⟨_, hentry, rfl⟩
  · exact ⟨_, hentry, rfl⟩

lemma PagesHeld.clears (h : PagesHeld k)
    (hclears : Clears k t scanned) (htab : t.frameTable = k.frameTable) : PagesHeld t := by
  refine ⟨by rw [htab]; exact h.addrs, by rw [htab]; exact h.frames,
    by rw [htab]; exact h.user, fun entry hentry => ?_⟩
  rw [htab] at hentry
  obtain ⟨mapping, hmapping, hframe⟩ := h.held entry hentry
  obtain ⟨mapping', hmapping', hsame⟩ := hclears.frame hmapping
  exact ⟨mapping', hmapping', hsame.trans hframe⟩

lemma PagesHeld.eq_of_page (h : PagesHeld k) (hentry : entry ∈ k.frameTable)
    (hother : other ∈ k.frameTable) (htid : entry.ownerThreadTid = other.ownerThreadTid)
    (hpage : pgNo entry.pagePtr = pgNo other.pagePtr) : entry = other := by
  obtain ⟨mapping, hmapping, hframe⟩ := h.held entry hentry
  obtain ⟨mapping', hmapping', hframe'⟩ := h.held other hother
  have hsame : k.mappingFor entry = k.mappingFor other := by
    rw [Kernel.mappingFor, Kernel.mappingFor, htid, hpage]
  rw [hsame, hmapping', some.injEq] at hmapping
  subst hmapping
  exact List.inj_on_of_nodup_map h.frames hentry hother (hframe.symm.trans hframe')

lemma PagesHeld.accessed_clearAccessed (h : PagesHeld k)
    (hentry : entry ∈ k.frameTable) (hother : other ∈ k.frameTable) (hne : entry ≠ other) :
    (k.clearAccessed entry).accessed other = k.accessed other := by
  have hkeep := clears_clearAccessed (k := k) entry other.ownerThreadTid (pgNo other.pagePtr)
  rw [if_neg] at hkeep
  · exact congrArg (Option.any _) hkeep
  simp only [mem_singleton, exists_eq_left]
  rintro ⟨htid, hpage⟩
  exact hne (h.eq_of_page hentry hother htid hpage)

/-! ## The walk -/

private lemma takeWhile_congr {α : Type} {p q : α → Bool} {l : List α} (h : ∀ a ∈ l, p a = q a) :
    l.takeWhile p = l.takeWhile q := by
  induction l with
  | nil => rfl
  | cons a l ih =>
    rw [List.takeWhile_cons, List.takeWhile_cons, h a (by simp), ih fun b hb => h b (by simp [hb])]

def reorder (entries : List FrameTableEntry) : Option FrameTableEntry → List FrameTableEntry
  | none => entries
  | some entry => moveToBack entries entry

lemma clearLoop_spec (rest : List FrameTableEntry) {k : Kernel} (h : PagesHeld k)
    (hrest : rest ⊆ k.frameTable) (hnodup : rest.Nodup) : wp (clearLoop rest)
      (fun found t => found = rest.find? (fun entry => !k.accessed entry) ∧
        Clears k t (rest.takeWhile k.accessed) ∧
        t.frameTable = reorder k.frameTable found ∧ SameApart k t) k := by
  induction rest generalizing k with
  | nil =>
    refine ⟨rfl, fun tid page => ?_, rfl, ⟨rfl, rfl, rfl, rfl, rfl, rfl, rfl⟩⟩
    simp
  | cons entry rest ih =>
    obtain ⟨hentry, hrest⟩ := List.cons_subset.mp hrest
    obtain ⟨hfirst, hnodup⟩ := nodup_cons.mp hnodup
    -- the owner is live and its page directory maps the page
    obtain ⟨mapping, hmapping, -⟩ := h.held entry hentry
    obtain ⟨process, hproc, hlook⟩ := Option.bind_eq_some_iff.mp hmapping
    obtain ⟨pd, hpd, hlook⟩ := Option.bind_eq_some_iff.mp hlook
    have hbit : k.accessed entry = mapping.accessed := by
      rw [Kernel.accessed, hmapping]
      rfl
    have htid : process.tid = entry.ownerThreadTid := by simpa using find?_some hproc
    have huser := h.user entry hentry
    simp only [clearLoop, threadGetById, pagedirIsAccessed, requirePagedir, wp_bind,
      wp_get, wp_pure, hproc, hpd, if_pos huser, hlook, Option.any_some]
    cases hmapped : mapping.accessed with
    | false =>
      rw [hmapped] at hbit
      simp only [Bool.false_eq_true, if_false, wp_bind, wp_modify,
        wp_pure, List.find?_cons, hbit, Bool.not_false, List.takeWhile_cons]
      refine ⟨trivial, fun tid page => ?_, rfl, ⟨rfl, rfl, rfl, rfl, rfl, rfl, rfl⟩⟩
      simp [Kernel.mappingOf]
    | true =>
      rw [hmapped] at hbit
      -- the rest of the walk starts after the clearing of this bit
      have hothers : ∀ other ∈ rest, (k.clearAccessed entry).accessed other = k.accessed other := by
        intro other hother
        refine h.accessed_clearAccessed hentry (hrest hother) ?_
        rintro rfl
        exact hfirst hother
      have hclear := clears_clearAccessed (k := k) entry
      simp only [if_true, pagedirClearAccessed, wp_bind, wp_modify, if_pos huser, htid]
      change wp (clearLoop rest) _ (k.clearAccessed entry)
      refine wp_mono (ih (h.clears hclear rfl) hrest hnodup) ?_
      rintro found t ⟨rfl, hclears, htab, hsame⟩
      rw [takeWhile_congr hothers] at hclears
      have hfind : rest.find? (fun other => !(k.clearAccessed entry).accessed other) =
          (entry :: rest).find? fun other => !k.accessed other := by
        rw [List.find?_cons, hbit]
        exact List.find?_congr fun other hother => by rw [hothers other hother]
      refine ⟨hfind, ?_, htab, (sameApart_clearAccessed entry).trans hsame⟩
      rw [List.takeWhile_cons, hbit, if_pos rfl]
      exact hclear.trans hclears

/-! ## The victim -/

lemma PagesHeld.moveToBack_eq (h : PagesHeld k) {victim : FrameTableEntry}
    (hvictim : victim ∈ k.frameTable) :
    moveToBack k.frameTable victim = k.frameTable.filter (· ≠ victim) ++ [victim] := by
  rw [moveToBack, removeAt]
  refine congrArg (· ++ [victim]) (List.filter_congr fun entry hentry => ?_)
  have hiff : entry.addr = victim.addr ↔ entry = victim :=
    ⟨fun haddr => eq_of_addr_eq h.addrs hentry hvictim haddr, fun heq => by rw [heq]⟩
  simp [hiff]

/-- The policy is followed exactly if some bit is clear or there is no other entry: when all bits
are set, the first entry is returned but stays at the front. -/
theorem nextFrameTableEntryToClear_iff (h : PagesHeld k) (hne : k.frameTable ≠ []) :
    wp nextFrameTableEntryToClear (SecondChance k) k ↔
      (∃ entry ∈ k.frameTable, k.accessed entry = false) ∨ k.frameTable.length = 1 := by
  have hnodup : k.frameTable.Nodup := List.Nodup.of_map _ h.addrs
  obtain ⟨found, t, hloop, hfound, hclears, htable, hsame⟩ :=
    wp_iff.mp (clearLoop_spec k.frameTable h (List.Subset.refl _) hnodup)
  rw [nextFrameTableEntryToClear, wp_bind, wp_get, wp_bind, wp_of_ok hloop]
  cases found with
  | some victim =>
    have hclear : k.accessed victim = false := by simpa using find?_some hfound.symm
    have hmem : victim ∈ k.frameTable := mem_of_find?_eq_some hfound.symm
    simp only [wp_pure]
    refine iff_of_true ⟨?_, hclears, ?_, hsame⟩ (.inl ⟨victim, hmem, hclear⟩)
    · rw [← hfound, Option.some_or]
    rw [htable]
    exact h.moveToBack_eq hmem
  | none =>
    have hset : ∀ entry ∈ k.frameTable, k.accessed entry = true := by simpa using hfound.symm
    obtain ⟨first, rest, htableK⟩ := List.exists_cons_of_ne_nil hne
    have hfirst : first ∉ rest := (nodup_cons.mp (htableK ▸ hnodup)).1
    -- the order that the policy asks for is not the one that is left
    have hothers : k.frameTable.filter (· ≠ first) = rest := by
      rw [htableK, List.filter_cons_of_neg (by simp), List.filter_eq_self]
      intro entry hentry
      simp only [decide_eq_true_eq]
      rintro rfl
      exact hfirst hentry
    simp only [reorder] at htable
    simp only [htableK, wp_pure]
    constructor
    · rintro ⟨-, -, horder, -⟩
      rw [hothers, htable, htableK] at horder
      right
      cases rest with
      | nil => rfl
      | cons second rest =>
        -- the head would be `second` and not `first`
        rw [cons_append] at horder
        injection horder with hhead _
        rw [hhead] at hfirst
        exact absurd mem_cons_self hfirst
    · rintro (⟨entry, hentry, hclear⟩ | hone)
      · rw [hset entry (htableK ▸ hentry)] at hclear
        cases hclear
      have hrest : rest = [] := by simpa using hone
      refine ⟨?_, hclears, ?_, hsame⟩
      · rw [← hfound, htableK]
        rfl
      · rw [hothers, htable, htableK, hrest]
        rfl

end

/-! ## Two frames -/

def twoFrames (first second : Bool) : Kernel :=
  { twoPages with
    frameTable := [⟨100, 0, 0x8048000, 3⟩, ⟨200, 1, 0x8049000, 3⟩]
    allList := [(Process.new 3).setPagedir (some ⟨[32],
      [⟨⟨0, true, first, false⟩, 0x8048⟩, ⟨⟨1, true, second, false⟩, 0x8049⟩]⟩)] }

lemma twoFrames_pagesHeld (first second : Bool) : PagesHeld (twoFrames first second) := by
  refine ⟨by simp [twoFrames], by simp [twoFrames], by simp [twoFrames, physBase], ?_⟩
  intro entry hentry
  simp only [twoFrames, mem_cons, not_mem_nil, or_false] at hentry
  rcases hentry with rfl | rfl
  · exact ⟨⟨⟨0, true, first, false⟩, 0x8048⟩, rfl, rfl⟩
  · exact ⟨⟨⟨1, true, second, false⟩, 0x8049⟩, rfl, rfl⟩

theorem nextFrameTableEntryToClear_oneClear :
    wp nextFrameTableEntryToClear (SecondChance (twoFrames true false)) (twoFrames true false) :=
  (nextFrameTableEntryToClear_iff (twoFrames_pagesHeld true false) (List.cons_ne_nil _ _)).mpr
    (.inl ⟨⟨200, 1, 0x8049000, 3⟩, by decide, by decide⟩)

/-- With both bits set the victim is not moved behind the other entry. -/
theorem nextFrameTableEntryToClear_allSet : PagesHeld (twoFrames true true) ∧
      wp nextFrameTableEntryToClear
        (fun victim t => victim.addr = 100 ∧ t.frameTable.map FrameTableEntry.addr = [100, 200])
        (twoFrames true true) ∧ ¬ wp nextFrameTableEntryToClear (SecondChance (twoFrames true true))
        (twoFrames true true) := by
  have hruns : wp nextFrameTableEntryToClear
      (fun victim t => victim.addr = 100 ∧ t.frameTable.map FrameTableEntry.addr = [100, 200])
      (twoFrames true true) := by
    decide
  refine ⟨twoFrames_pagesHeld true true, hruns, fun hpolicy => ?_⟩
  obtain ⟨victim, t, hrun, hvictim, htable⟩ := wp_iff.mp hruns
  rw [wp_of_ok hrun] at hpolicy
  rw [hpolicy.order, map_append, map_cons, map_nil, hvictim] at htable
  -- the table would end with the victim
  have hlast := congrArg List.getLast? htable
  simp at hlast

end Pintos.Vm
