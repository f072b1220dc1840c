import Pintos.Userprog.Descriptors

/-!
# The search for a child

`process_wait` of `userprog/process.c` over the memory of the kernel.  Its search
goes through the list `children` of the running thread from the tail to the head,
both included, and takes every element for a part of a `struct child_status`.
The two sentinels are members of `struct thread` and come right after
`child_condition`, so that the links of its list of waiters stand where the
members of a child record would be.
-/

namespace Pintos.Userprog.Children

open Foundation KernelList Descriptors

/-! ## Layout -/

/-- `offsetof (struct child_status, elem_child_status)`, after a `tid_t`, two `bool` and an
`int`. -/
def elemChildStatus : Nat := 12

/-- `offsetof (struct thread, children)`. -/
def childrenOffset : Nat := 108

/-- `offsetof (struct thread, child_condition.waiters.head.next)`. -/
def waitersHeadNextOffset : Nat := 96

/-- `offsetof (struct thread, child_condition.waiters.tail.next)`. -/
def waitersTailNextOffset : Nat := 104

/-- `list_entry (elem, struct child_status, elem_child_status)`. -/
def childStatus (elem : Nat) : Nat := elem - elemChildStatus

def childTid (m : Memory) (child : Nat) : Int := intAt m child

def exited (m : Memory) (child : Nat) : Bool := m (child + 4) ≠ 0

def hasBeenWaited (m : Memory) (child : Nat) : Bool := m (child + 5) ≠ 0

def childExitStatus (m : Memory) (child : Nat) : Int := intAt m (child + 8)

/-! ## `process_wait` -/

/-- The search: the `do` loop and the test of the head after it; `misuse` if it has not ended
after so many rounds. -/
def searchLoop (m : Memory) (head : Nat) (tid : Int) : Nat → Nat → Except Fault (Option Nat)
  | 0, _ => .error .misuse
  | rounds + 1, elem =>
    if childTid m (childStatus elem) = tid then return some (childStatus elem)
    else do
      let elem ← listPrev m elem
      if elem ≠ head then searchLoop m head tid rounds elem
      else return if childTid m (childStatus elem) = tid then some (childStatus elem) else none

def search (m : Memory) (thread : Nat) (tid : Int) (rounds : Nat) : Except Fault (Option Nat) :=
  searchLoop m (listHead (thread + childrenOffset)) tid rounds (listTail (thread + childrenOffset))

inductive WaitResult where
  | returns (value : Int) (memory : Memory)
  /-- `cond_wait` while the thread is alive; `waited` is what follows. -/
  | waits (child : Nat)

def waited (m : Memory) (child : Nat) : WaitResult :=
  if exited m child = false ∨ hasBeenWaited m child = true then .returns (-1) m
  else .returns (childExitStatus m child) (update m (child + 5) 1)

/-- `process_wait (tid)` of the thread at `thread`, with the tids of `all_list`.  The lock is
released again before the call returns. -/
def processWait (m : Memory) (thread : Nat) (alive : List Int) (tid : Int) (rounds : Nat) :
    Except Fault WaitResult :=
  if tid ≠ -1 then do
    match ← search m thread tid rounds with
    | none => return .returns (-1) m
    | some child => return if tid ∈ alive then .waits child else waited m child
  else return .returns (-1) m

lemma searchLoop_eq {m : Memory} {head : Nat} (tid : Int) (extra : Nat) (elems : List Nat) :
    ∀ elem, LinkedBack m head elem elems → (∀ e ∈ elem :: (elems ++ [head]), e ≠ 0) →
      (elem :: (elems ++ [head])).Nodup → searchLoop m head tid (elems.length + 1 + extra) elem =
        .ok (((elem :: (elems ++ [head])).map childStatus).find? fun c => childTid m c = tid) := by
  induction elems with
  | nil =>
    intro elem hlinked hnonnull _
    have hprev := listPrev_of_linkedBack hlinked hnonnull
    simp only [nil_append, List.headD_cons] at hprev
    rw [length_nil, show 0 + 1 + extra = extra + 1 by omega, searchLoop]
    by_cases hfound : childTid m (childStatus elem) = tid
    · simp [hfound, pure, Except.pure]
    by_cases hhead : childTid m (childStatus head) = tid
    · simp [hfound, hhead, hprev, bind, Except.bind, pure, Except.pure]
    · simp [hfound, hhead, hprev, bind, Except.bind, pure, Except.pure]
  | cons preceding rest ih =>
    intro elem hlinked hnonnull hnodup
    have hprev := listPrev_of_linkedBack hlinked hnonnull
    simp only [cons_append, List.headD_cons] at hprev
    have hnodupRest := (nodup_cons.mp hnodup).2
    have hne : preceding ≠ head := by
      rintro rfl
      simp at hnodupRest
    have hrest := ih preceding hlinked.2 (fun e he => hnonnull e (mem_cons_of_mem _ he)) hnodupRest
    rw [length_cons, show rest.length + 1 + 1 + extra = rest.length + 1 + extra + 1 by omega,
      searchLoop]
    by_cases hfound : childTid m (childStatus elem) = tid
    · simp [hfound, pure, Except.pure]
    rw [if_neg hfound, hprev]
    simp only [bind, Except.bind, if_pos hne, hrest]
    simp [hfound]

/-! ## Exactness -/

/-- The state of a thread: its children are those that `process_execute` has inserted. -/
structure ParentState where
  memory : Memory
  thread : Nat
  children : List Nat
  list : IsList memory (thread + childrenOffset) (children.map (· + elemChildStatus))

namespace ParentState

def tailWord (s : ParentState) : Int := intAt s.memory (s.thread + waitersTailNextOffset)

def headWord (s : ParentState) : Int := intAt s.memory (s.thread + waitersHeadNextOffset)

def Has (s : ParentState) (tid : Int) : Prop := ∃ child ∈ s.children, childTid s.memory child = tid

/-- The search succeeds for the children only, and for another tid the call returns -1 and leaves
all memory as it was. -/
structure OnlyChildren (s : ParentState) (alive : List Int) (tid : Int) (rounds : Nat) : Prop where
  succeeds : ∃ r, search s.memory s.thread tid rounds = .ok r ∧ (r.isSome ↔ s.Has tid)
  other : ¬ s.Has tid →
    processWait s.memory s.thread alive tid rounds = .ok (.returns (-1) s.memory)

def Finds (s : ParentState) (tid : Int) : Option Nat → Prop
  | some child => child ∈ s.children ∧ childTid s.memory child = tid
  | none => ¬ s.Has tid

section

variable {s : ParentState} {tid : Int} {rounds : Nat}

lemma search_eq (s : ParentState) (tid : Int) (hrounds : s.children.length + 1 ≤ rounds) :
    search s.memory s.thread tid rounds = .ok (((s.thread + waitersTailNextOffset) ::
          (s.children.reverse ++ [s.thread + waitersHeadNextOffset])).find?
        fun c => childTid s.memory c = tid) := by
  obtain ⟨extra, rfl⟩ := Nat.exists_eq_add_of_le hrounds
  -- the elements from the tail to the head
  have hperm : (listTail (s.thread + childrenOffset) ::
      ((s.children.map (· + elemChildStatus)).reverse ++
        [listHead (s.thread + childrenOffset)])).Perm (listHead (s.thread + childrenOffset) ::
        (s.children.map (· + elemChildStatus) ++ [listTail (s.thread + childrenOffset)])) := by
    have hreverse := List.reverse_perm (listHead (s.thread + childrenOffset) ::
      (s.children.map (· + elemChildStatus) ++ [listTail (s.thread + childrenOffset)]))
    rw [reverse_cons, reverse_append] at hreverse
    exact hreverse
  have hloop := searchLoop_eq tid extra _ _ s.list.linked.back
    (fun e he => s.list.nonnull e (hperm.mem_iff.mp he)) (hperm.nodup_iff.mpr s.list.nodup)
  rw [length_reverse, length_map] at hloop
  have hmap : (s.children.map (· + elemChildStatus)).reverse.map childStatus =
      s.children.reverse := by
    simp [Function.comp_def, childStatus]
  rw [search, hloop, map_cons, map_append, hmap]
  rfl

lemma tail_not_mem (s : ParentState) : s.thread + waitersTailNextOffset ∉ s.children := by
  intro hmem
  have hnodup := (nodup_cons.mp s.list.nodup).2
  rw [nodup_append] at hnodup
  exact hnodup.2.2 _ (mem_map_of_mem hmem) _ (mem_singleton_self _) rfl

lemma head_not_mem (s : ParentState) : s.thread + waitersHeadNextOffset ∉ s.children := by
  intro hmem
  have hnodup := s.list.nodup
  rw [nodup_cons] at hnodup
  exact hnodup.1 (mem_append_left _ (mem_map_of_mem hmem))

lemma search_isSome (s : ParentState) (tid : Int) (hrounds : s.children.length + 1 ≤ rounds) :
    ∃ r, search s.memory s.thread tid rounds = .ok r ∧
      (r.isSome ↔ s.tailWord = tid ∨ s.Has tid ∨ s.headWord = tid) := by
  refine ⟨_, s.search_eq tid hrounds, ?_⟩
  simp only [List.find?_isSome, mem_cons, mem_append, List.mem_reverse,
    not_mem_nil, or_false, decide_eq_true_eq]
  constructor
  · rintro ⟨c, rfl | hc | rfl, htid⟩
    · exact .inl htid
    · exact .inr (.inl ⟨c, hc, htid⟩)
    · exact .inr (.inr htid)
  · rintro (htid | ⟨c, hc, htid⟩ | htid)
    · exact ⟨_, .inl rfl, htid⟩
    · exact ⟨c, .inr (.inl hc), htid⟩
    · exact ⟨_, .inr (.inr rfl), htid⟩

lemma onlyChildren_iff (s : ParentState) (alive : List Int) (htid : tid ≠ -1)
    (hrounds : s.children.length + 1 ≤ rounds) :
    s.OnlyChildren alive tid rounds ↔ (s.tailWord = tid ∨ s.headWord = tid → s.Has tid) := by
  obtain ⟨r, hsearch, hsome⟩ := s.search_isSome tid hrounds
  constructor
  · rintro ⟨⟨r', hsearch', hiff⟩, -⟩ hword
    rw [hsearch, Except.ok.injEq] at hsearch'
    subst hsearch'
    refine hiff.mp (hsome.mpr ?_)
    rcases hword with hword | hword
    · exact .inl hword
    · exact .inr (.inr hword)
  intro hwords
  have hiff : r.isSome ↔ s.Has tid := by
    rw [hsome]
    constructor
    · rintro (hword | hhas | hword)
      · exact hwords (.inl hword)
      · exact hhas
      · exact hwords (.inr hword)
    · exact fun hhas => .inr (.inl hhas)
  refine ⟨⟨r, hsearch, hiff⟩, fun hnone => ?_⟩
  cases r with
  | some child => exact absurd (hiff.mp rfl) hnone
  | none =>
    rw [processWait, if_pos htid, hsearch]
    rfl

/-- The record found is a child's unless the word before the tail has that value, or the word
before the head has it and no child does. -/
lemma finds_iff (s : ParentState) (tid : Int) (hrounds : s.children.length + 1 ≤ rounds) :
    (∃ r, search s.memory s.thread tid rounds = .ok r ∧ s.Finds tid r) ↔
      s.tailWord ≠ tid ∧ (s.headWord = tid → s.Has tid) := by
  rw [s.search_eq tid hrounds]
  simp only [Except.ok.injEq, exists_eq_left']
  by_cases htail : childTid s.memory (s.thread + waitersTailNextOffset) = tid
  · have hword : s.tailWord = tid := htail
    rw [find?_cons_of_pos (by simpa using htail)]
    exact iff_of_false (fun h => s.tail_not_mem h.1) fun h => h.1 hword
  have hword : s.tailWord ≠ tid := htail
  rw [find?_cons_of_neg (by simpa using htail), List.find?_append]
  cases hfind : s.children.reverse.find? fun c => childTid s.memory c = tid with
  | some child =>
    have hchild : child ∈ s.children ∧ childTid s.memory child = tid :=
      ⟨List.mem_reverse.mp (mem_of_find?_eq_some hfind), by simpa using find?_some hfind⟩
    exact iff_of_true hchild ⟨hword, fun _ => ⟨child, hchild⟩⟩
  | none =>
    have hnone : ¬ s.Has tid := by
      rintro ⟨child, hchild, heq⟩
      simpa [heq] using List.find?_eq_none.mp hfind child (List.mem_reverse.mpr hchild)
    by_cases hhead : childTid s.memory (s.thread + waitersHeadNextOffset) = tid
    · rw [find?_cons_of_pos (by simpa using hhead)]
      exact iff_of_false (fun h => s.head_not_mem h.1) fun h => hnone (h.2 hhead)
    · rw [find?_cons_of_neg (by simpa using hhead)]
      exact iff_of_true hnone ⟨hword, fun h => absurd h hhead⟩

/-- `process_wait` keeps to the children exactly for the tids that are not one of the two words,
or that are a child's; and what it finds is the child's record if the tail's word is another. -/
theorem processWait_iff (s : ParentState) (alive : List Int) (htid : tid ≠ -1)
    (hrounds : s.children.length + 1 ≤ rounds) :
    (s.OnlyChildren alive tid rounds ↔ (s.tailWord = tid ∨ s.headWord = tid → s.Has tid)) ∧
      ((∃ r, search s.memory s.thread tid rounds = .ok r ∧ s.Finds tid r) ↔
        s.tailWord ≠ tid ∧ (s.headWord = tid → s.Has tid)) :=
  ⟨s.onlyChildren_iff alive htid hrounds, s.finds_iff tid hrounds⟩

end

open ThreadState (storeWord)

/-- A thread in the page at `0xC0110000` with no waiters, and the child 5 at `0xC0200000`. -/
def oneChild : ParentState where
  memory := storeWord (storeWord (storeWord (storeWord (storeWord (storeWord (storeWord
    (fun _ => 0) 0xC0110060 0xC0110064) 0xC0110064 0xC011005C)
    0xC0110070 0xC020000C) 0xC0110074 0xC020000C)
    0xC0200000 5) 0xC020000C 0xC011006C) 0xC0200010 0xC0110074
  thread := 0xC0110000
  children := [0xC0200000]
  list := ⟨by decide +kernel, by decide +kernel,
    ⟨by decide +kernel, by decide +kernel, by decide +kernel, by decide +kernel⟩,
    by decide +kernel, by decide +kernel⟩

theorem processWait_five : oneChild.OnlyChildren [] 5 2 :=
  (oneChild.processWait_iff [] (by decide) (by decide)).1.mpr
    fun _ => ⟨0xC0200000, by decide, by decide +kernel⟩

/-- The tid that is the address of the waiters' tail: the head of the list passes for a child that
has exited with status 0, and a byte of the link `waiters.tail.prev` is overwritten. -/
theorem processWait_finds_head : ¬ oneChild.Has (toSigned32 0xC0110064) ∧
      ¬ oneChild.OnlyChildren [] (toSigned32 0xC0110064) 2 ∧
      ∃ m, processWait oneChild.memory oneChild.thread [] (toSigned32 0xC0110064) 2 =
          .ok (.returns 0 m) ∧
        prev oneChild.memory 0xC0110064 = 0xC011005C ∧ prev m 0xC0110064 = 0xC011015C := by
  have hnone : ¬ oneChild.Has (toSigned32 0xC0110064) := by
    rintro ⟨child, hchild, htid⟩
    rw [mem_singleton.mp hchild] at htid
    revert htid
    decide +kernel
  have hsome : ∃ child, search oneChild.memory oneChild.thread (toSigned32 0xC0110064) 2 =
      .ok (some child) := ⟨0xC0110060, by decide +kernel⟩
  refine ⟨hnone, fun honly => ?_, update oneChild.memory 0xC0110065 1, ?_,
    by decide +kernel, by decide +kernel⟩
  · obtain ⟨child, hfound⟩ := hsome
    obtain ⟨⟨r, hsearch, hiff⟩, -⟩ := honly
    rw [hfound, Except.ok.injEq] at hsearch
    subst hsearch
    exact hnone (hiff.mp rfl)
  · have hfound : search oneChild.memory oneChild.thread (toSigned32 0xC0110064) 2 =
        .ok (some 0xC0110060) := by decide +kernel
    have hstatus : exited oneChild.memory 0xC0110060 = true ∧
        hasBeenWaited oneChild.memory 0xC0110060 = false ∧
        childExitStatus oneChild.memory 0xC0110060 = 0 := by decide +kernel
    rw [processWait, if_pos (by decide), hfound]
    simp [bind, Except.bind, pure, Except.pure, waited, hstatus]

end ParentState

end Pintos.Userprog.Children
