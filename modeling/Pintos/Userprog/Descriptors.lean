import Pintos.Lib.KernelList

/-!
# Descriptor lookup

`retrieve_file` of `userprog/syscall.c` over the memory of the kernel.  It walks
the list `open_files` of the running thread from the head to the tail, both
included, and takes every element for a part of a `struct file_descriptor`.  The
head and the tail are members of `struct thread`, so that the words before them
stand where the members of a descriptor would be.
-/

namespace Pintos.Userprog.Descriptors

open Foundation KernelList

/-! ## Layout -/

/-- `offsetof (struct file_descriptor, elem)`. -/
def elemOffset : Nat := 12

/-- `offsetof (struct thread, open_files)`. -/
def openFilesOffset : Nat := 40

def priorityOffset : Nat := 28

/-- `offsetof (struct thread, allelem.next)`. -/
def allelemNextOffset : Nat := 36

/-- `list_entry (elem, struct file_descriptor, elem)`. -/
def fileDescriptor (elem : Nat) : Nat := elem - elemOffset

def intAt (m : Memory) (address : Nat) : Int := toSigned32 (word32 m address)

def fdNum (m : Memory) (descriptor : Nat) : Int := intAt m descriptor

/-! ## The walk -/

/-- The loop of `retrieve_file` and the test of the tail after it; `misuse` if it has not ended
after so many rounds. -/
def retrieveLoop (m : Memory) (tail : Nat) (fd : Int) : Nat → Nat → Except Fault (Option Nat)
  | 0, _ => .error .misuse
  | rounds + 1, elem =>
    if elem = tail then
      return if fdNum m (fileDescriptor elem) = fd then some (fileDescriptor elem) else none
    else if fdNum m (fileDescriptor elem) = fd then return some (fileDescriptor elem)
    else do
      let elem ← listNext m elem
      retrieveLoop m tail fd rounds elem

/-- `retrieve_file (fd)` of the thread at `thread`. -/
def retrieveFile (m : Memory) (thread : Nat) (fd : Int) (rounds : Nat) :
    Except Fault (Option Nat) :=
  retrieveLoop m (listTail (thread + openFilesOffset)) fd rounds
    (listHead (thread + openFilesOffset))

lemma retrieveLoop_eq {m : Memory} {tail : Nat} (fd : Int) (extra : Nat) (elems : List Nat) :
    ∀ elem, Linked m tail elem elems → (∀ e ∈ elem :: (elems ++ [tail]), e ≠ 0) →
      (elem :: (elems ++ [tail])).Nodup → retrieveLoop m tail fd (elems.length + 2 + extra) elem =
        .ok (((elem :: (elems ++ [tail])).map fileDescriptor).find? fun d => fdNum m d = fd) := by
  induction elems with
  | nil =>
    intro elem hlinked hnonnull hnodup
    have hne : elem ≠ tail := by simpa using hnodup
    have hnext := listNext_of_linked hlinked hnonnull
    simp only [nil_append, List.headD_cons] at hnext
    rw [length_nil, show 0 + 2 + extra = extra + 1 + 1 by omega, retrieveLoop, if_neg hne]
    by_cases hfound : fdNum m (fileDescriptor elem) = fd
    · simp [hfound, pure, Except.pure]
    by_cases htail : fdNum m (fileDescriptor tail) = fd
    · simp [hfound, htail, hnext, retrieveLoop, bind, Except.bind, pure, Except.pure]
    · simp [hfound, htail, hnext, retrieveLoop, bind, Except.bind, pure, Except.pure]
  | cons following rest ih =>
    intro elem hlinked hnonnull hnodup
    have hne : elem ≠ tail := by
      rintro rfl
      simp at hnodup
    have hnext := listNext_of_linked hlinked hnonnull
    simp only [cons_append, List.headD_cons] at hnext
    have hrest := ih following hlinked.2.2
      (fun e he => hnonnull e (mem_cons_of_mem _ he)) (nodup_cons.mp hnodup).2
    rw [length_cons, show rest.length + 1 + 2 + extra = rest.length + 2 + extra + 1 by omega,
      retrieveLoop, if_neg hne]
    by_cases hfound : fdNum m (fileDescriptor elem) = fd
    · simp [hfound, pure, Except.pure]
    rw [if_neg hfound, hnext]
    simp only [bind, Except.bind, hrest]
    simp [hfound]

/-! ## Exactness -/

/-- The state of a thread: its descriptors are those that `sys_open` has inserted. -/
structure ThreadState where
  memory : Memory
  thread : Nat
  descriptors : List Nat
  openFiles : IsList memory (thread + openFilesOffset) (descriptors.map (· + elemOffset))

namespace ThreadState

def priority (s : ThreadState) : Int := intAt s.memory (s.thread + priorityOffset)

def allelemNext (s : ThreadState) : Int := intAt s.memory (s.thread + allelemNextOffset)

def Has (s : ThreadState) (fd : Int) : Prop := ∃ d ∈ s.descriptors, fdNum s.memory d = fd

def Answers (s : ThreadState) (fd : Int) : Option Nat → Prop
  | some d => d ∈ s.descriptors ∧ fdNum s.memory d = fd
  | none => ¬ s.Has fd

lemma retrieveFile_eq (s : ThreadState) (fd : Int) {rounds : Nat}
    (hrounds : s.descriptors.length + 2 ≤ rounds) : retrieveFile s.memory s.thread fd rounds =
      .ok (((s.thread + priorityOffset) :: (s.descriptors ++ [s.thread + allelemNextOffset])).find?
        fun d => fdNum s.memory d = fd) := by
  obtain ⟨extra, rfl⟩ := Nat.exists_eq_add_of_le hrounds
  have hwalk := retrieveLoop_eq fd extra _ _ s.openFiles.linked s.openFiles.nonnull
    s.openFiles.nodup
  have hmap : (s.descriptors.map (· + elemOffset)).map fileDescriptor = s.descriptors := by
    simp [Function.comp_def, fileDescriptor]
  rw [length_map] at hwalk
  rw [retrieveFile, hwalk, map_cons, map_append, hmap]
  rfl

lemma head_not_mem (s : ThreadState) : s.thread + priorityOffset ∉ s.descriptors := by
  intro hmem
  have hnodup := s.openFiles.nodup
  rw [nodup_cons] at hnodup
  exact hnodup.1 (mem_append_left _ (mem_map_of_mem hmem))

lemma tail_not_mem (s : ThreadState) : s.thread + allelemNextOffset ∉ s.descriptors := by
  intro hmem
  have hnodup := (nodup_cons.mp s.openFiles.nodup).2
  rw [nodup_append] at hnodup
  exact hnodup.2.2 _ (mem_map_of_mem hmem) _ (mem_singleton_self _) rfl

/-- `retrieve_file` is exact for a number if and only if the number is not the priority of the
thread and, unless a descriptor has it, not the word `allelem.next` either. -/
theorem retrieveFile_exact_iff (s : ThreadState) (fd : Int) {rounds : Nat}
    (hrounds : s.descriptors.length + 2 ≤ rounds) :
    (∃ r, retrieveFile s.memory s.thread fd rounds = .ok r ∧ s.Answers fd r) ↔
      fd ≠ s.priority ∧ (fd = s.allelemNext → s.Has fd) := by
  rw [s.retrieveFile_eq fd hrounds]
  simp only [Except.ok.injEq, exists_eq_left']
  by_cases hpriority : fdNum s.memory (s.thread + priorityOffset) = fd
  · have hhead : fd = s.priority := hpriority.symm
    rw [find?_cons_of_pos (by simpa using hpriority)]
    constructor
    · exact fun h => absurd h.1 s.head_not_mem
    · exact fun h => absurd hhead h.1
  have hhead : fd ≠ s.priority := fun h => hpriority h.symm
  rw [find?_cons_of_neg (by simpa using hpriority), List.find?_append]
  cases hfind : s.descriptors.find? fun d => fdNum s.memory d = fd with
  | some d =>
    have hd : d ∈ s.descriptors ∧ fdNum s.memory d = fd :=
      ⟨mem_of_find?_eq_some hfind, by simpa using find?_some hfind⟩
    exact ⟨fun _ => ⟨hhead, fun _ => ⟨d, hd⟩⟩, fun _ => hd⟩
  | none =>
    have hnone : ¬ s.Has fd := by
      rintro ⟨d, hd, heq⟩
      simpa [heq] using List.find?_eq_none.mp hfind d hd
    by_cases htail : fdNum s.memory (s.thread + allelemNextOffset) = fd
    · rw [find?_cons_of_pos (by simpa using htail)]
      constructor
      · exact fun h => absurd h.1 s.tail_not_mem
      · exact fun h => absurd (h.2 htail.symm) hnone
    rw [find?_cons_of_neg (by simpa using htail)]
    constructor
    · exact fun _ => ⟨hhead, fun h => absurd h.symm htail⟩
    · exact fun _ => hnone

def storeWord (m : Memory) (address value : Nat) : Memory := copy m address (wordByte value) 0 4

def oneFileThread : ThreadState where
  memory := storeWord (storeWord (storeWord (storeWord (storeWord (storeWord (fun _ => 0)
    4124 31) 4140 8204) 8192 2) 8204 4136) 8208 4144) 4144 8204
  thread := 4096
  descriptors := [8192]
  openFiles := ⟨by decide +kernel, by decide +kernel,
    ⟨by decide +kernel, by decide +kernel, by decide +kernel, by decide +kernel⟩,
    by decide, by decide⟩

theorem retrieveFile_two : ∃ r, retrieveFile oneFileThread.memory oneFileThread.thread 2 3 = .ok r ∧
    oneFileThread.Answers 2 r :=
  (oneFileThread.retrieveFile_exact_iff 2 (by decide)).mpr
    ⟨by decide +kernel, fun h => absurd h (by decide +kernel)⟩

/-- The number 31 is the priority of the thread, and the head of the list is returned. -/
theorem retrieveFile_finds_head :
    retrieveFile oneFileThread.memory oneFileThread.thread 31 3 = .ok (some 4124) ∧
      ¬ oneFileThread.Answers 31 (some 4124) :=
  ⟨by decide +kernel, fun h => absurd h.1 (by decide)⟩

end ThreadState

end Pintos.Userprog.Descriptors
