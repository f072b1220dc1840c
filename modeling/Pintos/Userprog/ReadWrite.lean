import Pintos.Userprog.PageFault
import Pintos.Userprog.Syscall

/-!
# `sys_write` before the write, and `sys_read` from the console

The first part of `sys_write` is a loop that ends the process at the first bad
address and uses the null pointer to say that it is done.  The console branch of
`sys_read` stores every key at the same address: `buffer` is advanced and `buf`
is stored through.
-/

namespace Pintos.Userprog

open Foundation Filesys Vm

/-! ## The loop of `sys_write` -/

def validPtr (userPtr : Nat) : KernelAction Bool :=
  if userPtr ≠ 0 ∧ userPtr < physBase then do
    return (← pagedirGetPage userPtr).isSome
  else return false

/-- The addresses at which the loop of `sys_write` looks, from `tmp` on with
`remaining` bytes to go.  A null `tmp` ends the loop. -/
def visited (buffer size : Nat) : Nat → Nat → Nat → List Nat
  | 0, _, _ => []
  | fuel + 1, tmp, remaining =>
    if tmp = 0 then []
    else tmp ::
      (if pgSize < remaining then visited buffer size fuel (ptrAdd tmp pgSize) (remaining - pgSize)
       else if remaining = 0 then []
       else visited buffer size fuel (lastByte buffer size) 0)

def bufferAddresses (buffer size : Nat) : List Nat :=
  visited buffer size (size / pgSize + 3) buffer size

def walk (check : Nat → KernelAction Bool) : List Nat → KernelAction Bool
  | [] => return true
  | address :: rest => do
    if ← check address then walk check rest else return false

/-- The loop of `sys_write` with its two variables.  It falls through or ends the process; no value
means that it has not ended. -/
def validateLoop (buffer size : Nat) : Nat → Nat → Nat → KernelAction (Option Bool)
  | 0, _, _ => return none
  | fuel + 1, bufferTmp, bufferSize =>
    if bufferTmp = 0 then return some true
    else do
      if ← validPtr bufferTmp then
        if pgSize < bufferSize then
          validateLoop buffer size fuel (ptrAdd bufferTmp pgSize) (bufferSize - pgSize)
        else if bufferSize = 0 then validateLoop buffer size fuel 0 bufferSize
        else validateLoop buffer size fuel (lastByte buffer size) 0
      else return some false

def Readable (k : Kernel) (address : Nat) : Prop :=
  address < physBase ∧ maps k (pgNo address) = true

def ReadableBuffer (k : Kernel) (buffer size : Nat) : Prop :=
  Readable k buffer ∧ ∀ i < size, Readable k (buffer + i)

instance (k : Kernel) (address : Nat) : Decidable (Readable k address) :=
  inferInstanceAs (Decidable (_ ∧ _))

instance (k : Kernel) (buffer size : Nat) : Decidable (ReadableBuffer k buffer size) :=
  inferInstanceAs (Decidable (_ ∧ _))

/-! ## The addresses of a buffer -/

section Addresses

variable {buffer fuel remaining size tmp : Nat}

lemma lastByte_eq (hsize : 0 < size) (h : buffer + size ≤ 2 ^ 32) :
    lastByte buffer size = buffer + size - 1 := by
  unfold lastByte
  rw [if_neg (by omega), Nat.mod_eq_of_lt (by omega)]

lemma visited_long (htmp : tmp ≠ 0) (hlong : pgSize < remaining) :
    visited buffer size (fuel + 1) tmp remaining =
      tmp :: visited buffer size fuel (ptrAdd tmp pgSize) (remaining - pgSize) := by
  rw [visited, if_neg htmp, if_pos hlong]

lemma visited_done (htmp : tmp ≠ 0) : visited buffer size (fuel + 1) tmp 0 = [tmp] := by
  rw [visited, if_neg htmp, if_neg (Nat.not_lt_zero pgSize), if_pos rfl]

lemma visited_short (htmp : tmp ≠ 0) (hremaining : 0 < remaining)
    (hshort : remaining ≤ pgSize) (hlast : lastByte buffer size ≠ 0) :
    visited buffer size (fuel + 2) tmp remaining = [tmp, lastByte buffer size] := by
  rw [visited, if_neg htmp, if_neg (by omega), if_neg (by omega), visited_done hlast]

lemma visited_covers (fuel : Nat) (htotal : tmp + remaining = buffer + size)
    (hpos : 0 < tmp) (huser : tmp < physBase) (hremaining : 0 < remaining) (hsize : 0 < size)
    (hfuel : remaining / pgSize + 2 ≤ fuel) {i : Nat} (hi : i < remaining) :
    (∃ a ∈ visited buffer size fuel tmp remaining, pgNo a = pgNo (tmp + i)) ∨
      ∃ a ∈ visited buffer size fuel tmp remaining, physBase ≤ a := by
  simp only [pgSize] at hfuel
  induction fuel generalizing tmp remaining i with
  | zero => omega
  | succ fuel ih =>
    obtain ⟨fuel, rfl⟩ : ∃ n, fuel = n + 1 := ⟨fuel - 1, by omega⟩
    by_cases hlong : pgSize < remaining
    · rw [visited_long (by omega) hlong]
      simp only [mem_cons, exists_eq_or_imp]
      simp only [pgNo, pgSize, physBase] at huser hlong ih ⊢
      rw [ptrAdd_eq (by omega)]
      by_cases hfirst : tmp / 4096 = (tmp + i) / 4096
      · exact .inl (.inl hfirst)
      by_cases hnext : tmp + 4096 < 3221225472
      · -- a byte of the next page, or one further on
        obtain ⟨j, hj, hpage⟩ : ∃ j < remaining - 4096,
            (tmp + 4096 + j) / 4096 = (tmp + i) / 4096 := by
          by_cases hfar : 4096 ≤ i
          · exact ⟨i - 4096, by omega, by omega⟩
          · exact ⟨0, by omega, by omega⟩
        have hrest := ih (by omega) (by omega) hnext (by omega) (by omega) hj
        rw [hpage] at hrest
        rcases hrest with h | h
        · exact .inl (.inr h)
        · exact .inr (.inr h)
      · refine .inr (.inr ⟨tmp + 4096, ?_, by omega⟩)
        rw [visited, if_neg (by omega)]
        exact mem_cons_self
    · have hbound : lastByte buffer size = buffer + size - 1 := by
        simp only [pgSize, physBase] at huser hlong
        exact lastByte_eq hsize (by omega)
      rw [visited_short (by omega) hremaining (by omega) (by omega), hbound]
      simp only [mem_cons, exists_eq_or_imp, not_mem_nil, or_false, pgNo]
      simp only [pgSize] at hlong ⊢
      refine .inl ?_
      by_cases hfirst : tmp / 4096 = (tmp + i) / 4096
      · exact .inl hfirst
      · exact .inr ⟨_, rfl, by omega⟩

lemma visited_inside (fuel : Nat) (htotal : tmp + remaining = buffer + size)
    (hpos : 0 < tmp) (hle : buffer ≤ tmp) (hend : buffer + size ≤ physBase)
    (hremaining : 0 < remaining) {a : Nat} (ha : a ∈ visited buffer size fuel tmp remaining) :
    buffer ≤ a ∧ a < buffer + size := by
  induction fuel generalizing tmp remaining with
  | zero => simp [visited] at ha
  | succ fuel ih =>
    have hbound : lastByte buffer size = buffer + size - 1 := by
      simp only [physBase] at hend
      exact lastByte_eq (by omega) (by omega)
    rw [visited, if_neg (by omega), mem_cons] at ha
    rcases ha with rfl | ha
    · omega
    by_cases hlong : pgSize < remaining
    · rw [if_pos hlong, ptrAdd_eq (by simp only [physBase, pgSize] at hend hlong ⊢; omega)] at ha
      exact ih (by omega) (by omega) (by omega) (by omega) ha
    rw [if_neg hlong, if_neg (by omega), hbound] at ha
    cases fuel with
    | zero => simp [visited] at ha
    | succ fuel =>
      rw [visited_done (by omega), mem_singleton] at ha
      omega

lemma mem_bufferAddresses (hpos : 0 < buffer) (hend : buffer + size ≤ physBase) {a : Nat}
    (ha : a ∈ bufferAddresses buffer size) : a = buffer ∨ ∃ i < size, a = buffer + i := by
  rcases Nat.eq_zero_or_pos size with rfl | hsize
  · rw [bufferAddresses, visited_done (by omega), mem_singleton] at ha
    exact .inl ha
  have hinside := visited_inside _ rfl hpos le_rfl hend hsize ha
  exact .inr ⟨a - buffer, by omega, by omega⟩

end Addresses

section

variable {k : Kernel} {address buffer size : Nat}

def Valid (k : Kernel) (address : Nat) : Prop :=
  address ≠ 0 ∧ address < physBase ∧ maps k (pgNo address) = true

instance (k : Kernel) (address : Nat) : Decidable (Valid k address) := by
  unfold Valid
  infer_instance

lemma wp_pagedirGetPage_isSome (hrun : Running k) (huser : address < physBase)
    (Q : Bool → Kernel → Prop) : wp (pagedirGetPage address) (fun pte t => Q pte.isSome t) k ↔
      Q (maps k (pgNo address)) k := by
  obtain ⟨process, pd, hproc, hpd⟩ := hrun
  rw [wp_pagedirGetPage hproc hpd huser]
  simp [maps, hproc, hpd, PageTable.toPagedir]

lemma wp_validPtr (hrun : Running k) (address : Nat) (Q : Bool → Kernel → Prop) :
    wp (validPtr address) Q k ↔ Q (decide (Valid k address)) k := by
  rw [validPtr]
  by_cases h : address ≠ 0 ∧ address < physBase
  · rw [if_pos h, wp_bind]
    simp only [wp_pure]
    rw [wp_pagedirGetPage_isSome hrun h.2]
    simp [Valid, h]
  · rw [if_neg h, wp_pure, decide_eq_false fun hvalid => h ⟨hvalid.1, hvalid.2.1⟩]

/-- With fuel for a round on each page, one at the last byte and one at the null pointer, the loop
is a walk over the addresses that it looks at. -/
lemma wp_validateLoop (fuel : Nat) (Q : Option Bool → Kernel → Prop) {bufferTmp bufferSize : Nat}
    {k : Kernel} (hrun : Running k) (hfuel : (bufferSize + (pgSize - 1)) / pgSize + 2 ≤ fuel) :
    wp (validateLoop buffer size fuel bufferTmp bufferSize) Q k ↔
      wp (walk validPtr (visited buffer size fuel bufferTmp bufferSize))
        (fun accepted t => Q (some accepted) t) k := by
  simp only [pgSize] at hfuel
  induction fuel generalizing bufferTmp bufferSize with
  | zero => omega
  | succ fuel ih =>
    rw [validateLoop, visited]
    by_cases hnull : bufferTmp = 0
    · rw [if_pos hnull, if_pos hnull]
      rfl
    rw [if_neg hnull, if_neg hnull, walk, wp_bind, wp_bind, wp_validPtr hrun, wp_validPtr hrun]
    by_cases hvalid : Valid k bufferTmp
    · rw [decide_eq_true hvalid, if_pos rfl, if_pos rfl]
      by_cases hlong : pgSize < bufferSize
      · rw [if_pos hlong, if_pos hlong]
        simp only [pgSize] at hlong ⊢
        exact ih (by omega)
      rw [if_neg hlong, if_neg hlong]
      by_cases hdone : bufferSize = 0
      · -- one more round sees the null pointer
        obtain ⟨fuel, rfl⟩ : ∃ n, fuel = n + 1 := ⟨fuel - 1, by omega⟩
        rw [if_pos hdone, if_pos hdone, validateLoop, if_pos rfl]
        rfl
      · rw [if_neg hdone, if_neg hdone]
        exact ih (by omega)
    · rw [decide_eq_false hvalid, if_neg Bool.false_ne_true, if_neg Bool.false_ne_true]
      rfl

lemma wp_walk_validPtr (addresses : List Nat) (hrun : Running k) (Q : Bool → Kernel → Prop) :
    wp (walk validPtr addresses) Q k ↔ Q (decide (∀ a ∈ addresses, Valid k a)) k := by
  induction addresses with
  | nil => simp [walk]
  | cons address rest ih =>
    rw [walk, wp_bind, wp_validPtr hrun]
    by_cases hvalid : Valid k address
    · rw [decide_eq_true hvalid, if_pos rfl, ih]
      simp [hvalid]
    · rw [decide_eq_false hvalid, if_neg Bool.false_ne_true]
      simp [hvalid]

lemma valid_bufferAddresses_iff (hnull : buffer ≠ 0) :
    (∀ a ∈ bufferAddresses buffer size, Valid k a) ↔ ReadableBuffer k buffer size := by
  constructor
  · intro hall
    have hfirst : Valid k buffer := by
      apply hall
      rw [bufferAddresses, visited, if_neg hnull]
      exact mem_cons_self
    refine ⟨hfirst.2, fun i hi => ?_⟩
    rcases visited_covers (size / pgSize + 3) rfl (Nat.pos_of_ne_zero hnull) hfirst.2.1 (by omega)
      (by omega) (by omega) hi with ⟨a, ha, hpage⟩ | ⟨a, ha, hout⟩
    · obtain ⟨-, hlow, hmaps⟩ := hall a ha
      rw [Readable, ← hpage]
      refine ⟨?_, hmaps⟩
      simp only [pgNo, pgSize, physBase] at hpage hlow ⊢
      omega
    · exact absurd (hall a ha).2.1 (by omega)
  · rintro ⟨hfirst, hall⟩ a ha
    have hend : buffer + size ≤ physBase := by
      rcases Nat.eq_zero_or_pos size with rfl | hsize
      · exact hfirst.1.le
      have := (hall (size - 1) (by omega)).1
      omega
    rcases mem_bufferAddresses (Nat.pos_of_ne_zero hnull) hend ha with rfl | ⟨i, hi, rfl⟩
    · exact ⟨hnull, hfirst⟩
    · exact ⟨by omega, hall i hi⟩

lemma rounds_le (size : Nat) : (size + (pgSize - 1)) / pgSize + 2 ≤ size / pgSize + 3 := by
  simp only [pgSize]
  omega

/-- The loop ends with the right decision, before anything is written, exactly if the buffer is not
the null pointer or all of it is mapped there. -/
theorem validateLoop_decides_iff (hrunning : Running k) :
    wp (validateLoop buffer size (size / pgSize + 3) buffer size)
        (fun accepted t => accepted = some (decide (ReadableBuffer k buffer size)) ∧ t = k) k ↔
      (buffer = 0 → ReadableBuffer k buffer size) := by
  rw [wp_validateLoop _ _ hrunning (rounds_le size), wp_walk_validPtr _ hrunning]
  by_cases hnull : buffer = 0
  · subst hnull
    have hempty : visited 0 size (size / pgSize + 3) 0 size = [] := by rw [visited, if_pos rfl]
    simp [hempty]
  have hiff : (∀ a ∈ visited buffer size (size / pgSize + 3) buffer size, Valid k a) ↔
      ReadableBuffer k buffer size := valid_bufferAddresses_iff hnull
  simp [hnull, hiff]

end

section Null

attribute [local irreducible] wp

def stackPage : Kernel :=
  newProcess.setAllList [(Process.new 3).setPagedir (some (PageTable.empty.add 0xBFFFF 0 true))]

theorem validateLoop_on_stackPage : wp (validateLoop 0xBFFFF900 16 (16 / pgSize + 3) 0xBFFFF900 16)
      (fun accepted t =>
        accepted = some (decide (ReadableBuffer stackPage 0xBFFFF900 16)) ∧ t = stackPage)
      stackPage :=
  (validateLoop_decides_iff ⟨_, _, rfl, rfl⟩).mpr (by decide)

/-- The null pointer is not looked at: the write starts with a buffer that is not mapped. -/
theorem validateLoop_null : Running stackPage ∧ ¬ Readable stackPage 0 ∧
      wp (validateLoop 0 5 (5 / pgSize + 3) 0 5) (fun accepted _ => accepted = some true)
        stackPage ∧ ¬ wp (validateLoop 0 5 (5 / pgSize + 3) 0 5)
        (fun accepted t => accepted = some (decide (ReadableBuffer stackPage 0 5)) ∧ t = stackPage)
        stackPage := by
  have hbad : ¬ Readable stackPage 0 := by decide +kernel
  have hruns : wp (validateLoop 0 5 (5 / pgSize + 3) 0 5)
      (fun accepted _ => accepted = some true) stackPage := by decide +kernel
  refine ⟨⟨_, _, rfl, rfl⟩, hbad, hruns, fun h => ?_⟩
  obtain ⟨_, _, hrun, rfl⟩ := wp_iff.mp hruns
  rw [wp_of_ok hrun, decide_eq_false fun hall => hbad hall.1] at h
  simp at h

end Null

/-! ## Reading from the console -/

structure Console where
  memory : Memory
  input : List Byte

/-- The loop of the `STDIN_FILENO` branch.  It ends with the value of `counter`; no result means
that `input_getc` waits for a key. -/
def stdinLoop (buf : Nat) : Nat → Console → Option (Nat × Console)
  | counter + 2, s =>
    match s.input with
    | [] => none
    | c :: input =>
      -- `buf` stays where it is
      if c ≠ 0 then stdinLoop buf (counter + 1) ⟨update s.memory buf c, input⟩
      else some (counter + 2, ⟨s.memory, input⟩)
  | counter, s => some (counter, s)

/-- `sys_read (STDIN_FILENO, buffer, size)` after the checks. -/
def sysReadStdin (buffer size : Nat) (s : Console) : Option (Nat × Console) :=
  (stdinLoop buffer size s).map fun (counter, t) =>
    (size - counter, { t with memory := update t.memory buffer 0 })

structure Delivers (buffer size : Nat) (s : Console) (n : Nat) (t : Console) : Prop where
  stored : ∀ i < n, s.input[i]? = some (t.memory (buffer + i))
  consumed : t.input = s.input.drop n ∨ s.input[n]? = some 0 ∧ t.input = s.input.drop (n + 1)
  outside : ∀ a, ¬ (buffer ≤ a ∧ a < buffer + size) → t.memory a = s.memory a

section

variable {buffer size : Nat} {s t : Console}

lemma stdinLoop_counter_le {counter counter' : Nat}
    (h : stdinLoop buffer counter s = some (counter', t)) : counter' ≤ counter := by
  induction counter, s using stdinLoop.induct buffer with
  | case1 counter s hinput => simp [stdinLoop, hinput] at h
  | case2 counter s c input hinput hc ih =>
    simp only [stdinLoop, hinput, if_pos hc] at h
    have := ih h
    omega
  | case3 counter s c input hinput hc =>
    simp only [stdinLoop, hinput, if_neg hc, some.injEq, Prod.mk.injEq] at h
    omega
  | case4 counter s hshort =>
    rw [stdinLoop] at h
    · simp only [some.injEq, Prod.mk.injEq] at h
      omega
    · exact hshort

lemma sysReadStdin_short (h : size < 2) :
    sysReadStdin buffer size s = some (0, ⟨update s.memory buffer 0, s.input⟩) := by
  rw [sysReadStdin, stdinLoop]
  · simp
  intro counter
  omega

/-- The call delivers what was typed exactly if it has nothing to deliver. -/
theorem sysReadStdin_delivers_iff {n : Nat} (h : sysReadStdin buffer size s = some (n, t)) :
    Delivers buffer size s n t ↔
      size = 0 ∧ s.memory buffer = 0 ∨ size = 1 ∨ 2 ≤ size ∧ s.input.head? = some 0 := by
  match size with
  | 0 =>
    rw [sysReadStdin_short (by omega), some.injEq, Prod.mk.injEq] at h
    obtain ⟨rfl, rfl⟩ := h
    constructor
    · intro hd
      have hsame := hd.outside buffer (by omega)
      simp only [update_self] at hsame
      exact .inl ⟨rfl, hsame.symm⟩
    intro hcases
    have hzero : s.memory buffer = 0 := by
      rcases hcases with ⟨-, hzero⟩ | h | ⟨h, -⟩
      · exact hzero
      · omega
      · omega
    refine ⟨by simp, .inl rfl, fun a _ => ?_⟩
    by_cases ha : a = buffer
    · simp only [ha, update_self, hzero]
    · exact update_of_ne ha _ _
  | 1 =>
    rw [sysReadStdin_short (by omega), some.injEq, Prod.mk.injEq] at h
    obtain ⟨rfl, rfl⟩ := h
    refine iff_of_true ⟨by simp, .inl rfl, fun a ha => ?_⟩ (.inr (.inl rfl))
    exact update_of_ne (by omega) _ _
  | size + 2 =>
    rw [sysReadStdin, Option.map_eq_some_iff] at h
    obtain ⟨⟨counter, u⟩, hloop, heq⟩ := h
    simp only [Prod.mk.injEq] at heq
    obtain ⟨rfl, rfl⟩ := heq
    cases hinput : s.input with
    | nil => simp [stdinLoop, hinput] at hloop
    | cons c input =>
      by_cases hc : c = 0
      · -- the zero byte is read and ends the loop at once
        subst hc
        simp only [stdinLoop, hinput, ne_eq, not_true_eq_false, if_false, some.injEq,
          Prod.mk.injEq] at hloop
        obtain ⟨rfl, rfl⟩ := hloop
        refine iff_of_true ⟨by simp, .inr ?_, fun a ha => ?_⟩ (.inr (.inr ⟨by omega, rfl⟩))
        · simp [hinput]
        · exact update_of_ne (by omega) _ _
      -- a key is counted, but its place is overwritten by the final zero
      simp only [stdinLoop, hinput, ne_eq, hc, not_false_eq_true, if_true] at hloop
      have hle := stdinLoop_counter_le hloop
      refine iff_of_false (fun hd => ?_) (by simp [hc])
      have hfirst := hd.stored 0 (by omega)
      simp only [hinput, Nat.add_zero, update_self, List.getElem?_cons_zero, some.injEq] at hfirst
      exact hc hfirst

end

def typedHi : Console := ⟨fun _ => 0, [104, 105]⟩

/-- Two keys are reported as read, and the buffer holds none of them. -/
theorem sysReadStdin_hi : ∃ t, sysReadStdin 0x1000 3 typedHi = some (2, t) ∧
    t.memory 0x1000 = 0 ∧ t.memory 0x1001 = 0 ∧ ¬ Delivers 0x1000 3 typedHi 2 t := by
  refine ⟨_, rfl, rfl, rfl, fun hd => ?_⟩
  have hfirst := hd.stored 0 (by omega)
  revert hfirst
  decide

theorem sysReadStdin_zero : ∃ t, sysReadStdin 0x1000 3 ⟨fun _ => 7, [0, 105]⟩ = some (0, t) ∧
    Delivers 0x1000 3 ⟨fun _ => 7, [0, 105]⟩ 0 t :=
  ⟨_, rfl, (sysReadStdin_delivers_iff rfl).mpr (.inr (.inr ⟨by decide, rfl⟩))⟩

end Pintos.Userprog
