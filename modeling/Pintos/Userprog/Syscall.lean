import Pintos.Userprog.Pagedir

/-!
# System calls: the user's stubs and the kernel's dispatcher

`lib/user/syscall.c` pushes the arguments of a call and then its number;
`syscall_handler` finds them again from the stack pointer.  The dispatcher is an
action over the list of pointers it has checked, so that what it validates can be
compared with what the stub pushed.  It stops at a byte it cannot load.
-/

namespace Pintos.Userprog

open Foundation

variable {k : Nat}

inductive Syscall where
  | halt | exit | exec | wait | create | remove | open | filesize | read | write
  | seek | tell | close | mmap | munmap
  deriving DecidableEq, Repr

namespace Syscall

/-- `lib/syscall-nr.h`. -/
def number : Syscall → Nat
  | halt => 0 | exit => 1 | exec => 2 | wait => 3 | create => 4 | remove => 5 | «open» => 6
  | filesize => 7 | read => 8 | write => 9 | seek => 10 | tell => 11 | close => 12
  | mmap => 13 | munmap => 14

def ofNumber : Nat → Option Syscall
  | 0 => some halt | 1 => some exit | 2 => some exec | 3 => some wait | 4 => some create
  | 5 => some remove | 6 => some «open» | 7 => some filesize | 8 => some read
  | 9 => some write | 10 => some seek | 11 => some tell | 12 => some close
  | 13 => some mmap | 14 => some munmap | _ => none

@[simp] lemma ofNumber_number (call : Syscall) : ofNumber call.number = some call := by
  cases call <;> rfl

def arity : Syscall → Nat
  | halt => 0
  | exit | exec | wait | remove | «open» | filesize | tell | close | munmap => 1
  | create | seek | mmap => 2
  | read | write => 3

end Syscall

/-! ## The stubs -/

structure Stack where
  esp : Nat
  memory : Memory

def Stack.push (word : Nat) (s : Stack) : Stack where
  esp := s.esp - 4
  memory := copy s.memory (s.esp - 4) (wordByte word) 0 4

def Stack.pushAll : List Nat → Stack → Stack
  | [], s => s
  | word :: words, s => (pushAll words s).push word

/-- The macros `syscall0` to `syscall3` up to `int $0x30`: the last argument is pushed first. -/
def Syscall.stub (call : Syscall) (args : List Nat) (s : Stack) : Stack :=
  s.pushAll (call.number :: args)

namespace Stack

lemma pushAll_esp (words : List Nat) (s : Stack) :
    (s.pushAll words).esp = s.esp - 4 * words.length := by
  induction words with
  | nil => rfl
  | cons word words ih =>
    simp only [pushAll, push, ih, length_cons]
    omega

lemma pushAll_word (words : List Nat) (s : Stack) (hroom : 4 * words.length ≤ s.esp)
    (hwords : ∀ word ∈ words, word < 2 ^ 32) (hk : k < words.length) :
    words[k]? = some (word32 (s.pushAll words).memory ((s.pushAll words).esp + 4 * k)) := by
  induction words generalizing k with
  | nil => simp at hk
  | cons word words ih =>
    simp only [length_cons] at hroom hk
    have hesp := pushAll_esp words s
    cases k with
    | zero =>
      have hword : word32 (s.pushAll (word :: words)).memory (s.pushAll (word :: words)).esp =
          word := by
        refine word32_of_wordBytes (hwords word (by simp)) fun k hk => ?_
        simp only [pushAll, push]
        rw [copy_inside _ _ _ (by omega) (by omega)]
        congr 1
        omega
      simp [hword]
    | succ k =>
      have hrest := ih (by omega) (fun w hw => hwords w (by simp [hw])) (Nat.lt_of_succ_lt_succ hk)
      rw [List.getElem?_cons_succ, hrest]
      congr 1
      refine word32_congr fun j hj => ?_
      simp only [pushAll, push]
      rw [copy_outside _ _ _ (by omega)]
      congr 1
      omega

end Stack

/-! ## The dispatcher -/

/-- A pointer given to `is_valid_ptr`: the address of a stack word, or the value of one. -/
inductive Check where
  | word (address : Nat)
  | pointee (address : Nat)
  deriving DecidableEq, Repr

def Check.address : Check → Nat
  | word address => address
  | pointee address => address

inductive Stop where
  | load (address : Nat)
  | fault (fault : Fault)
  deriving DecidableEq, Repr

inductive Outcome where
  | invokes (call : Syscall) (args : List Nat)
  | exits (status : Int)
  deriving DecidableEq, Repr

abbrev Handler := Action (List Check) Stop

section

variable (pd : Pagedir) (m : Memory)

def check (pointer : Check) : Handler Bool := do
  Action.modify (· ++ [pointer])
  Action.ofExcept ((isValidPtr pd pointer.address).mapError .fault)

/-- `if (!is_valid_ptr (pointer)) sys_exit (-1);` before the statements `rest`. -/
def validate (pointer : Check) (rest : Handler Outcome) : Handler Outcome := do
  if ← check pd pointer then rest else return .exits (-1)

def load (address : Nat) : Handler Byte := do
  require (pd.Maps address) (.load address)
  return m address

/-- The word `*address`. -/
def loadWord (address : Nat) : Handler Nat := do
  let _ ← load pd m address
  let _ ← load pd m (address + 1)
  let _ ← load pd m (address + 2)
  let _ ← load pd m (address + 3)
  return word32 m address

/-- The address `esp + k`, where `esp` points to words. -/
def argAddress (esp k : Nat) : Nat := ptrAdd esp (4 * k)

def validateArg (esp k : Nat) (rest : Handler Outcome) : Handler Outcome :=
  validate pd (.word (argAddress esp k)) rest

def arg (esp k : Nat) : Handler Nat := loadWord pd m (argAddress esp k)

/-- A case that passes on the word at `esp + 1`. -/
def oneWord (esp : Nat) (call : Syscall) : Handler Outcome :=
  validateArg pd esp 1 do
    let word ← arg pd m esp 1
    return .invokes call [word]

def oneString (esp : Nat) (call : Syscall) : Handler Outcome :=
  validateArg pd esp 1 do
    let string ← arg pd m esp 1
    validate pd (.pointee string) do
      let string ← arg pd m esp 1
      return .invokes call [string]

def handleCreate (esp : Nat) : Handler Outcome :=
  validateArg pd esp 5 <| validateArg pd esp 4 do
    let file ← arg pd m esp 4
    validate pd (.pointee file) do
      let file ← arg pd m esp 4
      let initialSize ← arg pd m esp 5
      return .invokes .create [file, initialSize]

def handleRemove (esp : Nat) : Handler Outcome :=
  validateArg pd esp 4 do
    let word ← arg pd m esp 4
    validate pd (.pointee word) do
      let file ← arg pd m esp 1
      return .invokes .remove [file]

/-- `buffer + size - 1` in 32 bits. -/
@[irreducible] def lastByte (buffer size : Nat) : Nat :=
  if buffer + size = 0 then 0xFFFFFFFF else (buffer + size - 1) % 2 ^ 32

/-- The `else` branch of `SYS_WRITE` and `SYS_READ`, which checks the buffer once more. -/
def rejectTransfer (esp : Nat) : Handler Outcome := do
  let buffer ← arg pd m esp 6
  let _ ← check pd (.pointee buffer)
  let buffer ← arg pd m esp 6
  let size ← arg pd m esp 7
  let _ ← check pd (.pointee (lastByte buffer size))
  return .exits (-1)

def handleTransfer (esp : Nat) (call : Syscall) : Handler Outcome :=
  validateArg pd esp 5 <| validateArg pd esp 6 <| validateArg pd esp 7 do
    let buffer ← arg pd m esp 6
    if ← check pd (.pointee buffer) then
      let buffer ← arg pd m esp 6
      let size ← arg pd m esp 7
      if ← check pd (.pointee (lastByte buffer size)) then
        let fd ← arg pd m esp 5
        let buffer ← arg pd m esp 6
        let size ← arg pd m esp 7
        return .invokes call [fd, buffer, size]
      else rejectTransfer pd m esp
    else rejectTransfer pd m esp

def handleSeek (esp : Nat) : Handler Outcome :=
  validateArg pd esp 4 <| validateArg pd esp 5 do
    let fd ← arg pd m esp 4
    let position ← arg pd m esp 5
    return .invokes .seek [fd, position]

def dispatch (esp : Nat) : Syscall → Handler Outcome
  | .halt => return .invokes .halt []
  | .exit => oneWord pd m esp .exit
  | .wait => oneWord pd m esp .wait
  | .create => handleCreate pd m esp
  | .remove => handleRemove pd m esp
  | .write => handleTransfer pd m esp .write
  | .read => handleTransfer pd m esp .read
  | .seek => handleSeek pd m esp
  | .tell => oneWord pd m esp .tell
  | .exec => oneString pd m esp .exec
  | .open => oneString pd m esp .open
  | .filesize => oneWord pd m esp .filesize
  | .close => oneWord pd m esp .close
  | .mmap => do
    let fd ← arg pd m esp 1
    let addr ← arg pd m esp 2
    return .invokes .mmap [fd, addr]
  | .munmap => do
    let mapping ← arg pd m esp 1
    return .invokes .munmap [mapping]

def syscallHandler (esp : Nat) : Handler Outcome :=
  validate pd (.word esp) do
    let number ← loadWord pd m esp
    match Syscall.ofNumber number with
    | some call => dispatch pd m esp call
    | none => return .exits (-1)

end

/-! ## Rules for the dispatcher's steps -/

section

variable {pd : Pagedir} {m : Memory} {checks : List Check}

lemma wp_check (pointer : Check) (Q : Bool → List Check → Prop) : wp (check pd pointer) Q checks ↔
      Q (decide (ValidPtr pd pointer.address)) (checks ++ [pointer]) := by
  simp only [check, isValidPtr_eq, Except.mapError, wp_bind, wp_modify]
  exact wp_ofExcept rfl Q _

lemma wp_validate (pointer : Check) (rest : Handler Outcome) (Q : Outcome → List Check → Prop) :
    wp (validate pd pointer rest) Q checks ↔
      if ValidPtr pd pointer.address then wp rest Q (checks ++ [pointer])
      else Q (.exits (-1)) (checks ++ [pointer]) := by
  simp only [validate, wp_bind, wp_check]
  by_cases h : ValidPtr pd pointer.address <;> simp [h]

-- Stated for each kind of pointer, so that `Check.address` never has to be unfolded.
@[simp] lemma wp_check_pointee (address : Nat) (Q : Bool → List Check → Prop) :
    wp (check pd (.pointee address)) Q checks ↔
      Q (decide (ValidPtr pd address)) (checks ++ [.pointee address]) :=
  wp_check _ Q

@[simp] lemma wp_validate_word (address : Nat) (rest : Handler Outcome)
    (Q : Outcome → List Check → Prop) : wp (validate pd (.word address) rest) Q checks ↔
      if ValidPtr pd address then wp rest Q (checks ++ [.word address])
      else Q (.exits (-1)) (checks ++ [.word address]) :=
  wp_validate _ rest Q

@[simp] lemma wp_validate_pointee (address : Nat) (rest : Handler Outcome)
    (Q : Outcome → List Check → Prop) : wp (validate pd (.pointee address) rest) Q checks ↔
      if ValidPtr pd address then wp rest Q (checks ++ [.pointee address])
      else Q (.exits (-1)) (checks ++ [.pointee address]) :=
  wp_validate _ rest Q

@[simp] lemma wp_load (address : Nat) (Q : Byte → List Check → Prop) :
    wp (load pd m address) Q checks ↔ pd.Maps address ∧ Q (m address) checks := by
  simp [load]

def Pagedir.MapsWord (pd : Pagedir) (address : Nat) : Prop := ∀ k < 4, pd.Maps (address + k)

lemma Pagedir.mapsWord_iff (pd : Pagedir) (address : Nat) : pd.MapsWord address ↔
    pd.Maps address ∧ pd.Maps (address + 1) ∧ pd.Maps (address + 2) ∧ pd.Maps (address + 3) := by
  constructor
  · intro h
    exact ⟨h 0 (by omega), h 1 (by omega), h 2 (by omega), h 3 (by omega)⟩
  · rintro ⟨h0, h1, h2, h3⟩ k hk
    obtain rfl | rfl | rfl | rfl : k = 0 ∨ k = 1 ∨ k = 2 ∨ k = 3 := by omega
    all_goals assumption

@[simp] lemma wp_loadWord (address : Nat) (Q : Nat → List Check → Prop) :
    wp (loadWord pd m address) Q checks ↔ pd.MapsWord address ∧ Q (word32 m address) checks := by
  simp [loadWord, Pagedir.mapsWord_iff, and_assoc]

@[simp] lemma wp_validateArg (esp k : Nat) (rest : Handler Outcome)
    (Q : Outcome → List Check → Prop) : wp (validateArg pd esp k rest) Q checks ↔
      if ValidPtr pd (argAddress esp k) then
        wp rest Q (checks ++ [.word (argAddress esp k)])
      else Q (.exits (-1)) (checks ++ [.word (argAddress esp k)]) :=
  wp_validate_word _ rest Q

@[simp] lemma wp_arg (esp k : Nat) (Q : Nat → List Check → Prop) : wp (arg pd m esp k) Q checks ↔
      pd.MapsWord (argAddress esp k) ∧ Q (word32 m (argAddress esp k)) checks :=
  wp_loadWord _ Q

end

/-! ## Encoder and decoder -/

def Syscall.pointers : Syscall → List Nat → List Nat
  | exec, [cmdline] => [cmdline]
  | create, [file, _] => [file]
  | remove, [file] => [file]
  | «open», [file] => [file]
  | read, [_, buffer, size] => [buffer, lastByte buffer size]
  | write, [_, buffer, size] => [buffer, lastByte buffer size]
  | _, _ => []

/-- The stack at `int $0x30`: the number of the call and its arguments from `esp` up, anything
above them, all of it mapped.  Nothing ever maps page 0. -/
structure Pushed (pd : Pagedir) (m : Memory) (esp : Nat) (call : Syscall) (args : List Nat) :
    Prop where
  arity : args.length = call.arity
  room : esp + 4 * (args.length + 1) ≤ physBase
  nullPage : pd 0 = none
  mapped : ∀ address, esp ≤ address → address < physBase → pd.Maps address
  number : word32 m esp = call.number
  words : ∀ k < args.length, args[k]? = some (word32 m (esp + 4 * (k + 1)))

def requested (pd : Pagedir) (call : Syscall) (args : List Nat) : Outcome :=
  if ∀ pointer ∈ call.pointers args, ValidPtr pd pointer then .invokes call args else .exits (-1)

def pushedWords (esp : Nat) (args : List Nat) : List Nat :=
  (List.range (args.length + 1)).map fun k => esp + 4 * k

/-- The dispatcher does what the stub asks for and checks the words it pushed, no others. -/
def Agrees (pd : Pagedir) (m : Memory) (esp : Nat) (call : Syscall) (args : List Nat) : Prop :=
  wp (syscallHandler pd m esp) (fun outcome checks => outcome = requested pd call args ∧
      ∀ address, .word address ∈ checks ↔ address ∈ pushedWords esp args) []

def Syscall.decoded : List Syscall := [halt, exit, exec, wait, «open», filesize, tell, close]

namespace Pushed

variable {pd : Pagedir} {m : Memory} {esp : Nat} {call : Syscall} {args : List Nat}

section

variable (h : Pushed pd m esp call args)

include h

lemma argAddress_eq (hk : k ≤ 7) : argAddress esp k = esp + 4 * k := by
  have := h.room
  simp only [argAddress, ptrAdd, physBase] at *
  omega

lemma mapsWord (hk : k ≤ args.length) : pd.MapsWord (esp + 4 * k) := by
  intro j hj
  have := h.room
  exact h.mapped _ (by omega) (by omega)

lemma valid (hk : k ≤ args.length) : ValidPtr pd (esp + 4 * k) := by
  have hmaps := h.mapsWord hk 0 (by omega)
  refine ⟨fun hnull => ?_, hmaps⟩
  rw [hnull] at hmaps
  simp [Pagedir.Maps, pgNo, h.nullPage] at hmaps

lemma wp_handler (Q : Outcome → List Check → Prop) :
    wp (syscallHandler pd m esp) Q [] ↔ wp (dispatch pd m esp call) Q [.word esp] := by
  have hvalid : ValidPtr pd esp := h.valid (Nat.zero_le _)
  have hmaps : pd.MapsWord esp := h.mapsWord (Nat.zero_le _)
  simp [syscallHandler, hvalid, hmaps, h.number]

lemma agrees_oneWord {word : Nat} (hargs : args = [word])
    (hdispatch : dispatch pd m esp call = oneWord pd m esp call)
    (hpointers : call.pointers args = []) : Agrees pd m esp call args := by
  subst hargs
  have hword : word = word32 m (esp + 4) := by simpa using h.words 0 (by simp)
  have hvalid : ValidPtr pd (esp + 4) := h.valid (k := 1) (by simp)
  have hmaps : pd.MapsWord (esp + 4) := h.mapsWord (k := 1) (by simp)
  rw [Agrees, h.wp_handler, hdispatch]
  simp [oneWord, h.argAddress_eq, hvalid, hmaps, requested, hpointers, pushedWords,
    range_succ, ← hword]

lemma agrees_oneString {word : Nat} (hargs : args = [word])
    (hdispatch : dispatch pd m esp call = oneString pd m esp call)
    (hpointers : call.pointers args = [word]) : Agrees pd m esp call args := by
  subst hargs
  have hword : word = word32 m (esp + 4) := by simpa using h.words 0 (by simp)
  have hvalid : ValidPtr pd (esp + 4) := h.valid (k := 1) (by simp)
  have hmaps : pd.MapsWord (esp + 4) := h.mapsWord (k := 1) (by simp)
  rw [Agrees, h.wp_handler, hdispatch]
  by_cases hpointee : ValidPtr pd word <;>
    simp [oneString, h.argAddress_eq, hvalid, hmaps, requested, hpointers, pushedWords,
      range_succ, ← hword, hpointee]

end

lemma mem_pushedWords (esp : Nat) (args : List Nat) (k : Nat) :
    esp + 4 * k ∈ pushedWords esp args ↔ k ≤ args.length := by
  simp only [pushedWords, mem_map, mem_range]
  constructor
  · rintro ⟨j, hj, heq⟩
    omega
  · intro hk
    exact ⟨k, by omega, rfl⟩

lemma not_agrees_of_checked (h : Pushed pd m esp call args) (hk : args.length < k) (hk' : k ≤ 7)
    (hchecked : ¬ wp (dispatch pd m esp call)
      (fun _ checks => .word (argAddress esp k) ∉ checks) [.word esp]) :
    ¬ Agrees pd m esp call args := by
  intro hagrees
  rw [Agrees, h.wp_handler] at hagrees
  refine hchecked (wp_mono hagrees ?_)
  rintro outcome checks ⟨-, hwords⟩
  rw [hwords, h.argAddress_eq hk', mem_pushedWords]
  omega

lemma not_agrees_of_unchecked (h : Pushed pd m esp call args) (hargs : args ≠ [])
    (hunchecked : ¬ wp (dispatch pd m esp call)
      (fun _ checks => .word (argAddress esp 1) ∈ checks) [.word esp]) :
    ¬ Agrees pd m esp call args := by
  intro hagrees
  rw [Agrees, h.wp_handler] at hagrees
  refine hunchecked (wp_mono hagrees ?_)
  rintro outcome checks ⟨-, hwords⟩
  rw [hwords, h.argAddress_eq (by omega), mem_pushedWords]
  exact List.length_pos_iff.mpr hargs

end Pushed

section

variable {pd : Pagedir} {m : Memory} {esp : Nat} {call : Syscall} {args : List Nat}

lemma Pushed.agrees_iff (h : Pushed pd m esp call args) :
    Agrees pd m esp call args ↔ call ∈ Syscall.decoded := by
  have harity := h.arity
  cases call with
  | halt =>
    have hargs : args = [] := length_eq_zero_iff.mp harity
    subst hargs
    simp only [Agrees, h.wp_handler]
    simp [dispatch, requested, Syscall.pointers, pushedWords, Syscall.decoded]
  | exit | wait | filesize | tell | close =>
    obtain ⟨word, hargs⟩ := List.length_eq_one_iff.mp harity
    exact iff_of_true (h.agrees_oneWord hargs rfl rfl) (by decide)
  | exec | «open» =>
    obtain ⟨word, hargs⟩ := List.length_eq_one_iff.mp harity
    exact iff_of_true (h.agrees_oneString hargs rfl (by rw [hargs]; rfl)) (by decide)
  | create | read | write =>
    refine iff_of_false (h.not_agrees_of_checked (k := 5) ?_ (by omega) ?_) (by decide)
    · simp [harity, Syscall.arity]
    · simp [dispatch, handleCreate, handleTransfer, rejectTransfer]
  | remove | seek =>
    refine iff_of_false (h.not_agrees_of_checked (k := 4) ?_ (by omega) ?_) (by decide)
    · simp [harity, Syscall.arity]
    · simp [dispatch, handleRemove, handleSeek]
  | mmap | munmap =>
    refine iff_of_false (h.not_agrees_of_unchecked ?_ ?_) (by decide)
    · rintro rfl
      simp [Syscall.arity] at harity
    · simp [dispatch, Pushed.argAddress_eq h]

/-- A process about to make `call`: room on the stack for the words the stub pushes, and memory
mapped from there up.  Nothing ever maps page 0. -/
structure Callable (pd : Pagedir) (s : Stack) (call : Syscall) (args : List Nat) : Prop where
  arity : args.length = call.arity
  words : ∀ word ∈ args, word < 2 ^ 32
  top : s.esp ≤ physBase
  room : 4 * (args.length + 1) ≤ s.esp
  nullPage : pd 0 = none
  mapped : ∀ address, s.esp - 4 * (args.length + 1) ≤ address → address < physBase → pd.Maps address

lemma Callable.pushed {s : Stack} (h : Callable pd s call args) :
    Pushed pd (call.stub args s).memory (call.stub args s).esp call args := by
  have htop := h.top
  have hroom := h.room
  have hesp : (call.stub args s).esp = s.esp - 4 * (args.length + 1) := Stack.pushAll_esp _ s
  have hword : ∀ k < args.length + 1, (call.number :: args)[k]? =
      some (word32 (call.stub args s).memory ((call.stub args s).esp + 4 * k)) := by
    intro k hk
    refine Stack.pushAll_word (call.number :: args) s hroom ?_ hk
    have hnum : call.number < 2 ^ 32 := by cases call <;> decide
    simpa using ⟨hnum, h.words⟩
  refine ⟨h.arity, by omega, h.nullPage, by rw [hesp]; exact h.mapped, ?_, fun k hk => ?_⟩
  · have := hword 0 (by omega)
    simpa using this.symm
  · simpa using hword (k + 1) (by omega)

theorem syscallHandler_agrees_iff {s : Stack} (h : Callable pd s call args) :
    Agrees pd (call.stub args s).memory (call.stub args s).esp call args ↔ call ∈ Syscall.decoded :=
  h.pushed.agrees_iff

end

def fullPagedir : Pagedir := fun page => if page = 0 then none else some ⟨page, true, false, false⟩

def zeroStack : Stack := ⟨physBase - 64, fun _ => 0⟩

lemma callable_zeroStack (call : Syscall) {args : List Nat} (harity : args.length = call.arity)
    (hwords : ∀ word ∈ args, word < 2 ^ 32) : Callable fullPagedir zeroStack call args := by
  have hlen : args.length ≤ 3 := by
    rw [harity]
    cases call <;> decide
  refine ⟨harity, hwords, by decide, ?_, rfl, fun address hlow hhigh => ⟨hhigh, ?_⟩⟩
  · simp only [zeroStack, physBase]
    omega
  have hpage : pgNo address ≠ 0 := by
    simp only [zeroStack, physBase, pgNo, pgSize] at *
    omega
  simp [fullPagedir, hpage]

theorem open_agrees_at_zeroStack :
    Agrees fullPagedir (Syscall.stub .open [0x08048000] zeroStack).memory
      (Syscall.stub .open [0x08048000] zeroStack).esp .open [0x08048000] :=
  (syscallHandler_agrees_iff (callable_zeroStack .open rfl (by decide))).mpr (by decide)

/-- `remove` of a good name: the word four places up, which is not an argument, is null. -/
theorem remove_exits_at_zeroStack : Callable fullPagedir zeroStack .remove [0x08048000] ∧
      ValidPtr fullPagedir 0x08048000 ∧
      wp (syscallHandler fullPagedir (Syscall.stub .remove [0x08048000] zeroStack).memory
        (Syscall.stub .remove [0x08048000] zeroStack).esp)
        (fun outcome _ => outcome = .exits (-1)) [] ∧
      ¬ Agrees fullPagedir (Syscall.stub .remove [0x08048000] zeroStack).memory
        (Syscall.stub .remove [0x08048000] zeroStack).esp .remove [0x08048000] := by
  have hcallable : Callable fullPagedir zeroStack .remove [0x08048000] :=
    callable_zeroStack .remove rfl (by decide)
  refine ⟨hcallable, by decide, by decide +kernel, fun hagrees => ?_⟩
  have := hcallable.pushed.agrees_iff.mp hagrees
  simp [Syscall.decoded] at this

end Pintos.Userprog
