import Pintos.Devices.Rtc
import Pintos.Lib.CString
import Pintos.Lib.Debug
import Pintos.Lib.Random

/-!
# Kernel options

`parse_options` of `threads/init.c` with `atoi` of `lib/stdlib.c`.  `clock` is what
`rtc_get_time` returns when the loop is done.
-/

namespace Pintos.Threads

open Foundation Pintos.Random

inductive ShutdownType where
  | none
  | powerOff
  | reboot
  deriving DecidableEq, Repr

structure Options where
  shutdown : ShutdownType
  formatFilesys : Bool
  filesysBdevName : Option (List Byte)
  scratchBdevName : Option (List Byte)
  swapBdevName : Option (List Byte)
  threadMlfqs : Bool
  userPageLimit : Nat
  random : Generator
  deriving DecidableEq, Repr

inductive OptionsStop where
  /-- `-h` prints the usage and turns the machine off. -/
  | usage
  | fault (f : Fault)
  deriving DecidableEq, Repr

def isSpace (c : Byte) : Bool := c = 32 ∨ 9 ≤ c ∧ c ≤ 13

def isDigit (c : Byte) : Bool := 48 ≤ c ∧ c ≤ 57

def atoiDigits (s : List Byte) : Int :=
  (s.takeWhile isDigit).foldl (fun value c => (value * 10 - (c.toNat - 48 : Int)).bmod (2 ^ 32)) 0

def atoi (s : List Byte) : Int :=
  match s.dropWhile isSpace with
  | 43 :: s => (-atoiDigits s).bmod (2 ^ 32)
  | 45 :: s => atoiDigits s
  | s => (-atoiDigits s).bmod (2 ^ 32)

def toUnsigned (n : Int) : Nat := (n % 2 ^ 32).toNat

def optionName (arg : List Byte) : List Byte := arg.takeWhile (· ≠ 61)

/-- What `strtok_r (NULL, "", &save_ptr)` finds behind the first `=`, if anything. -/
def optionValue (arg : List Byte) : Option (List Byte) :=
  match (arg.dropWhile (· ≠ 61)).tail with
  | [] => none
  | value => some value

def atoiOption (value : Option (List Byte)) : Except OptionsStop Nat :=
  match value with
  | none => .error (.fault (.assertion "s != NULL"))
  | some s => .ok (toUnsigned (atoi s))

inductive OptionKind where
  | h
  | q
  | r
  | f
  | filesys
  | scratch
  | swap
  | rs
  | mlfqs
  | ul
  deriving DecidableEq, Repr

/-- The names in the order of the calls of `strcmp`. -/
def optionNames : List (List Byte × OptionKind) :=
  [([45, 104], .h), ([45, 113], .q), ([45, 114], .r), ([45, 102], .f),
    ([45, 102, 105, 108, 101, 115, 121, 115], .filesys),
    ([45, 115, 99, 114, 97, 116, 99, 104], .scratch),
    ([45, 115, 119, 97, 112], .swap), ([45, 114, 115], .rs),
    ([45, 109, 108, 102, 113, 115], .mlfqs),
    ([45, 117, 108], .ul)]

def optionKind (arg : List Byte) : Option OptionKind := optionNames.lookup (optionName arg)

def applyOption (o : Options) (arg : List Byte) : Except OptionsStop Options :=
  let value := optionValue arg
  match optionKind arg with
  | some .h => .error .usage
  | some .q => .ok { o with shutdown := .powerOff }
  | some .r => .ok { o with shutdown := .reboot }
  | some .f => .ok { o with formatFilesys := true }
  | some .filesys => .ok { o with filesysBdevName := value }
  | some .scratch => .ok { o with scratchBdevName := value }
  | some .swap => .ok { o with swapBdevName := value }
  | some .rs => do return { o with random := randomInit (← atoiOption value) }
  | some .mlfqs => .ok { o with threadMlfqs := true }
  | some .ul => do return { o with userPageLimit := ← atoiOption value }
  | none => .error (.fault (.panic "unknown option"))

def isOption (arg : CString) : Bool := arg.bytes.head? = some 45

def optionLoop : List CString → Options → Except OptionsStop (List CString × Options)
  | [], o => .ok ([], o)
  | arg :: argv, o =>
    if isOption arg then do optionLoop argv (← applyOption o arg.bytes) else .ok (arg :: argv, o)

def parseOptions (clock : Nat) (argv : List CString) (o : Options) :
    Except OptionsStop (List CString × Options) := do
  let (argv, o) ← optionLoop argv o
  return (argv, { o with random := randomInit clock })

/-! ## Seeds -/

def seedOf (arg : List Byte) : Option Nat :=
  if optionKind arg = some .rs then
    (optionValue arg).map fun value => toUnsigned (atoi value)
  else none

/-- The seed of the last `-rs` among the options. -/
def lastSeed : List CString → Option Nat
  | [] => none
  | arg :: argv => if isOption arg then (lastSeed argv).or (seedOf arg.bytes) else none

lemma applyOption_random {o o' : Options} {arg : List Byte} (h : applyOption o arg = .ok o') :
    o'.random = ((seedOf arg).map randomInit).getD o.random := by
  rw [applyOption] at h
  rw [seedOf]
  cases hkind : optionKind arg with
  | none => simp [hkind] at h
  | some kind =>
    rw [hkind] at h
    cases kind <;> cases hval : optionValue arg <;> rw [hval] at h <;> cases h <;> rfl

lemma optionLoop_random {argv rest : List CString} {o u : Options} {seed : Nat}
    (hseed : lastSeed argv = some seed) (h : optionLoop argv o = .ok (rest, u)) :
    u.random = randomInit seed := by
  suffices hall : u.random = ((lastSeed argv).map randomInit).getD o.random by
    rw [hall, hseed]
    rfl
  clear hseed
  induction argv generalizing o with
  | nil =>
    obtain ⟨rfl, rfl⟩ := Prod.mk.inj (Except.ok.inj h)
    rfl
  | cons arg argv ih =>
    rw [optionLoop] at h
    rw [lastSeed]
    split at h
    · next hoption =>
      rw [if_pos hoption]
      cases happly : applyOption o arg.bytes with
      | error stop => simp [happly, bind, Except.bind] at h
      | ok o' =>
        rw [happly] at h
        rw [ih h, applyOption_random happly]
        cases lastSeed argv <;> rfl
    · next hoption =>
      obtain ⟨rfl, rfl⟩ := Prod.mk.inj (Except.ok.inj h)
      rw [if_neg hoption]
      rfl

lemma parseOptions_eq_ok {clock : Nat} {argv rest : List CString} {o t : Options} :
    parseOptions clock argv o = .ok (rest, t) ↔
      ∃ u, optionLoop argv o = .ok (rest, u) ∧ t = { u with random := randomInit clock } := by
  unfold parseOptions
  cases optionLoop argv o with
  | error stop => simp [bind, Except.bind]
  | ok r =>
    obtain ⟨rest', u⟩ := r
    simp only [bind, Except.bind, pure, Except.pure, Except.ok.injEq, Prod.mk.injEq]
    constructor
    · rintro ⟨rfl, rfl⟩
      exact ⟨u, ⟨rfl, rfl⟩, rfl⟩
    · rintro ⟨_, ⟨rfl, rfl⟩, rfl⟩
      exact ⟨rfl, rfl⟩

/-! ## The clock -/

/-- A value that `rtc_get_time` can return. -/
def ClockReads (clock : Nat) : Prop := ∃ cmos fuel, Devices.rtcGetTime cmos fuel = some clock

/-- The registers on 1 January 1970, `sec` seconds after midnight. -/
def firstMinute (sec : Byte) : Devices.Cmos
  | _, 0 => sec
  | _, 7 | _, 8 => 1
  | _, 9 => 0x70
  | _, _ => 0

lemma clockReads_firstMinute : ClockReads 2678400 ∧ ClockReads 2678401 :=
  ⟨⟨firstMinute 0, 1, rfl⟩, firstMinute 1, 1, rfl⟩

lemma randomInit_clock : randomInit 2678400 ≠ randomInit 2678401 := by
  have hdiffer : (randomInit 2678400).s.getD 0 0 ≠ (randomInit 2678401).s.getD 0 0 := by
    decide +kernel
  exact fun h => hdiffer (congrArg (fun g => g.s.getD 0 0) h)

def Reproducible (argv : List CString) (o : Options) (seed : Nat) : Prop :=
  ∀ clock clock', ClockReads clock → ClockReads clock' → ∃ rest t t',
    parseOptions clock argv o = .ok (rest, t) ∧ parseOptions clock' argv o = .ok (rest, t') ∧
      t.random = randomInit seed ∧ t'.random = randomInit seed

/-- The loop has set the state that `seed` asks for, and the clock replaces it. -/
theorem parseOptions_never_reproducible {argv rest : List CString} {o u : Options} {seed : Nat}
    (hseed : lastSeed argv = some seed) (hloop : optionLoop argv o = .ok (rest, u)) :
    u.random = randomInit seed ∧
      (∀ clock, parseOptions clock argv o = .ok (rest, { u with random := randomInit clock })) ∧
      ¬ Reproducible argv o seed := by
  have hparse clock : parseOptions clock argv o =
    .ok (rest, { u with random := randomInit clock }) :=
    parseOptions_eq_ok.mpr ⟨u, hloop, rfl⟩
  refine ⟨optionLoop_random hseed hloop, hparse, fun hsame => ?_⟩
  obtain ⟨_, t, t', ht, ht', hrandom, hrandom'⟩ :=
    hsame _ _ clockReads_firstMinute.1 clockReads_firstMinute.2
  obtain ⟨-, rfl⟩ := Prod.mk.inj (Except.ok.inj ((hparse _).symm.trans ht))
  obtain ⟨-, rfl⟩ := Prod.mk.inj (Except.ok.inj ((hparse _).symm.trans ht'))
  exact randomInit_clock (hrandom.trans hrandom'.symm)

/-! `-rs=0`, a second apart. -/

def rsZero : List CString := [⟨[45, 114, 115, 61, 48], by simp⟩]

def noOptions : Options := ⟨.none, false, none, none, none, false, 0, .boot⟩

lemma optionLoop_rsZero :
    optionLoop rsZero noOptions = .ok ([], { noOptions with random := randomInit 0 }) := by
  have hkind : optionKind [45, 114, 115, 61, 48] = some .rs := by decide
  have hrs : applyOption noOptions [45, 114, 115, 61, 48] =
      .ok { noOptions with random := randomInit 0 } := by
    rw [applyOption, hkind]
    rfl
  rw [rsZero, optionLoop, if_pos (by decide), hrs]
  rfl

theorem parseOptions_rsZero_ignored : lastSeed rsZero = some 0 ∧
    (∀ clock, parseOptions clock rsZero noOptions =
      .ok ([], { noOptions with random := randomInit clock })) ∧
    ¬ Reproducible rsZero noOptions 0 :=
  have hseed : lastSeed rsZero = some 0 := by decide
  ⟨hseed, (parseOptions_never_reproducible hseed optionLoop_rsZero).2⟩

theorem parseOptions_reseeds : ClockReads 2678400 ∧ ClockReads 2678401 ∧ ∃ t t',
    parseOptions 2678400 rsZero noOptions = .ok ([], t) ∧
    parseOptions 2678401 rsZero noOptions = .ok ([], t') ∧ t.random ≠ t'.random :=
  ⟨clockReads_firstMinute.1, clockReads_firstMinute.2, _, _,
    parseOptions_eq_ok.mpr ⟨_, optionLoop_rsZero, rfl⟩,
    parseOptions_eq_ok.mpr ⟨_, optionLoop_rsZero, rfl⟩, randomInit_clock⟩

end Pintos.Threads
