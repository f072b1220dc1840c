import Pintos.Foundation.Bytes

/-!
# Formatted output

`format_integer` of `lib/stdio.c` and the parts of `parse_conversion`, `__vprintf`
and `snprintf` around it, for a format that is one unsigned integer conversion
without a length modifier and without `*`.  What is passed to `output` one
character after the other is a list of bytes.
-/

namespace Pintos

open Foundation

structure Flags where
  minus : Bool
  plus : Bool
  space : Bool
  pound : Bool
  zero : Bool
  group : Bool
  deriving DecidableEq, Repr

structure PrintfConversion where
  flags : Flags
  width : Nat
  precision : Int
  deriving DecidableEq, Repr

structure IntegerBase where
  base : Nat
  digits : List Byte
  x : Byte
  group : Nat

def baseD : IntegerBase := ⟨10, [48, 49, 50, 51, 52, 53, 54, 55, 56, 57], 0, 3⟩

def baseO : IntegerBase := ⟨8, [48, 49, 50, 51, 52, 53, 54, 55], 0, 3⟩

def hexLower : IntegerBase :=
  ⟨16, [48, 49, 50, 51, 52, 53, 54, 55, 56, 57, 97, 98, 99, 100, 101, 102], 120, 4⟩

def hexUpper : IntegerBase :=
  ⟨16, [48, 49, 50, 51, 52, 53, 54, 55, 56, 57, 65, 66, 67, 68, 69, 70], 88, 4⟩

/-! ## Conversions -/

def parseFlags : List Byte → Flags → Flags × List Byte
  | [], flags => (flags, [])
  | c :: rest, flags =>
    if c = 45 then parseFlags rest { flags with minus := true }
    else if c = 43 then parseFlags rest { flags with plus := true }
    else if c = 32 then parseFlags rest { flags with space := true }
    else if c = 35 then parseFlags rest { flags with pound := true }
    else if c = 48 then parseFlags rest { flags with zero := true }
    else if c = 39 then parseFlags rest { flags with group := true }
    else (flags, c :: rest)

def Flags.settle (flags : Flags) : Flags :=
  { flags with zero := flags.zero && !flags.minus, space := flags.space && !flags.plus }

def parseDigits : List Byte → Nat → Nat × List Byte
  | [], value => (value, [])
  | c :: rest, value =>
    if 48 ≤ c ∧ c ≤ 57 then parseDigits rest (value * 10 + (c.toNat - 48)) else (value, c :: rest)

def parseConversion (format : List Byte) : PrintfConversion × List Byte :=
  let (flags, format) := parseFlags format ⟨false, false, false, false, false, false⟩
  let flags := flags.settle
  let (width, format) := parseDigits format 0
  match format with
  | 46 :: rest =>
    let (precision, format) := parseDigits rest 0
    (⟨{ flags with zero := false }, width, precision⟩, format)
  | format => (⟨flags, width, -1⟩, format)

/-! ## Integers -/

section FormatInteger

variable (b : IntegerBase) (c : PrintfConversion)

/-- The loop that fills `buf`, of 64 bytes, with the digits; the last digit comes first. -/
def accumulateDigits : Nat → Nat → Nat → List Byte
  | 0, _, _ => []
  | room + 1, value, digitCnt =>
    if value = 0 then []
    else
      (if c.flags.group ∧ digitCnt > 0 ∧ digitCnt % b.group = 0 then [44] else []) ++
        b.digits.getD (value % b.base) 0 :: accumulateDigits room (value / b.base) (digitCnt + 1)

def signCharacter (isSigned negative : Bool) : Option Byte :=
  if isSigned then
    if c.flags.plus then some (if negative then 45 else 43)
    else if c.flags.space then some (if negative then 45 else 32)
    else if negative then some 45
    else none
  else none

def digitBuffer (value : Nat) : List Byte :=
  let buf := accumulateDigits b c 64 value 0
  let precision := if c.precision < 0 then 1 else c.precision.toNat
  let buf := buf ++ List.replicate (min precision 63 - buf.length) 48
  if c.flags.pound ∧ b.base = 8 ∧ buf.getLast? ≠ some 48 then buf ++ [48] else buf

def formatInteger (value : Nat) (isSigned negative : Bool) : List Byte :=
  let sign := (signCharacter c isSigned negative).toList
  let x := if c.flags.pound ∧ value ≠ 0 ∧ b.x ≠ 0 then [48, b.x] else []
  let buf := digitBuffer b c value
  let padCnt := c.width - buf.length - x.length - sign.length
  (if c.flags.minus ∨ c.flags.zero then [] else List.replicate padCnt 32) ++ sign ++ x ++
    (if c.flags.zero then List.replicate padCnt 48 else []) ++ buf.reverse ++
    (if c.flags.minus then List.replicate padCnt 32 else [])

end FormatInteger

/-- The output for `%` followed by the format, with one argument of 32 bits. -/
def vprintfUnsigned (format : List Byte) (value : Nat) : List Byte :=
  let (c, rest) := parseConversion format
  match rest with
  | 111 :: _ => formatInteger baseO c value false false
  | 117 :: _ => formatInteger baseD c value false false
  | 120 :: _ => formatInteger hexLower c value false false
  | 88 :: _ => formatInteger hexUpper c value false false
  | _ => []

/-- `snprintf (m + a, bufSize, …)` for what the format and the arguments amount to. -/
def snprintf (m : Memory) (a bufSize : Nat) (output : List Byte) : Memory :=
  if bufSize > 0 then
    let stored := min output.length (bufSize - 1)
    fill (copy m a (ofBytes output) 0 stored) (a + stored) 0 1
  else m

/-! ## Octal fields -/

def octalStep (value : Nat) (c : Byte) : Nat := c.toNat - 48 + value * 8

structure Octal (width value : Nat) (text : List Byte) : Prop where
  length : text.length = width
  digit : ∀ c ∈ text, 48 ≤ c ∧ c ≤ 55
  value : text.foldl octalStep 0 = value

lemma accumulateDigits_octal {c : PrintfConversion} (hgroup : c.flags.group = false) {n : Nat} :
    ∀ (room digitCnt : Nat) {value : Nat}, n ≤ room → value < 8 ^ n →
      (accumulateDigits baseO c room value digitCnt).length ≤ n ∧
      (∀ d ∈ accumulateDigits baseO c room value digitCnt, 48 ≤ d ∧ d ≤ 55) ∧
      (accumulateDigits baseO c room value digitCnt).reverse.foldl octalStep 0 = value := by
  induction n with
  | zero =>
    intro room digitCnt value hroom hval
    obtain rfl : value = 0 := by omega
    cases room with
    | zero => simp [accumulateDigits]
    | succ room => simp [accumulateDigits]
  | succ n ih =>
    intro room digitCnt value hroom hval
    obtain ⟨room, rfl⟩ : ∃ k, room = k + 1 := ⟨room - 1, by omega⟩
    unfold accumulateDigits
    by_cases hzero : value = 0
    · simp [hzero]
    have hquotient : value / 8 < 8 ^ n := Nat.div_lt_of_lt_mul (by rwa [pow_succ, mul_comm] at hval)
    obtain ⟨hlen, hdigit, hfold⟩ := ih room (digitCnt + 1) (by omega) hquotient
    have hdigits : ∀ k < 8, 48 ≤ baseO.digits.getD k 0 ∧ baseO.digits.getD k 0 ≤ 55 ∧
        (baseO.digits.getD k 0).toNat - 48 = k := by decide
    have hlast := hdigits (value % 8) (Nat.mod_lt _ (by decide))
    simp only [if_neg hzero, hgroup, Bool.false_eq_true, false_and, if_false, List.nil_append,
      List.length_cons, List.mem_cons, forall_eq_or_imp, List.reverse_cons, List.foldl_append,
      List.foldl_cons, List.foldl_nil]
    change (accumulateDigits baseO c room (value / 8) (digitCnt + 1)).length + 1 ≤ n + 1 ∧ _
    refine ⟨by omega, ⟨⟨hlast.1, hlast.2.1⟩, hdigit⟩, ?_⟩
    change octalStep (List.foldl octalStep 0
      (accumulateDigits baseO c room (value / 8) (digitCnt + 1)).reverse) _ = value
    rw [hfold, octalStep]
    have := hlast.2.2
    change (baseO.digits.getD (value % 8) 0).toNat - 48 + value / 8 * 8 = value
    omega

lemma foldl_octalStep_zeros (n : Nat) (text : List Byte) :
    (List.replicate n 48 ++ text).foldl octalStep 0 = text.foldl octalStep 0 := by
  induction n with
  | zero => rfl
  | succ n ih => exact ih

/-- The conversion `%0` followed by a width and `o`. -/
def zeroPadded (width : Nat) : PrintfConversion :=
  ⟨⟨false, false, false, false, true, false⟩, width, -1⟩

lemma digitBuffer_zeroPadded (width value : Nat) : ∃ n, digitBuffer baseO (zeroPadded width) value =
      accumulateDigits baseO (zeroPadded width) 64 value 0 ++ List.replicate n 48 ∧
        n ≤ 1 - (accumulateDigits baseO (zeroPadded width) 64 value 0).length :=
  ⟨_, rfl, le_rfl⟩

lemma formatInteger_octal {width value : Nat} (hpos : 0 < width) (hwidth : width ≤ 64)
    (hval : value < 8 ^ width) :
    Octal width value (formatInteger baseO (zeroPadded width) value false false) := by
  obtain ⟨hlen, hdigit, hfold⟩ := accumulateDigits_octal (c := zeroPadded width) rfl 64 0
    hwidth hval
  obtain ⟨n, hbuf, hn⟩ := digitBuffer_zeroPadded width value
  have hformat : formatInteger baseO (zeroPadded width) value false false =
      List.replicate (width - (digitBuffer baseO (zeroPadded width) value).length) 48 ++
        (digitBuffer baseO (zeroPadded width) value).reverse := by
    simp [formatInteger, zeroPadded, signCharacter]
  have hsize : (digitBuffer baseO (zeroPadded width) value).length ≤ width := by
    rw [hbuf, List.length_append, List.length_replicate]
    omega
  rw [hformat]
  constructor
  · rw [List.length_append, List.length_replicate, List.length_reverse]
    omega
  · intro d hd
    rw [hbuf, List.reverse_append, List.reverse_replicate] at hd
    rcases List.mem_append.mp hd with hd | hd
    · obtain rfl := List.eq_of_mem_replicate hd
      decide
    rcases List.mem_append.mp hd with hd | hd
    · obtain rfl := List.eq_of_mem_replicate hd
      decide
    · exact hdigit d (List.mem_reverse.mp hd)
  · rw [foldl_octalStep_zeros, hbuf, List.reverse_append, List.reverse_replicate,
      foldl_octalStep_zeros, hfold]

end Pintos
