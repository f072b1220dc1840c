import Pintos.Lib.Stdio

/-!
# `printf`

`__vprintf` of `lib/stdio.c` with `parse_conversion` in full.  The format is the part of the
string that is still to be read, without the terminating null byte: its end is where `*format`
is zero, and a step beyond it reads what does not belong to the string.
-/

namespace Pintos.Printf

open Foundation

variable {n : Int} {format rest : List Byte} {room : Nat}

inductive ArgType where
  | char
  | short
  | int
  | intmax
  | long
  | longLong
  | ptrdiffT
  | sizeT
  deriving DecidableEq, Repr

structure Conversion where
  flags : Flags
  width : Int
  precision : Int
  type : ArgType
  deriving DecidableEq, Repr

inductive Argument where
  | number (n : Int)
  | string (s : Option (List Byte))
  deriving DecidableEq, Repr

variable {args args' : List Argument} {c : Conversion}

inductive Stop where
  | pastEnd
  | noArgument
  | rounds
  deriving DecidableEq, Repr

def vaInt : List Argument → Except Stop (Int × List Argument)
  | .number n :: args => .ok (n, args)
  | _ => .error .noArgument

def wrap32 (n : Int) : Int := n.bmod (2 ^ 32)

/-! ## Conversion specifications -/

/-- A field width or a precision, which `*` takes from the arguments. -/
def parseNumber (format : List Byte) (args : List Argument) :
    Except Stop (Int × List Byte × List Argument) :=
  match format with
  | 42 :: rest => do
    let (n, args) ← vaInt args
    return (wrap32 n, rest, args)
  | format =>
    let (n, rest) := parseDigits format 0
    .ok (wrap32 n, rest, args)

def parsePrecision (format : List Byte) (args : List Argument) :
    Except Stop (Int × List Byte × List Argument) :=
  match format with
  | 46 :: rest => do
    let (n, rest, args) ← parseNumber rest args
    return (if n < 0 then -1 else n, rest, args)
  | format => .ok (-1, format, args)

def parseType : List Byte → ArgType × List Byte
  | 104 :: 104 :: rest => (.char, rest)
  | 104 :: rest => (.short, rest)
  | 106 :: rest => (.intmax, rest)
  | 108 :: 108 :: rest => (.longLong, rest)
  | 108 :: rest => (.long, rest)
  | 116 :: rest => (.ptrdiffT, rest)
  | 122 :: rest => (.sizeT, rest)
  | rest => (.int, rest)

def noFlags : Flags := ⟨false, false, false, false, false, false⟩

def parseConversion (format : List Byte) (args : List Argument) :
    Except Stop (Conversion × List Byte × List Argument) := do
  let (flags, format) := parseFlags format noFlags
  let flags := flags.settle
  let (width, format, args) ← parseNumber format args
  let flags := if width < 0 then { flags with minus := true } else flags
  let width := if width < 0 then wrap32 (-width) else width
  let (precision, format, args) ← parsePrecision format args
  let flags := if precision ≥ 0 then { flags with zero := false } else flags
  let (type, format) := parseType format
  return (⟨flags, width, precision, type⟩, format, args)

/-! ## Output -/

/-- What stands on either side of the padding: the sign, the prefix and the digits. -/
structure Pieces where
  sign : List Byte
  x : List Byte
  digits : List Byte

def Pieces.length (p : Pieces) : Nat := p.sign.length + p.x.length + p.digits.length

def pieces (b : IntegerBase) (c : Conversion) (value : Nat) (isSigned negative : Bool) :
    Pieces where
  sign := (signCharacter ⟨c.flags, 0, c.precision⟩ isSigned negative).toList
  x := if c.flags.pound ∧ value ≠ 0 ∧ b.x ≠ 0 then [48, b.x] else []
  digits := (digitBuffer b ⟨c.flags, 0, c.precision⟩ value).reverse

def padCnt (c : Conversion) (p : Pieces) : Nat := (wrap32 (c.width - p.length)).toNat

def Pieces.output (p : Pieces) (flags : Flags) (padCnt : Nat) : List Byte :=
  (if flags.minus ∨ flags.zero then [] else List.replicate padCnt 32) ++ p.sign ++ p.x ++
    (if flags.zero then List.replicate padCnt 48 else []) ++ p.digits ++
    (if flags.minus then List.replicate padCnt 32 else [])

def formatInteger (b : IntegerBase) (c : Conversion) (value : Nat) (isSigned negative : Bool) :
    List Byte :=
  let p := pieces b c value isSigned negative
  p.output c.flags (padCnt c p)

def formatString (c : Conversion) (s : List Byte) : List Byte :=
  let pad := List.replicate (c.width - s.length).toNat 32
  if c.flags.minus then s ++ pad else pad ++ s

def signedValue (type : ArgType) (n : Int) : Int :=
  match type with
  | .char => n.bmod (2 ^ 8)
  | .short => n.bmod (2 ^ 16)
  | .intmax | .longLong => n.bmod (2 ^ 64)
  | .int | .long | .ptrdiffT | .sizeT => n.bmod (2 ^ 32)

def unsignedValue (type : ArgType) (n : Int) : Nat :=
  match type with
  | .char => (n % 2 ^ 8).toNat
  | .short => (n % 2 ^ 16).toNat
  | .intmax | .longLong => (n % 2 ^ 64).toNat
  | .int | .long | .ptrdiffT | .sizeT => (n % 2 ^ 32).toNat

def formatUnsigned (b : IntegerBase) (c : Conversion) (args : List Argument) :
    Except Stop (List Byte × List Argument) := do
  let (n, args) ← vaInt args
  return (formatInteger b c (unsignedValue c.type n) false false, args)

def convertString (c : Conversion) : List Argument → Except Stop (List Byte × List Argument)
  | .string s :: args =>
    let s := s.getD [40, 110, 117, 108, 108, 41]
    .ok (formatString c (if c.precision < 0 then s else s.take c.precision.toNat), args)
  | _ => .error .noArgument

/-- The output of the `switch` for the conversion character `ch`. -/
def convert (c : Conversion) (ch : Byte) (args : List Argument) :
    Except Stop (List Byte × List Argument) :=
  if ch = 100 ∨ ch = 105 then do
    let (n, args) ← vaInt args
    let value := signedValue c.type n
    return (formatInteger baseD c value.natAbs true (value < 0), args)
  else if ch = 111 then formatUnsigned baseO c args
  else if ch = 117 then formatUnsigned baseD c args
  else if ch = 120 then formatUnsigned hexLower c args
  else if ch = 88 then formatUnsigned hexUpper c args
  else if ch = 99 then do
    let (n, args) ← vaInt args
    return (formatString c [UInt8.ofNat (n % 2 ^ 8).toNat], args)
  else if ch = 115 then convertString c args
  else if ch = 112 then
    formatUnsigned hexLower { c with flags := { noFlags with pound := true }, type := .int } args
  else if ch ∈ [102, 101, 69, 103, 71, 110] then
    .ok ([60, 60, 110, 111, 32, 37, ch, 32, 105, 110, 32, 107, 101, 114, 110, 101, 108, 62, 62],
      args)
  else .ok ([60, 60, 110, 111, 32, 37, ch, 32, 99, 111, 110, 118, 101, 114, 115, 105, 111, 110,
    62, 62], args)

def vprintfLoop : Nat → List Byte → List Argument → Except Stop (List Byte)
  | 0, _, _ => .error .rounds
  | _ + 1, [], _ => .ok []
  | fuel + 1, ch :: format, args =>
    if ch ≠ 37 then do return ch :: (← vprintfLoop fuel format args)
    else if format.head? = some 37 then do return 37 :: (← vprintfLoop fuel format.tail args)
    else do
      let (c, format, args) ← parseConversion format args
      match format with
      | [] =>
        -- the default branch reports the null byte, and `format++` then leaves the string
        .error .pastEnd
      | ch :: format =>
        let (output, args) ← convert c ch args
        return output ++ (← vprintfLoop fuel format args)

def vprintf (format : List Byte) (args : List Argument) : Except Stop (List Byte) :=
  vprintfLoop (format.length + 1) format args

/-! ## Where the cursor goes -/

def afterNumber : List Byte → List Byte
  | 42 :: rest => rest
  | format => (parseDigits format 0).2

def afterPrecision : List Byte → List Byte
  | 46 :: rest => afterNumber rest
  | format => format

def afterOptions (format : List Byte) : List Byte :=
  (parseType (afterPrecision (afterNumber (parseFlags format noFlags).2))).2

/-- A sequence of characters, of `%%` and of conversions each with its conversion character. -/
inductive Complete : List Byte → Prop
  | nil : Complete []
  | character {ch : Byte} {format : List Byte} : ch ≠ 37 → Complete format → Complete (ch :: format)
  | percent {format : List Byte} : Complete format → Complete (37 :: 37 :: format)
  | conversion {ch : Byte} {spec format : List Byte} : spec.head? ≠ some 37 →
    afterOptions spec = ch :: format → Complete format → Complete (37 :: spec)

/-- Returns at the place `rest` of the format, unless an argument is missing. -/
def EndsAt {α : Type} (result : Except Stop (α × List Byte × List Argument)) (rest : List Byte) :
    Prop :=
  (∃ a args, result = .ok (a, rest, args)) ∨ result = .error .noArgument

lemma vaInt_cases (args : List Argument) :
    (∃ n args', vaInt args = .ok (n, args')) ∨ vaInt args = .error .noArgument := by
  unfold vaInt
  split
  · exact .inl ⟨_, _, rfl⟩
  · exact .inr rfl

lemma parseNumber_endsAt (format : List Byte) (args : List Argument) :
    EndsAt (parseNumber format args) (afterNumber format) := by
  unfold parseNumber afterNumber
  split
  · rcases vaInt_cases args with ⟨n, args', h⟩ | h
    · exact .inl ⟨_, args', by rw [h]; rfl⟩
    · exact .inr (by rw [h]; rfl)
  · exact .inl ⟨_, args, rfl⟩

lemma parsePrecision_endsAt (format : List Byte) (args : List Argument) :
    EndsAt (parsePrecision format args) (afterPrecision format) := by
  unfold parsePrecision afterPrecision
  split
  · next rest =>
    rcases parseNumber_endsAt rest args with ⟨n, args', h⟩ | h
    · exact .inl ⟨_, args', by rw [h]; rfl⟩
    · exact .inr (by rw [h]; rfl)
  · exact .inl ⟨_, args, rfl⟩

lemma parseConversion_endsAt (format : List Byte) (args : List Argument) :
    EndsAt (parseConversion format args) (afterOptions format) := by
  unfold parseConversion afterOptions
  rcases parseNumber_endsAt (parseFlags format noFlags).2 args with ⟨n, args₁, h₁⟩ | h₁
  · rcases parsePrecision_endsAt (afterNumber (parseFlags format noFlags).2) args₁
      with ⟨k, args₂, h₂⟩ | h₂
    · exact .inl ⟨_, args₂, by simp only [h₁, h₂, bind, Except.bind]; rfl⟩
    · exact .inr (by simp [h₁, h₂, bind, Except.bind])
  · exact .inr (by simp [h₁, bind, Except.bind])

def Answers (result : Except Stop (List Byte × List Argument)) : Prop :=
  (∃ r, result = .ok r) ∨ result = .error .noArgument

lemma Answers.ite {p : Prop} [Decidable p] {x y : Except Stop (List Byte × List Argument)}
    (hx : Answers x) (hy : Answers y) : Answers (if p then x else y) := by
  split
  · exact hx
  · exact hy

lemma convert_answers (c : Conversion) (ch : Byte) (args : List Argument) :
    Answers (convert c ch args) := by
  have hok : ∀ r, Answers (.ok r) := fun r => .inl ⟨r, rfl⟩
  have hnum : ∀ f : Int × List Argument → List Byte × List Argument,
      Answers (do let r ← vaInt args; return f r) := by
    intro f
    rcases vaInt_cases args with ⟨n, args', h⟩ | h
    · exact .inl ⟨_, by rw [h]; rfl⟩
    · exact .inr (by rw [h]; rfl)
  have hstring : Answers (convertString c args) := by
    unfold convertString
    split
    · exact .inl ⟨_, rfl⟩
    · exact .inr rfl
  unfold convert formatUnsigned
  exact .ite (hnum _) (.ite (hnum _) (.ite (hnum _) (.ite (hnum _) (.ite (hnum _)
    (.ite (hnum _) (.ite hstring (.ite (hnum _) (.ite (hok _) (hok _)))))))))

lemma parseFlags_length (format : List Byte) (flags : Flags) :
    (parseFlags format flags).2.length ≤ format.length := by
  induction format generalizing flags with
  | nil => exact le_rfl
  | cons c format ih =>
    unfold parseFlags
    split_ifs <;> first | exact (ih _).trans (Nat.le_succ _) | exact le_rfl

lemma parseDigits_length (format : List Byte) (value : Nat) :
    (parseDigits format value).2.length ≤ format.length := by
  induction format generalizing value with
  | nil => exact le_rfl
  | cons c format ih =>
    unfold parseDigits
    split
    · exact (ih _).trans (Nat.le_succ _)
    · exact le_rfl

lemma afterNumber_length (format : List Byte) : (afterNumber format).length ≤ format.length := by
  unfold afterNumber
  split
  · exact Nat.le_succ _
  · exact parseDigits_length _ 0

lemma afterOptions_length (format : List Byte) : (afterOptions format).length ≤ format.length := by
  have hprecision : ∀ format, (afterPrecision format).length ≤ format.length := by
    intro format
    unfold afterPrecision
    split
    · exact (afterNumber_length _).trans (Nat.le_succ _)
    · exact le_rfl
  have htype : ∀ format, (parseType format).2.length ≤ format.length := by
    intro format
    unfold parseType
    split <;> simp only [List.length_cons] <;> omega
  exact (htype _).trans
    ((hprecision _).trans ((afterNumber_length _).trans (parseFlags_length _ _)))

lemma vprintfLoop_cases {fuel : Nat} (format : List Byte) (args : List Argument)
    (hfuel : format.length < fuel) : vprintfLoop fuel format args = .error .noArgument ∨
      (∃ output, vprintfLoop fuel format args = .ok output) ∧ Complete format ∨
      vprintfLoop fuel format args = .error .pastEnd ∧ ¬ Complete format := by
  induction fuel generalizing format args with
  | zero => omega
  | succ fuel ih =>
    cases format with
    | nil => exact .inr (.inl ⟨⟨_, rfl⟩, .nil⟩)
    | cons ch format =>
      rw [List.length_cons] at hfuel
      rw [vprintfLoop]
      by_cases hch : ch ≠ 37
      · rw [if_pos hch]
        rcases ih format args (by omega) with h | ⟨⟨output, h⟩, hcomplete⟩ | ⟨h, hcut⟩ <;> rw [h]
        · exact .inl rfl
        · exact .inr (.inl ⟨⟨_, rfl⟩, .character hch hcomplete⟩)
        refine .inr (.inr ⟨rfl, fun hcomplete => hcut ?_⟩)
        cases hcomplete <;> first | assumption | contradiction
      obtain rfl : ch = 37 := not_not.mp hch
      rw [if_neg hch]
      by_cases hpercent : format.head? = some 37
      · obtain ⟨rest, rfl⟩ : ∃ rest, format = 37 :: rest :=
          ⟨_, (List.head?_eq_some_iff.mp hpercent).choose_spec⟩
        rw [if_pos hpercent, List.tail_cons]
        rw [List.length_cons] at hfuel
        rcases ih rest args (by omega) with h | ⟨⟨output, h⟩, hcomplete⟩ | ⟨h, hcut⟩ <;> rw [h]
        · exact .inl rfl
        · exact .inr (.inl ⟨⟨_, rfl⟩, .percent hcomplete⟩)
        refine .inr (.inr ⟨rfl, fun hcomplete => hcut ?_⟩)
        cases hcomplete <;> first | assumption | contradiction
      rw [if_neg hpercent]
      rcases parseConversion_endsAt format args with ⟨c, args', h⟩ | h <;> rw [h]
      · cases hrest : afterOptions format with
        | nil =>
          refine .inr (.inr ⟨rfl, fun hcomplete => ?_⟩)
          cases hcomplete <;> simp_all
        | cons ch' rest =>
          have hlen := afterOptions_length format
          rw [hrest, List.length_cons] at hlen
          rcases convert_answers c ch' args' with ⟨⟨output, args''⟩, hconvert⟩ | hconvert
          · simp only [bind, Except.bind, hconvert]
            rcases ih rest args'' (by omega)
              with h | ⟨⟨output, h⟩, hcomplete⟩ | ⟨h, hcut⟩ <;> rw [h]
            · exact .inl rfl
            · exact .inr (.inl ⟨⟨_, rfl⟩, .conversion hpercent hrest hcomplete⟩)
            refine .inr (.inr ⟨rfl, fun hcomplete => hcut ?_⟩)
            cases hcomplete <;> simp_all
          · exact .inl (by simp [bind, Except.bind, hconvert])
      · exact .inl rfl

theorem vprintf_inside_iff {format : List Byte} {args : List Argument}
    (hargs : vprintf format args ≠ .error .noArgument) :
    ((∃ output, vprintf format args = .ok output) ↔ Complete format) ∧
      (vprintf format args = .error .pastEnd ↔ ¬ Complete format) := by
  rcases vprintfLoop_cases format args (Nat.lt_succ_self _)
    with h | ⟨⟨output, h⟩, hcomplete⟩ | ⟨h, hcut⟩
  · exact absurd h hargs
  · rw [← vprintf] at h
    simp [h, hcomplete]
  · rw [← vprintf] at h
    simp [h, hcut]

theorem vprintf_percent : vprintf [37] [] = .error .pastEnd := by decide

theorem vprintf_inside_iff_number : vprintf [37, 100] [.number 7] ≠ .error .noArgument ∧
    ((∃ output, vprintf [37, 100] [.number 7] = .ok output) ↔ Complete [37, 100]) ∧
      (vprintf [37, 100] [.number 7] = .error .pastEnd ↔ ¬ Complete [37, 100]) :=
  have h : vprintf [37, 100] [.number 7] ≠ .error .noArgument := by decide
  ⟨h, vprintf_inside_iff h⟩

/-! ## Padding -/

lemma wrap32_bounds (n : Int) : -2 ^ 31 ≤ wrap32 n ∧ wrap32 n < 2 ^ 31 :=
  ⟨Int.le_bmod (by decide), Int.bmod_lt (by decide)⟩

lemma wrap32_eq (hlow : -2 ^ 31 ≤ n) (hup : n < 2 ^ 31) : wrap32 n = n :=
  Int.bmod_eq_of_le (by omega) (by omega)

lemma parseNumber_bounds
    (h : parseNumber format args = .ok (n, rest, args')) : -2 ^ 31 ≤ n ∧ n < 2 ^ 31 := by
  unfold parseNumber at h
  split at h
  · rcases vaInt_cases args with ⟨k, args', hk⟩ | hk
    · simp only [hk, bind, Except.bind, pure, Except.pure, Except.ok.injEq, Prod.mk.injEq] at h
      exact h.1 ▸ wrap32_bounds k
    · simp [hk, bind, Except.bind] at h
  · exact (Prod.mk.inj (Except.ok.inj h)).1 ▸ wrap32_bounds _

/-- Only the width `INT_MIN` stays negative. -/
lemma parseConversion_width (h : parseConversion format args = .ok (c, rest, args')) :
    0 ≤ c.width ∧ c.width < 2 ^ 31 ∨ c.width = -2 ^ 31 ∧ c.flags.minus = true := by
  unfold parseConversion at h
  simp only [bind, Except.bind] at h
  cases hwidth : parseNumber (parseFlags format noFlags).2 args with
  | error stop => simp [hwidth] at h
  | ok r =>
    obtain ⟨n, rest₁, args₁⟩ := r
    obtain ⟨hlow, hup⟩ := parseNumber_bounds hwidth
    simp only [hwidth] at h
    cases hprecision : parsePrecision rest₁ args₁ with
    | error stop => simp [hprecision] at h
    | ok r =>
      obtain ⟨k, rest₂, args₂⟩ := r
      simp only [hprecision, pure, Except.pure, Except.ok.injEq, Prod.mk.injEq] at h
      obtain ⟨rfl, -, -⟩ := h
      by_cases hneg : n < 0
      · simp only [if_pos hneg]
        rcases Int.lt_or_eq_of_le hlow with hlt | rfl
        · exact .inl (by rw [wrap32_eq (by omega) (by omega)]; omega)
        · exact .inr ⟨by decide, by split <;> rfl⟩
      · simp only [if_neg hneg]
        exact .inl ⟨by omega, hup⟩

lemma accumulateDigits_length (b : IntegerBase) (c : PrintfConversion) (room value digitCnt : Nat) :
    (accumulateDigits b c room value digitCnt).length ≤ 2 * room := by
  induction room generalizing value digitCnt with
  | zero => exact le_rfl
  | succ room ih =>
    unfold accumulateDigits
    have := ih (value / b.base) (digitCnt + 1)
    split_ifs <;> simp <;> omega

/-- The zeros that the buffer is filled up with: at most one where it is not filled to the end. -/
lemma digitBuffer_eq (b : IntegerBase) (c : PrintfConversion) (value : Nat) :
    ∃ n, digitBuffer b c value = accumulateDigits b c 64 value 0 ++ List.replicate n 48 ∧
      (n ≤ 1 ∨ (accumulateDigits b c 64 value 0).length + n ≤ 63) := by
  unfold digitBuffer
  generalize accumulateDigits b c 64 value 0 = buf
  dsimp only
  generalize hz : min (if c.precision < 0 then 1 else c.precision.toNat) 63 - buf.length = z
  split
  · next happend =>
    obtain rfl : z = 0 := by
      by_contra hne
      exact happend.2.2 (by simp [List.getLast?_append, List.getLast?_replicate, hne])
    exact ⟨1, by simp, .inl le_rfl⟩
  · exact ⟨z, rfl, by omega⟩

lemma pieces_length (b : IntegerBase) (c : Conversion) (value : Nat) (isSigned negative : Bool) :
    (pieces b c value isSigned negative).length < 200 := by
  obtain ⟨n, hbuf, hn⟩ := digitBuffer_eq b ⟨c.flags, 0, c.precision⟩ value
  have hdigits := accumulateDigits_length b ⟨c.flags, 0, c.precision⟩ 64 value 0
  have hsign : ∀ o : Option Byte, o.toList.length ≤ 1 := by
    intro o
    cases o <;> simp
  have := hsign (signCharacter ⟨c.flags, 0, c.precision⟩ isSigned negative)
  simp only [Pieces.length, pieces, hbuf, List.length_reverse, List.length_append,
    List.length_replicate]
  split <;> simp <;> omega

lemma padCnt_eq {p : Pieces} (hp : p.length < 200)
    (hwidth : 0 ≤ c.width ∧ c.width < 2 ^ 31 ∨ c.width = -2 ^ 31 ∧ c.flags.minus = true)
    (hnonzero : ¬ (c.width = -2 ^ 31 ∧ p.length = 0)) : padCnt c p = c.width.natAbs - p.length := by
  unfold padCnt
  rcases hwidth with ⟨hlow, hup⟩ | ⟨hmin, -⟩
  · rw [wrap32_eq (by omega) (by omega)]
    omega
  have hturn : wrap32 (-2 ^ 31 - p.length + (2 ^ 32 : Nat)) = wrap32 (-2 ^ 31 - p.length) :=
    Int.add_bmod_right _ _
  rw [hmin, ← hturn, wrap32_eq (by omega) (by omega)]
  omega

lemma Pieces.output_length (p : Pieces) (flags : Flags) (n : Nat) : (p.output flags n).length =
    p.length + n * if flags.zero = true ∧ flags.minus = true then 2 else 1 := by
  unfold output length
  cases flags.zero <;> cases flags.minus <;> simp <;> omega

def HonoursWidth (width : Int) (p : Pieces) (output : List Byte) : Prop :=
  output.length = max width.natAbs p.length ∧ ∃ n,
    output = List.replicate n 32 ++ (p.sign ++ p.x ++ p.digits) ∨
    output = p.sign ++ p.x ++ p.digits ++ List.replicate n 32 ∨
    output = p.sign ++ p.x ++ (List.replicate n 48 ++ p.digits)

lemma Pieces.output_onePad (p : Pieces) {flags : Flags} {n : Nat}
    (h : ¬ (flags.zero = true ∧ flags.minus = true) ∨ n = 0) : ∃ k,
    p.output flags n = List.replicate k 32 ++ (p.sign ++ p.x ++ p.digits) ∨
    p.output flags n = p.sign ++ p.x ++ p.digits ++ List.replicate k 32 ∨
    p.output flags n = p.sign ++ p.x ++ (List.replicate k 48 ++ p.digits) := by
  rcases h with h | rfl
  · refine ⟨n, ?_⟩
    unfold output
    cases hzero : flags.zero <;> cases hminus : flags.minus <;> simp_all
  · exact ⟨0, .inl (by simp [output])⟩

theorem formatInteger_honours_iff {format rest : List Byte} {args args' : List Argument}
    {c : Conversion} (h : parseConversion format args = .ok (c, rest, args')) (b : IntegerBase)
    (value : Nat) (isSigned negative : Bool) (p : Pieces)
    (hp : p = pieces b c value isSigned negative) :
    HonoursWidth c.width p (formatInteger b c value isSigned negative) ↔
      ¬ (c.flags.zero = true ∧ c.flags.minus = true ∧ p.length < c.width.natAbs) ∧
        ¬ (c.width = -2 ^ 31 ∧ p.length = 0) := by
  have hwidth := parseConversion_width h
  have hsmall := pieces_length b c value isSigned negative
  have hformat : formatInteger b c value isSigned negative = p.output c.flags (padCnt c p) := by
    rw [hp, formatInteger]
  rw [← hp] at hsmall
  rw [HonoursWidth, hformat, p.output_length]
  by_cases hempty : c.width = -2 ^ 31 ∧ p.length = 0
  · have hnone : padCnt c p = 0 := by
      rw [padCnt, hempty.1, hempty.2]
      decide
    rw [hnone]
    constructor
    · rintro ⟨hlength, -⟩
      omega
    · exact fun hboth => absurd hempty hboth.2
  rw [padCnt_eq hsmall hwidth hempty]
  constructor
  · rintro ⟨hlength, -⟩
    refine ⟨?_, hempty⟩
    rintro ⟨hzero, hminus, hlt⟩
    rw [if_pos ⟨hzero, hminus⟩] at hlength
    omega
  · rintro ⟨hone, -⟩
    by_cases hboth : c.flags.zero = true ∧ c.flags.minus = true
    · have hfull : c.width.natAbs - p.length = 0 := by
        have hge : ¬ p.length < c.width.natAbs := fun hlt => hone ⟨hboth.1, hboth.2, hlt⟩
        omega
      exact ⟨by rw [hfull]; omega, p.output_onePad (.inr hfull)⟩
    · exact ⟨by rw [if_neg hboth]; omega, p.output_onePad (.inl hboth)⟩

/-! The format `%0*d` with the width -5 and the value 7, and `%05d`. -/

theorem formatInteger_mixes :
    ∃ c, parseConversion [48, 42, 100] [.number (-5)] = .ok (c, [100], []) ∧
    formatInteger baseD c 7 true false = [48, 48, 48, 48, 55, 32, 32, 32, 32] :=
  ⟨⟨⟨true, false, false, false, true, false⟩, 5, -1, .int⟩, by decide +kernel, by decide +kernel⟩

theorem formatInteger_honours_iff_five :
    ∃ c p, parseConversion [48, 53, 100] [] = .ok (c, [100], []) ∧ p = pieces baseD c 7 true false ∧
      (HonoursWidth c.width p (formatInteger baseD c 7 true false) ↔
        ¬ (c.flags.zero = true ∧ c.flags.minus = true ∧ p.length < c.width.natAbs) ∧
          ¬ (c.width = -2 ^ 31 ∧ p.length = 0)) :=
  have h : parseConversion [48, 53, 100] [] =
    .ok (⟨⟨false, false, false, false, true, false⟩, 5, -1, .int⟩, [100], []) := by decide +kernel
  ⟨_, _, h, rfl, formatInteger_honours_iff h baseD 7 true false _ rfl⟩

/-! ## Reading a number back -/

/-- The value of the digits of a text; everything else in it counts for nothing. -/
def readBack (b : IntegerBase) (text : List Byte) : Nat :=
  (text.filter (· ∈ b.digits)).foldl (fun value ch => value * b.base + b.digits.idxOf ch) 0

inductive IsBase : IntegerBase → Prop
  | decimal : IsBase baseD
  | octal : IsBase baseO
  | lower : IsBase hexLower
  | upper : IsBase hexUpper

structure DigitsOk (b : IntegerBase) : Prop where
  group : b.group = 3 ∨ b.group = 4
  base : 0 < b.base
  enough : 2 ^ 64 ≤ b.base ^ 22
  digit : ∀ k < b.base, b.digits.getD k 0 ∈ b.digits ∧ b.digits.idxOf (b.digits.getD k 0) = k
  zero : b.digits.idxOf 48 = 0
  other : ∀ ch ∈ [32, 43, 44, 45, b.x], ch ∉ b.digits

lemma IsBase.digitsOk {b : IntegerBase} (h : IsBase b) : DigitsOk b := by
  cases h <;> constructor <;> decide +kernel

section ReadBack

variable {b : IntegerBase}

lemma readBack_silent (h : DigitsOk b) {text : List Byte} (rest : List Byte)
    (htext : ∀ ch ∈ text, ch ∈ b.digits → ch = 48) :
    readBack b (text ++ rest) = readBack b rest := by
  induction text with
  | nil => rfl
  | cons ch text ih =>
    rw [List.forall_mem_cons] at htext
    rw [← ih htext.2, List.cons_append]
    by_cases hch : ch ∈ b.digits
    · rw [readBack, List.filter_cons_of_pos (by simpa using hch), htext.1 hch,
        List.foldl_cons, h.zero]
      simp [readBack]
    · rw [readBack, List.filter_cons_of_neg (by simpa using hch), readBack]

lemma readBack_accumulateDigits (h : DigitsOk b) (c : PrintfConversion) (value digitCnt : Nat)
    (hval : value < b.base ^ room) :
    readBack b (accumulateDigits b c room value digitCnt).reverse = value := by
  induction room generalizing value digitCnt with
  | zero =>
    obtain rfl : value = 0 := by simpa using hval
    rfl
  | succ room ih =>
    unfold accumulateDigits
    by_cases hzero : value = 0
    · rw [if_pos hzero, hzero]
      rfl
    obtain ⟨hmem, hindex⟩ := h.digit (value % b.base) (Nat.mod_lt _ h.base)
    have hrest := ih (value / b.base) (digitCnt + 1)
      (Nat.div_lt_of_lt_mul (by rwa [pow_succ, mul_comm] at hval))
    have hcomma : ([44] : List Byte).filter (· ∈ b.digits) = [] := by
      simpa using h.other 44 (by simp)
    rw [readBack] at hrest ⊢
    rw [if_neg hzero, List.reverse_append, List.reverse_cons, List.filter_append,
      List.filter_append,
      List.foldl_append, List.foldl_append, hrest]
    have hlast := Nat.div_add_mod' value b.base
    generalize b.digits.getD (value % b.base) 0 = ch at hmem hindex
    split <;> simp [hmem, hindex, hcomma, hlast]

lemma accumulateDigits_short (c : PrintfConversion) {n : Nat} (value digitCnt : Nat)
    (hval : value < b.base ^ n) : (accumulateDigits b c room value digitCnt).length ≤ 2 * n := by
  induction n generalizing room value digitCnt with
  | zero =>
    obtain rfl : value = 0 := by simpa using hval
    cases room <;> simp [accumulateDigits]
  | succ n ih =>
    cases room with
    | zero => simp [accumulateDigits]
    | succ room =>
      have := @ih room (value / b.base) (digitCnt + 1)
        (Nat.div_lt_of_lt_mul (by rwa [pow_succ, mul_comm] at hval))
      unfold accumulateDigits
      split_ifs <;> simp <;> omega

/-- The number of characters before digit number `k`, in groups. -/
def place (b : IntegerBase) (k : Nat) : Nat := k + (k - 1) / b.group

section

variable (h : DigitsOk b)

include h

lemma place_succ (k : Nat) :
    (k > 0 ∧ k % b.group = 0 →
      place b k % (b.group + 1) = b.group ∧ place b (k + 1) = place b k + 2) ∧
      (¬ (k > 0 ∧ k % b.group = 0) →
        place b k % (b.group + 1) ≠ b.group ∧ place b (k + 1) = place b k + 1) := by
  unfold place
  rcases h.group with hg | hg <;> rw [hg] <;> omega

lemma accumulateDigits_comma (c : PrintfConversion) (room value k i : Nat) :
    (accumulateDigits b c room value k)[i]? = some 44 ↔
      i < (accumulateDigits b c room value k).length ∧ c.flags.group = true ∧
        (place b k + i) % (b.group + 1) = b.group := by
  induction room generalizing value k i with
  | zero => simp [accumulateDigits]
  | succ room ih =>
    unfold accumulateDigits
    by_cases hzero : value = 0
    · simp [hzero]
    rw [if_neg hzero]
    have hdigit : b.digits.getD (value % b.base) 0 ≠ 44 := fun heq =>
      h.other 44 (by simp) (heq ▸ (h.digit _ (Nat.mod_lt _ h.base)).1)
    generalize b.digits.getD (value % b.base) 0 = ch at hdigit
    have hrest := ih (value / b.base) (k + 1)
    generalize accumulateDigits b c room (value / b.base) (k + 1) = rest at hrest
    obtain ⟨hcomma, hnone⟩ := place_succ h k
    by_cases hgroup : c.flags.group = true
    · by_cases hk : k > 0 ∧ k % b.group = 0
      · obtain ⟨hplace, hnext⟩ := hcomma hk
        rw [if_pos ⟨hgroup, hk⟩]
        rcases i with _ | _ | i
        · simp [hplace, hgroup]
        · have : (place b k + 1) % (b.group + 1) ≠ b.group := by
            rcases h.group with hg | hg <;> rw [hg] at hplace ⊢ <;> omega
          simp [hdigit, this]
        · have := hrest i
          rw [hnext, Nat.add_right_comm, Nat.add_assoc] at this
          simpa [Nat.add_assoc] using this
      · obtain ⟨hplace, hnext⟩ := hnone hk
        rw [if_neg (fun hall => hk hall.2), List.nil_append]
        cases i with
        | zero => simp [hdigit, hplace]
        | succ i =>
          have := hrest i
          rw [hnext, Nat.add_right_comm, Nat.add_assoc] at this
          simpa using this
    · rw [if_neg (fun hall => hgroup hall.1), List.nil_append]
      cases i with
      | zero => simp [hdigit, hgroup]
      | succ i => simpa [hgroup] using hrest i

lemma accumulateDigits_characters (c : PrintfConversion) (room value k : Nat) :
    (∀ ch ∈ accumulateDigits b c room value k, ch ∈ b.digits ∨ ch = 44) ∧
      (accumulateDigits b c room value k).getLast? ≠ some 44 := by
  induction room generalizing value k with
  | zero => simp [accumulateDigits]
  | succ room ih =>
    unfold accumulateDigits
    by_cases hzero : value = 0
    · simp [hzero]
    rw [if_neg hzero]
    have hdigit := (h.digit (value % b.base) (Nat.mod_lt _ h.base)).1
    have hcomma : b.digits.getD (value % b.base) 0 ≠ 44 := fun heq =>
      h.other 44 (by simp) (heq ▸ hdigit)
    generalize b.digits.getD (value % b.base) 0 = ch at hdigit hcomma
    obtain ⟨hall, hlast⟩ := ih (value / b.base) (k + 1)
    generalize accumulateDigits b c room (value / b.base) (k + 1) = rest at hall hlast
    constructor
    · have hfront : ∀ d ∈ (if c.flags.group = true ∧ k > 0 ∧ k % b.group = 0 then [44] else []),
          d ∈ b.digits ∨ d = (44 : Byte) := by split <;> simp
      simpa only [List.forall_mem_append, List.forall_mem_cons] using
        ⟨hfront, .inl hdigit, hall⟩
    · rw [List.getLast?_append, List.getLast?_cons]
      cases hrest : rest.getLast? with
      | none => simpa using hcomma
      | some d => simpa [hrest] using hlast

lemma readBack_spaces (text : List Byte) (n : Nat) :
    readBack b (text ++ List.replicate n 32) = readBack b text := by
  have hspace : (List.replicate n (32 : Byte)).filter (· ∈ b.digits) = [] := by
    simpa using fun _ => h.other 32 (by simp)
  rw [readBack, List.filter_append, hspace, List.append_nil, readBack]

lemma readBack_output (p : Pieces) (flags : Flags) (n : Nat)
    (hsign : ∀ ch ∈ p.sign, ch ∉ b.digits) (hx : ∀ ch ∈ p.x, ch ∈ b.digits → ch = 48) :
    readBack b (p.output flags n) = readBack b p.digits := by
  have hlead : ∀ ch ∈ (if flags.minus ∨ flags.zero then [] else List.replicate n 32) ++
      p.sign ++ p.x ++ (if flags.zero then List.replicate n 48 else []),
        ch ∈ b.digits → ch = 48 := by
    intro ch hch hmem
    simp only [List.mem_append] at hch
    rcases hch with ((hch | hch) | hch) | hch
    · split at hch
      · simp at hch
      · exact absurd (List.eq_of_mem_replicate hch ▸ hmem) (h.other 32 (by simp))
    · exact absurd hmem (hsign ch hch)
    · exact hx ch hch hmem
    split at hch
    · exact List.eq_of_mem_replicate hch
    · simp at hch
  by_cases hminus : flags.minus = true
  · rw [Pieces.output, if_pos hminus, readBack_spaces h, readBack_silent h _ hlead]
  · rw [Pieces.output, if_neg hminus, List.append_nil, readBack_silent h _ hlead]

lemma readBack_formatInteger (c : Conversion) (value : Nat) (isSigned negative : Bool) :
    readBack b (formatInteger b c value isSigned negative) =
      readBack b (pieces b c value isSigned negative).digits := by
  refine readBack_output h _ _ _ (fun ch hch => ?_) fun ch hch hmem => ?_
  · have hsign : ch ∈ [32, 43, 45] := by
      revert hch
      simp only [pieces, signCharacter]
      split_ifs <;> simp +contextual
    exact h.other ch (by simp at hsign ⊢; tauto)
  · simp only [pieces] at hch
    split at hch
    · rcases List.mem_cons.mp hch with rfl | hch
      · rfl
      · exact absurd (List.mem_singleton.mp hch ▸ hmem) (h.other b.x (by simp))
    · simp at hch

end

end ReadBack

end Pintos.Printf
