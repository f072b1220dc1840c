import Pintos.Foundation.Memory
import Pintos.Lib.Debug

/-!
# Bitmaps

`lib/kernel/bitmap.c`.  A bitmap is an array of 32-bit elements; bit `i` is bit
`i % 32` of element `i / 32`.  The number of elements is fixed by the number of
bits, and a bitmap whose element count would not fit in `size_t` cannot be
created, so both facts are fields of the structure.  `Bitmap.get` is the meaning
of the array, and each operation has one lemma that says what it does to `get`.
-/

namespace Pintos

open Foundation

variable {bitCnt cnt i idx start : Nat}

structure Bitmap where
  bitCnt : Nat
  bits : List (BitVec 32)
  length_bits : bits.length = (bitCnt + 31) / 32
  bitCnt_le : bitCnt ≤ 2 ^ 32 - 32
  deriving DecidableEq, Repr

namespace Bitmap

def elemIdx (bitIdx : Nat) : Nat := bitIdx / 32

def bitMask (bitIdx : Nat) : BitVec 32 := 1#32 <<< (bitIdx % 32)

/-- `DIV_ROUND_UP (bit_cnt, ELEM_BITS)` in `size_t` arithmetic. -/
def elemCnt (bitCnt : Nat) : Nat := (bitCnt + 31) % 2 ^ 32 / 32

def byteCnt (bitCnt : Nat) : Nat := 4 * elemCnt bitCnt

def lastMask (bitCnt : Nat) : BitVec 32 :=
  if bitCnt % 32 = 0 then BitVec.allOnes 32
  else (1#32 <<< (bitCnt % 32)) - 1#32

def get (b : Bitmap) (i : Nat) : Bool := (b.bits.getD (elemIdx i) 0#32).getLsbD (i % 32)

def setElem (b : Bitmap) (idx : Nat) (value : BitVec 32) : Bitmap where
  bitCnt := b.bitCnt
  bits := b.bits.set idx value
  length_bits := by simpa using b.length_bits
  bitCnt_le := b.bitCnt_le

/-- A store through `b->bits` outside the array follows no valid pointer. -/
def update (b : Bitmap) (bitIdx : Nat) (f : BitVec 32 → BitVec 32) : Except Fault Bitmap :=
  if elemIdx bitIdx < b.bits.length then
    .ok (b.setElem (elemIdx bitIdx) (f (b.bits.getD (elemIdx bitIdx) 0#32)))
  else .error .wildAccess

def mark (b : Bitmap) (bitIdx : Nat) : Except Fault Bitmap := b.update bitIdx (· ||| bitMask bitIdx)

def reset (b : Bitmap) (bitIdx : Nat) : Except Fault Bitmap :=
  b.update bitIdx (· &&& ~~~ bitMask bitIdx)

def flip (b : Bitmap) (bitIdx : Nat) : Except Fault Bitmap := b.update bitIdx (· ^^^ bitMask bitIdx)

def set (b : Bitmap) (idx : Nat) (value : Bool) : Except Fault Bitmap := do
  assertThat (idx < b.bitCnt) "idx < b->bit_cnt"
  if value then b.mark idx else b.reset idx

def test (b : Bitmap) (idx : Nat) : Except Fault Bool := do
  assertThat (idx < b.bitCnt) "idx < b->bit_cnt"
  return b.bits.getD (elemIdx idx) 0#32 &&& bitMask idx != 0#32

def setLoop (b : Bitmap) (idx : Nat) (value : Bool) : Nat → Except Fault Bitmap
  | 0 => .ok b
  | remaining + 1 => do
    let b ← b.set idx value
    b.setLoop (idx + 1) value remaining

def setMultiple (b : Bitmap) (start cnt : Nat) (value : Bool) : Except Fault Bitmap := do
  assertThat (start ≤ b.bitCnt) "start <= b->bit_cnt"
  assertThat (start + cnt ≤ b.bitCnt) "start + cnt <= b->bit_cnt"
  b.setLoop start value cnt

def setAll (b : Bitmap) (value : Bool) : Except Fault Bitmap := b.setMultiple 0 b.bitCnt value

def containsLoop (b : Bitmap) (idx : Nat) (value : Bool) : Nat → Except Fault Bool
  | 0 => .ok false
  | remaining + 1 => do
    if (← b.test idx) = value then return true
    b.containsLoop (idx + 1) value remaining

def contains (b : Bitmap) (start cnt : Nat) (value : Bool) : Except Fault Bool := do
  assertThat (start ≤ b.bitCnt) "start <= b->bit_cnt"
  assertThat (start + cnt ≤ b.bitCnt) "start + cnt <= b->bit_cnt"
  b.containsLoop start value cnt

def all (b : Bitmap) (start cnt : Nat) : Except Fault Bool := do
  return !(← b.contains start cnt false)

def scanLoop (b : Bitmap) (i cnt : Nat) (value : Bool) : Nat → Except Fault (Option Nat)
  | 0 => .ok none
  | remaining + 1 => do
    if ← b.contains i cnt !value then b.scanLoop (i + 1) cnt value remaining
    else return some i

def scan (b : Bitmap) (start cnt : Nat) (value : Bool) : Except Fault (Option Nat) := do
  assertThat (start ≤ b.bitCnt) "start <= b->bit_cnt"
  if cnt ≤ b.bitCnt then
    b.scanLoop start cnt value (b.bitCnt - cnt + 1 - start)
  else return none

def scanAndFlip (b : Bitmap) (start cnt : Nat) (value : Bool) :
    Except Fault (Option Nat × Bitmap) := do
  match ← b.scan start cnt value with
  | some idx => return (some idx, ← b.setMultiple idx cnt !value)
  | none => return (none, b)

/--
The pure part of `bitmap_create`: `heap` is what the allocated block held
before.  An element count of zero makes `malloc` return a null pointer, which
is an error unless the bitmap has no bits.
-/
def create (bitCnt : Nat) (heap : Nat → BitVec 32) : Except Fault (Option Bitmap) :=
  if h : bitCnt ≤ 2 ^ 32 - 32 then do
    let raw : Bitmap :=
      { bitCnt
        bits := (List.range ((bitCnt + 31) / 32)).map heap
        length_bits := by simp
        bitCnt_le := h }
    return some (← raw.setAll false)
  else return none

def bytes (b : Bitmap) : Memory := fun i => wordByte (b.bits.getD (i / 4) 0#32).toNat (i % 4)

def ofBytes (b : Bitmap) (m : Memory) : Bitmap :=
  let read : List (BitVec 32) :=
    (List.range b.bits.length).map fun k => BitVec.ofNat 32 (word32 m (4 * k))
  { bitCnt := b.bitCnt
    bits := read.modify (b.bits.length - 1) (· &&& lastMask b.bitCnt)
    length_bits := by simpa [read] using b.length_bits
    bitCnt_le := b.bitCnt_le }

/-! ## Single bits -/

lemma ext_get {b c : Bitmap} (hcnt : b.bitCnt = c.bitCnt)
    (h : ∀ i < 32 * b.bits.length, b.get i = c.get i) : b = c := by
  have hlen : b.bits.length = c.bits.length := by rw [b.length_bits, c.length_bits, hcnt]
  have hbits : b.bits = c.bits := by
    apply List.ext_getElem hlen
    intro k hk hk'
    apply BitVec.eq_of_getLsbD_eq
    intro j hj
    have hget := h (32 * k + j) (by omega)
    have hdiv : (32 * k + j) / 32 = k := by omega
    have hmod : (32 * k + j) % 32 = j := by omega
    simpa [get, elemIdx, hdiv, hmod, hk, hk'] using hget
  cases b
  cases c
  simp_all

variable (b : Bitmap)

lemma elemIdx_lt (hi : i < b.bitCnt) : elemIdx i < b.bits.length := by
  rw [b.length_bits, elemIdx]
  omega

lemma getLsbD_bitMask (i j : Nat) : (bitMask i).getLsbD j = decide (j = i % 32) := by
  have hi : i % 32 < 32 := Nat.mod_lt _ (by omega)
  simp only [bitMask, BitVec.getLsbD_shiftLeft, BitVec.getLsbD_one]
  by_cases h : j = i % 32
  · simp [h, hi]
  by_cases hlt : j < i % 32
  · simp [h, hlt]
  have hne : ¬ j - i % 32 = 0 := by omega
  simp [h, hne]

lemma get_setElem (value : BitVec 32) (hidx : idx < b.bits.length) (j : Nat) :
    (b.setElem idx value).get j =
      if elemIdx j = idx then value.getLsbD (j % 32) else b.get j := by
  simp only [get, setElem, List.getD_eq_getElem?_getD, List.getElem?_set]
  by_cases h : idx = elemIdx j
  · subst h
    simp [hidx]
  · simp [h, Ne.symm h]

lemma eq_iff_of_elemIdx_eq {j : Nat} (h : elemIdx j = elemIdx i) : j % 32 = i % 32 ↔ j = i := by
  simp only [elemIdx] at h
  omega

/-- An update of an element that changes the bit of `idx` by `g` and keeps the others. -/
lemma update_spec {f : BitVec 32 → BitVec 32} {g : Bool → Bool} (h : elemIdx idx < b.bits.length)
    (hf : ∀ e, ∀ j < 32, (f e).getLsbD j = if j = idx % 32 then g (e.getLsbD j) else e.getLsbD j) :
    ∃ c, b.update idx f = .ok c ∧ c.bitCnt = b.bitCnt ∧
      ∀ j, c.get j = if j = idx then g (b.get j) else b.get j := by
  refine ⟨_, if_pos h, rfl, fun j => ?_⟩
  rw [get_setElem _ _ h]
  by_cases hj : elemIdx j = elemIdx idx
  · rw [if_pos hj, hf _ _ (Nat.mod_lt _ (by omega)), ← hj]
    simp only [eq_iff_of_elemIdx_eq hj, get]
  · have hne : j ≠ idx := fun he => hj (he ▸ rfl)
    rw [if_neg hj, if_neg hne]

lemma mark_spec (h : elemIdx idx < b.bits.length) : ∃ c, b.mark idx = .ok c ∧
    c.bitCnt = b.bitCnt ∧ ∀ j, c.get j = if j = idx then true else b.get j := by
  refine b.update_spec (g := fun _ => true) h fun e j _ => ?_
  by_cases hj : j = idx % 32 <;> simp [getLsbD_bitMask, hj]

lemma reset_spec (h : elemIdx idx < b.bits.length) : ∃ c, b.reset idx = .ok c ∧
    c.bitCnt = b.bitCnt ∧ ∀ j, c.get j = if j = idx then false else b.get j := by
  refine b.update_spec (g := fun _ => false) h fun e j hlt => ?_
  have hmask := getLsbD_bitMask idx j
  rw [BitVec.getLsbD_and, BitVec.getLsbD_not, hmask]
  by_cases hj : j = idx % 32 <;> simp [hj, hlt]

lemma flip_spec (h : idx < b.bitCnt) : ∃ c, b.flip idx = .ok c ∧
    c.bitCnt = b.bitCnt ∧ ∀ j, c.get j = if j = idx then !b.get j else b.get j := by
  refine b.update_spec (g := Bool.not) (b.elemIdx_lt h) fun e j _ => ?_
  by_cases hj : j = idx % 32 <;> simp [getLsbD_bitMask, hj]

lemma set_spec (value : Bool) (h : idx < b.bitCnt) : ∃ c, b.set idx value = .ok c ∧
    c.bitCnt = b.bitCnt ∧ ∀ j, c.get j = if j = idx then value else b.get j := by
  have hset : b.set idx value = if value then b.mark idx else b.reset idx := by
    simp only [set, assertThat_of_true _ h, bind, Except.bind]
  rw [hset]
  cases value with
  | true => exact b.mark_spec (b.elemIdx_lt h)
  | false => exact b.reset_spec (b.elemIdx_lt h)

lemma test_eq (h : idx < b.bitCnt) : b.test idx = .ok (b.get idx) := by
  have hmask : ∀ w : BitVec 32, (w &&& bitMask idx != 0#32) = w.getLsbD (idx % 32) := by
    intro w
    have hi : idx % 32 < 32 := Nat.mod_lt _ (by omega)
    cases hw : w.getLsbD (idx % 32) with
    | true =>
      have hne : w &&& bitMask idx ≠ 0#32 := by
        intro hzero
        have := congrArg (·.getLsbD (idx % 32)) hzero
        simp [hw, getLsbD_bitMask idx] at this
      simpa using hne
    | false =>
      have hzero : w &&& bitMask idx = 0#32 := by
        apply BitVec.eq_of_getLsbD_eq
        intro j hj
        rw [BitVec.getLsbD_and, getLsbD_bitMask idx j]
        by_cases he : j = idx % 32 <;> simp [he, hw]
      simp [hzero]
  simp [test, h, bind, Except.bind, pure, Except.pure, hmask, get]

/-! ## Ranges -/

lemma setLoop_spec (idx : Nat) (value : Bool) (remaining : Nat) (h : idx + remaining ≤ b.bitCnt) :
    ∃ c, b.setLoop idx value remaining = .ok c ∧ c.bitCnt = b.bitCnt ∧ ∀ j, c.get j =
        if idx ≤ j ∧ j < idx + remaining then value else b.get j := by
  induction remaining generalizing b idx with
  | zero =>
    refine ⟨b, rfl, rfl, ?_⟩
    intro j
    rw [if_neg (by omega)]
  | succ remaining ih =>
    obtain ⟨c, hset, hcnt, hget⟩ := b.set_spec value (show idx < b.bitCnt by omega)
    obtain ⟨d, hloop, hcnt', hget'⟩ := ih c (idx + 1) (by omega)
    refine ⟨d, by simp [setLoop, hset, bind, Except.bind, hloop], hcnt'.trans hcnt, ?_⟩
    intro j
    rw [hget', hget]
    by_cases hj : j = idx
    · subst hj
      rw [if_neg (by omega), if_pos rfl, if_pos (by omega)]
    by_cases hin : idx + 1 ≤ j ∧ j < idx + 1 + remaining
    · rw [if_pos hin, if_pos (by omega)]
    · rw [if_neg hin, if_neg hj, if_neg (by omega)]

lemma setMultiple_spec (value : Bool) (h : start + cnt ≤ b.bitCnt) :
    ∃ c, b.setMultiple start cnt value = .ok c ∧ c.bitCnt = b.bitCnt ∧ ∀ j, c.get j =
        if start ≤ j ∧ j < start + cnt then value else b.get j := by
  have hstart : start ≤ b.bitCnt := by omega
  simpa [setMultiple, hstart, h, bind, Except.bind] using b.setLoop_spec start value cnt h

lemma containsLoop_spec (idx : Nat) (value : Bool) (remaining : Nat)
    (h : idx + remaining ≤ b.bitCnt) : ∃ found, b.containsLoop idx value remaining = .ok found ∧
    (found = true ↔ ∃ j, idx ≤ j ∧ j < idx + remaining ∧ b.get j = value) := by
  induction remaining generalizing idx with
  | zero =>
    refine ⟨false, rfl, ?_⟩
    constructor
    · intro hfalse
      contradiction
    · rintro ⟨j, hlo, hhi, -⟩
      omega
  | succ remaining ih =>
    rw [containsLoop, b.test_eq (by omega)]
    by_cases hv : b.get idx = value
    · refine ⟨true, by simp [bind, Except.bind, hv, pure, Except.pure], ?_⟩
      exact iff_of_true rfl ⟨idx, le_refl _, by omega, hv⟩
    obtain ⟨found, hfound, hiff⟩ := ih (idx + 1) (by omega)
    refine ⟨found, by simp [bind, Except.bind, hv, hfound], ?_⟩
    rw [hiff]
    constructor
    · rintro ⟨j, hlo, hhi, hj⟩
      exact ⟨j, by omega, by omega, hj⟩
    · rintro ⟨j, hlo, hhi, hj⟩
      have hne : j ≠ idx := fun he => hv (he ▸ hj)
      exact ⟨j, by omega, by omega, hj⟩

lemma contains_spec (value : Bool) (h : start + cnt ≤ b.bitCnt) :
    ∃ found, b.contains start cnt value = .ok found ∧ (found = true ↔
        ∃ j, start ≤ j ∧ j < start + cnt ∧ b.get j = value) := by
  have hstart : start ≤ b.bitCnt := by omega
  simpa [contains, hstart, h, bind, Except.bind] using b.containsLoop_spec start value cnt h

lemma all_spec (h : start + cnt ≤ b.bitCnt) : ∃ ok, b.all start cnt = .ok ok ∧
      (ok = true ↔ ∀ j, start ≤ j → j < start + cnt → b.get j = true) := by
  obtain ⟨found, hfound, hiff⟩ := b.contains_spec false h
  refine ⟨!found, by simp [all, hfound, bind, Except.bind, pure, Except.pure], ?_⟩
  constructor
  · intro hok j hlo hhi
    by_contra hj
    have : found = true := hiff.mpr ⟨j, hlo, hhi, by simpa using hj⟩
    simp [this] at hok
  · intro hall
    cases found with
    | false => rfl
    | true =>
      obtain ⟨j, hlo, hhi, hj⟩ := hiff.mp rfl
      simp [hall j hlo hhi] at hj

/-! ## First fit -/

def Run (b : Bitmap) (i cnt : Nat) (value : Bool) : Prop :=
  i + cnt ≤ b.bitCnt ∧ ∀ j, i ≤ j → j < i + cnt → b.get j = value

lemma contains_run (value : Bool) (h : i + cnt ≤ b.bitCnt) :
    ∃ found, b.contains i cnt (!value) = .ok found ∧ (found = false ↔ b.Run i cnt value) := by
  obtain ⟨found, hfound, hiff⟩ := b.contains_spec (!value) h
  refine ⟨found, hfound, ?_⟩
  rw [← Bool.not_eq_true, hiff]
  simp only [Run, h, true_and]
  constructor
  · intro hnone j hlo hhi
    by_contra hj
    exact hnone ⟨j, hlo, hhi, Bool.eq_not.mpr hj⟩
  · rintro hall ⟨j, hlo, hhi, hj⟩
    rw [hall j hlo hhi] at hj
    simp at hj

lemma scanLoop_spec (i cnt : Nat) (value : Bool)
    (remaining : Nat) (h : i + remaining + cnt ≤ b.bitCnt + 1) :
    (∃ k, b.scanLoop i cnt value remaining = .ok (some k) ∧ i ≤ k ∧
        k < i + remaining ∧ b.Run k cnt value ∧ ∀ k', i ≤ k' → k' < k → ¬ b.Run k' cnt value) ∨
      (b.scanLoop i cnt value remaining = .ok none ∧
        ∀ k, i ≤ k → k < i + remaining → ¬ b.Run k cnt value) := by
  induction remaining generalizing i with
  | zero =>
    right
    exact ⟨rfl, fun k hlo hhi => by omega⟩
  | succ remaining ih =>
    have hfit : i + cnt ≤ b.bitCnt := by omega
    obtain ⟨found, hfound, hiff⟩ := b.contains_run value hfit
    cases found with
    | false =>
      left
      exact ⟨i, by simp [scanLoop, hfound, bind, Except.bind, pure, Except.pure],
        le_refl _, by omega, hiff.mp rfl, fun k' hlo hhi => by omega⟩
    | true =>
      have hrun : ¬ b.Run i cnt value := fun hr => by simpa using hiff.mpr hr
      have hstep : b.scanLoop i cnt value (remaining + 1) =
          b.scanLoop (i + 1) cnt value remaining := by
        simp [scanLoop, hfound, bind, Except.bind]
      rw [hstep]
      have widen : ∀ k, i ≤ k → k ≠ i → i + 1 ≤ k := fun k hk hne => by omega
      rcases ih (i + 1) (by omega) with ⟨k, hk, hlo, hhi, hr, hmin⟩ | ⟨hk, hnone⟩
      · left
        refine ⟨k, hk, by omega, by omega, hr, ?_⟩
        intro k' hlo' hhi'
        by_cases he : k' = i
        · exact he ▸ hrun
        · exact hmin k' (widen k' hlo' he) hhi'
      right
      refine ⟨hk, ?_⟩
      intro k hlo hhi
      by_cases he : k = i
      · exact he ▸ hrun
      · exact hnone k (widen k hlo he) (by omega)

lemma scanAndFlip_spec (cnt : Nat) (value : Bool) (h : start ≤ b.bitCnt) :
    (∃ i c, b.scanAndFlip start cnt value = .ok (some i, c) ∧ start ≤ i ∧
        b.Run i cnt value ∧ (∀ k, start ≤ k → k < i → ¬ b.Run k cnt value) ∧ c.bitCnt = b.bitCnt ∧
        ∀ j, c.get j = if i ≤ j ∧ j < i + cnt then !value else b.get j) ∨
      (b.scanAndFlip start cnt value = .ok (none, b) ∧ ∀ i, start ≤ i → ¬ b.Run i cnt value) := by
  by_cases hcnt : cnt ≤ b.bitCnt
  · by_cases hlast : start ≤ b.bitCnt - cnt
    · have hscan : b.scan start cnt value =
          b.scanLoop start cnt value (b.bitCnt - cnt + 1 - start) := by
        simp [scan, h, hcnt, bind, Except.bind]
      rcases b.scanLoop_spec start cnt value (b.bitCnt - cnt + 1 - start)
          (by omega) with ⟨i, hi, hlo, hhi, hrun, hmin⟩ | ⟨hi, hnone⟩
      · left
        obtain ⟨c, hc, hbc, hget⟩ := b.setMultiple_spec (!value) hrun.1
        exact ⟨i, c, by simp [scanAndFlip, hscan, hi, hc, bind, Except.bind,
          pure, Except.pure], hlo, hrun, hmin, hbc, hget⟩
      right
      refine ⟨by simp [scanAndFlip, hscan, hi, bind, Except.bind, pure, Except.pure], ?_⟩
      intro i hlo hrun
      exact hnone i hlo (by have := hrun.1; omega) hrun
    · right
      have hzero : b.bitCnt - cnt + 1 - start = 0 := by omega
      refine ⟨by simp [scanAndFlip, scan, h, hcnt, hzero, scanLoop, bind,
        Except.bind, pure, Except.pure], ?_⟩
      intro i hlo hrun
      have := hrun.1
      omega
  · right
    refine ⟨by simp [scanAndFlip, scan, h, hcnt, bind, Except.bind, pure, Except.pure], ?_⟩
    intro i hlo hrun
    have := hrun.1
    omega

/-- `bitmap_scan_and_flip` finds the first group and flips it, or changes nothing; no assertion
fails, and no word outside the array is stored to or tested. -/
theorem scanAndFlip_firstFit (b : Bitmap) {start : Nat} (cnt : Nat) (value : Bool)
    (h : start ≤ b.bitCnt) :
    (∃ found c, b.scanAndFlip start cnt value = .ok (found, c) ∧ c.bitCnt = b.bitCnt ∧
      (∀ i, found = some i ↔ start ≤ i ∧ b.Run i cnt value ∧
        ∀ k, start ≤ k → k < i → ¬ b.Run k cnt value) ∧
      (found = none ↔ ∀ i, start ≤ i → ¬ b.Run i cnt value) ∧ (∀ i, found = some i →
        ∀ j, c.get j = if i ≤ j ∧ j < i + cnt then !value else b.get j) ∧ (found = none → c = b)) ∧
    ∀ (c : Bitmap) (idx : Nat) (bit : Bool), c.test idx = .ok bit →
    elemIdx idx < c.bits.length := by
  constructor
  · rcases b.scanAndFlip_spec cnt value h with
      ⟨i, c, hrun, hlo, hfits, hmin, hcnt, hget⟩ | ⟨hrun, hnone⟩
    · refine ⟨some i, c, hrun, hcnt, fun k => ⟨?_, ?_⟩, by simpa using ⟨i, hlo, hfits⟩, ?_, by simp⟩
      · rintro ⟨⟩
        exact ⟨hlo, hfits, hmin⟩
      · rintro ⟨hlo', hfits', hmin'⟩
        -- neither of two least indexes is below the other
        rcases Nat.lt_trichotomy i k with hlt | rfl | hlt
        · exact absurd hfits (hmin' i hlo hlt)
        · rfl
        · exact absurd hfits' (hmin k hlo' hlt)
      · rintro _ ⟨⟩
        exact hget
    · refine ⟨none, b, hrun, rfl, fun i => ?_, by simpa using hnone, by simp, fun _ => rfl⟩
      simpa using fun hlo hfits => absurd hfits (hnone i hlo)
  · intro c idx bit htest
    by_cases hidx : idx < c.bitCnt
    · exact c.elemIdx_lt hidx
    · simp [test, assertThat, hidx, bind, Except.bind] at htest

def fortyBits : Bitmap := ⟨40, [0b10111#32, 0#32], rfl, by decide⟩

theorem scanAndFlip_firstFit_forty : ∃ found c, fortyBits.scanAndFlip 1 2 false = .ok (found, c) ∧
    (∀ i, found = some i → ∀ j,
      c.get j = if i ≤ j ∧ j < i + 2 then !false else fortyBits.get j) := by
  obtain ⟨⟨found, c, hrun, -, -, -, hget, -⟩, -⟩ :=
    fortyBits.scanAndFlip_firstFit 2 false (show 1 ≤ 40 by decide)
  exact ⟨found, c, hrun, hget⟩

/-! ## Creation -/

lemma create_spec (heap : Nat → BitVec 32) (h : bitCnt ≤ 2 ^ 32 - 32) :
    ∃ b, create bitCnt heap = .ok (some b) ∧ b.bitCnt = bitCnt ∧ ∀ j < bitCnt, b.get j = false := by
  let raw : Bitmap :=
    { bitCnt
      bits := (List.range ((bitCnt + 31) / 32)).map heap
      length_bits := by simp
      bitCnt_le := h }
  obtain ⟨b, hb, hcnt, hget⟩ := raw.setMultiple_spec false (Nat.zero_add bitCnt).le
  have hall : raw.setAll false = .ok b := hb
  refine ⟨b, ?_, hcnt, fun j hj => ?_⟩
  · simp only [create, dif_pos h]
    rw [show raw.setAll false = _ from hall]
    rfl
  · rw [hget, if_pos ⟨Nat.zero_le _, by omega⟩]

/-! ## Bitmaps in files -/

lemma div_lt_byteCnt (hcnt : bitCnt ≤ 2 ^ 32 - 32) (hi : i < bitCnt) : i / 8 < byteCnt bitCnt := by
  have hmod : (bitCnt + 31) % 2 ^ 32 = bitCnt + 31 := Nat.mod_eq_of_lt (by omega)
  rw [byteCnt, elemCnt, hmod]
  omega

lemma bitAt_bytes (i : Nat) : bitAt b.bytes 0 i = b.get i := by
  have hdiv : i / 8 / 4 = i / 32 := by omega
  have hmod : 8 * (i / 8 % 4) + i % 8 = i % 32 := by omega
  rw [bitAt, Nat.zero_add, bytes, wordByte_toNat, testBit_byte _ _ (by omega), hdiv, hmod]
  rfl

lemma bitAt_copy_bytes (m : Memory) (a : Nat) (hi : i < b.bitCnt) :
    bitAt (copy m a b.bytes 0 (byteCnt b.bitCnt)) a i = b.get i := by
  have hbyte := div_lt_byteCnt b.bitCnt_le hi
  rw [← bitAt_bytes, bitAt, bitAt, copy_inside _ _ _ (by omega) (by omega), Nat.add_sub_cancel_left]

lemma getLsbD_lastMask (hi : i < bitCnt) (hlast : i / 32 = (bitCnt + 31) / 32 - 1) :
    (lastMask bitCnt).getLsbD (i % 32) = true := by
  have hlt : i % 32 < 32 := by omega
  unfold lastMask
  split
  · rw [BitVec.getLsbD_allOnes]
    simpa using hlt
  have hless : i % 32 < bitCnt % 32 := by omega
  have hval : ((1#32 <<< (bitCnt % 32)) - 1#32).toNat = 2 ^ (bitCnt % 32) - 1 := by
    have hpow : 2 ^ (bitCnt % 32) < 2 ^ 32 :=
      Nat.pow_lt_pow_right (by omega) (Nat.mod_lt _ (by omega))
    have hpos : 0 < 2 ^ (bitCnt % 32) := Nat.two_pow_pos _
    rw [BitVec.toNat_sub, BitVec.toNat_shiftLeft]
    simp only [BitVec.toNat_ofNat, Nat.one_mod_eq_one.mpr (show 2 ^ 32 ≠ 1 by decide),
      Nat.one_shiftLeft]
    rw [Nat.mod_eq_of_lt hpow]
    omega
  rw [BitVec.getLsbD, hval, Nat.testBit_two_pow_sub_one]
  simpa using hless

lemma get_ofBytes (m : Memory) (hi : i < b.bitCnt) : (b.ofBytes m).get i = bitAt m 0 i := by
  have hlen := b.length_bits
  have hidx : elemIdx i < b.bits.length := b.elemIdx_lt hi
  have hword : (BitVec.ofNat 32 (word32 m (4 * elemIdx i))).getLsbD (i % 32) = bitAt m 0 i := by
    have hbyte : i % 32 = 8 * (i / 8 % 4) + i % 8 := by omega
    have haddr : 4 * elemIdx i + i / 8 % 4 = 0 + i / 8 := by
      simp only [elemIdx]
      omega
    rw [BitVec.getLsbD, BitVec.toNat_ofNat, Nat.mod_eq_of_lt (word32_lt _ _), hbyte,
      ← testBit_byte _ _ (by omega), word32_byte m _ (by omega), haddr, bitAt]
  simp only [get, ofBytes, List.getD_eq_getElem?_getD, List.getElem?_modify, List.getElem?_map,
    List.getElem?_range hidx, Option.map_some, Option.map_eq_map, Option.getD_some]
  by_cases hlast : b.bits.length - 1 = elemIdx i
  · have hmask := getLsbD_lastMask hi (by simp only [elemIdx] at hlast; omega)
    rw [if_pos hlast, BitVec.getLsbD_and, hword, hmask, Bool.and_true]
  · rw [if_neg hlast, hword]

end Bitmap

end Pintos
