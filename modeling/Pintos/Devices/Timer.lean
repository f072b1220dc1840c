import Pintos.Lib.Debug

/-!
# Calibration of the timer

`timer_calibrate` of `devices/timer.c` over what `too_many_loops` answers.
-/

namespace Pintos.Devices

open Foundation

variable (tooManyLoops : Nat → Bool)

/-- After 32 rounds every bit has been shifted out, and the assertion has failed. -/
def doubleLoops : Nat → Nat → Except Fault Nat
  | 0, _ => .error (.assertion "loops_per_tick != 0")
  | rounds + 1, loopsPerTick =>
    if tooManyLoops ((loopsPerTick <<< 1) % 2 ^ 32) then .ok loopsPerTick
    else do
      assertThat ((loopsPerTick <<< 1) % 2 ^ 32 ≠ 0) "loops_per_tick != 0"
      doubleLoops rounds ((loopsPerTick <<< 1) % 2 ^ 32)

/-- Nine shifts take `testBit` from `highBit >>> 1` to `highBit >>> 10`. -/
def refineLoops (highBit : Nat) : Nat → Nat → Nat → Nat
  | 0, _, loopsPerTick => loopsPerTick
  | rounds + 1, testBit, loopsPerTick =>
    if testBit = highBit >>> 10 then loopsPerTick
    else refineLoops highBit rounds (testBit >>> 1)
      (if tooManyLoops (highBit ||| testBit) then loopsPerTick else loopsPerTick ||| testBit)

def timerCalibrate : Except Fault Nat := do
  let highBit ← doubleLoops tooManyLoops 32 (1 <<< 10)
  return refineLoops tooManyLoops highBit 10 (highBit >>> 1) highBit

/-- More than one tick passes in more than `limit` loops. -/
def exceeds (limit loops : Nat) : Bool := limit < loops

variable {limit j : Nat}

lemma doubleLoops_eq (hlimit : limit < 2 ^ 31) (rounds : Nat) (hj : 2 ^ j ≤ limit)
    (hrounds : Nat.log 2 limit < j + rounds) :
    doubleLoops (exceeds limit) rounds (2 ^ j) = .ok (2 ^ Nat.log 2 limit) := by
  induction rounds generalizing j with
  | zero => exact absurd (Nat.le_log_of_pow_le (by decide) hj) (by omega)
  | succ rounds ih =>
    have hj31 : j < 31 := (Nat.pow_lt_pow_iff_right (by decide)).mp (hj.trans_lt hlimit)
    have hnext : (2 ^ j <<< 1) % 2 ^ 32 = 2 ^ (j + 1) := by
      rw [Nat.shiftLeft_eq, ← pow_succ, Nat.mod_eq_of_lt]
      exact Nat.pow_lt_pow_right (by decide) (by omega)
    rw [doubleLoops, hnext]
    by_cases hstop : limit < 2 ^ (j + 1)
    · have hlog := (Nat.log_eq_iff (.inr ⟨by decide, by omega⟩)).mpr ⟨hj, hstop⟩
      simp [exceeds, hstop, hlog]
    · simp only [exceeds, hstop, decide_false, Bool.false_eq_true, if_false]
      rw [assertThat_of_true _ (by positivity)]
      exact ih (by omega) (by omega)

/-- The loop does to the upper bits of a large value what it does to a value of eleven bits. -/
lemma refineLoops_scaled (rounds c loops : Nat) :
    refineLoops (exceeds limit) (1024 <<< j) rounds (2 ^ c <<< j) (loops <<< j) =
      refineLoops (exceeds (limit >>> j)) 1024 rounds (2 ^ c) loops <<< j := by
  induction rounds generalizing c loops with
  | zero => rfl
  | succ rounds ih =>
    have hend : 1024 <<< j >>> 10 = 1 <<< j := by
      simp only [Nat.shiftLeft_eq, Nat.shiftRight_eq_div_pow]
      omega
    have hinj : 2 ^ c <<< j = 1 <<< j ↔ 2 ^ c = 1 := by
      simp only [Nat.shiftLeft_eq]
      exact Nat.mul_left_inj (by positivity)
    simp only [refineLoops, hend, hinj]
    cases c with
    | zero => rfl
    | succ c =>
      have hhalf : ∀ i, 2 ^ (c + 1) <<< i >>> 1 = 2 ^ c <<< i := by
        intro i
        simp only [Nat.shiftLeft_eq, Nat.shiftRight_eq_div_pow, pow_succ]
        rw [Nat.mul_right_comm]
        omega
      have htest : exceeds limit (1024 <<< j ||| 2 ^ (c + 1) <<< j) =
          exceeds (limit >>> j) (1024 ||| 2 ^ (c + 1)) := by
        rw [← Nat.shiftLeft_or_distrib]
        simp only [exceeds, Nat.shiftLeft_eq, Nat.shiftRight_eq_div_pow,
          Nat.div_lt_iff_lt_mul (show 0 < 2 ^ j by positivity)]
      have hone : ¬ 2 ^ (c + 1) = 1 := by simp
      have hhalf' := hhalf 0
      rw [Nat.shiftLeft_zero, Nat.shiftLeft_zero] at hhalf'
      rw [if_neg hone, hhalf, htest, hhalf', show 1024 >>> 10 = 1 from rfl, if_neg hone, ← ih]
      split
      · rfl
      · rw [Nat.shiftLeft_or_distrib]

lemma refineLoops_small : ∀ n < 1024,
    ((refineLoops (exceeds (1024 + n)) 1024 10 512 1024 ≤ 1024 + n ∧
      1024 + n < refineLoops (exceeds (1024 + n)) 1024 10 512 1024 + 2) ↔
        ∃ k ≤ 9, (1024 + n) / 2 + 1 = 2 ^ 9 + 2 ^ k) := by
  decide +kernel

/-- Every bit is tested together with the highest one only, so the bits below the first that fits
are all taken. -/
theorem timerCalibrate_near_iff {limit : Nat} (hlo : 2 ^ 10 ≤ limit) (hhi : limit < 2 ^ 31) :
    ∃ loopsPerTick, timerCalibrate (exceeds limit) = .ok loopsPerTick ∧
      ((loopsPerTick ≤ limit ∧ (limit - loopsPerTick) * 2 ^ 9 < 2 ^ Nat.log 2 limit) ↔
        ∃ k ≤ 9, limit / 2 ^ (Nat.log 2 limit - 9) + 1 = 2 ^ 9 + 2 ^ k) := by
  have hlog31 : Nat.log 2 limit < 31 := Nat.log_lt_of_lt_pow (by omega) hhi
  have hdouble := doubleLoops_eq hhi 32 hlo (by omega)
  have hlow := Nat.pow_log_le_self 2 (show limit ≠ 0 by omega)
  have hhigh := Nat.lt_pow_succ_log_self (show 1 < 2 by decide) limit
  obtain ⟨j, hj⟩ := Nat.exists_eq_add_of_le (Nat.le_log_of_pow_le (by decide) hlo)
  rw [hj, Nat.pow_add] at hdouble hlow ⊢
  rw [hj, Nat.succ_eq_add_one, Nat.add_right_comm, Nat.pow_add] at hhigh
  have hpos : 0 < 2 ^ j := by positivity
  obtain ⟨n, hn⟩ := Nat.exists_eq_add_of_le ((Nat.le_div_iff_mul_le hpos).mpr hlow)
  have htop := (Nat.div_lt_iff_lt_mul hpos).mpr hhigh
  have hsmall := refineLoops_small n (by omega)
  have hscaled := @refineLoops_scaled limit j 10 9 1024
  rw [Nat.shiftRight_eq_div_pow, hn] at hscaled
  generalize refineLoops (exceeds (1024 + n)) 1024 10 (2 ^ 9) 1024 = loops at hscaled hsmall
  refine ⟨loops * 2 ^ j, ?_, ?_⟩
  · have hhalf : (2 ^ 10 * 2 ^ j) >>> 1 = 2 ^ 9 * 2 ^ j := by
      rw [Nat.shiftRight_eq_div_pow]
      omega
    simp only [Nat.shiftLeft_eq] at hscaled
    rw [timerCalibrate, show 1 <<< 10 = 2 ^ 10 from rfl, hdouble]
    change Except.ok (refineLoops _ _ 10 ((2 ^ 10 * 2 ^ j) >>> 1) _) = _
    rw [hhalf]
    exact congrArg _ hscaled
  have hdiv : limit / 2 ^ (10 + j - 9) = (1024 + n) / 2 := by
    rw [show 10 + j - 9 = j + 1 by omega, pow_succ, ← Nat.div_div_eq_div_mul, hn]
  have hle : loops * 2 ^ j ≤ limit ↔ loops ≤ 1024 + n := by rw [← Nat.le_div_iff_mul_le hpos, hn]
  have hlt : limit < (loops + 2) * 2 ^ j ↔ 1024 + n < loops + 2 := by
    rw [← Nat.div_lt_iff_lt_mul hpos, hn]
  rw [hdiv, ← hsmall, ← hle, ← hlt, Nat.add_mul]
  omega

theorem timerCalibrate_overshoots :
    timerCalibrate (exceeds 1536) = .ok 2046 ∧ ¬ 2046 ≤ 1536 := by
  decide +kernel

theorem timerCalibrate_near_2047 : ∃ loopsPerTick,
    timerCalibrate (exceeds 2047) = .ok loopsPerTick ∧
      loopsPerTick ≤ 2047 ∧ (2047 - loopsPerTick) * 2 ^ 9 < 2 ^ Nat.log 2 2047 := by
  obtain ⟨loopsPerTick, hcall, hnear⟩ := @timerCalibrate_near_iff 2047 (by decide) (by decide)
  exact ⟨loopsPerTick, hcall, hnear.mpr ⟨9, le_rfl, by decide +kernel⟩⟩

end Pintos.Devices
