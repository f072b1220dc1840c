import Mathlib.Tactic

/-!
# Byte memory

A memory is a total function from addresses to bytes.  Buffers, sectors and
whole devices are all memories, so block transfers and `memcpy` are the same
operation, `copy`.  Words are stored least significant byte first.
-/

namespace Pintos.Foundation

variable {a count d i n s : Nat}

abbrev Byte := UInt8

abbrev Memory := Nat → Byte

variable {dst m src : Memory}

/-- The memory `dst` after `count` bytes of `src` from `s` on are stored at `d`. -/
def copy (dst : Memory) (d : Nat) (src : Memory) (s count : Nat) : Memory :=
  fun i => if d ≤ i ∧ i < d + count then src (s + (i - d)) else dst i

def fill (dst : Memory) (d : Nat) (value : Byte) (count : Nat) : Memory :=
  fun i => if d ≤ i ∧ i < d + count then value else dst i

lemma copy_inside (dst src : Memory) (s : Nat) (hd : d ≤ i) (hi : i < d + count) :
    copy dst d src s count i = src (s + (i - d)) := by
  simp [copy, hd, hi]

lemma copy_outside (dst src : Memory) (s : Nat)
    (h : i < d ∨ d + count ≤ i) : copy dst d src s count i = dst i := by
  have : ¬ (d ≤ i ∧ i < d + count) := by omega
  simp [copy, this]

@[simp] lemma copy_zero (dst : Memory) (d : Nat) (src : Memory) (s : Nat) :
    copy dst d src s 0 = dst := by
  funext i
  exact copy_outside dst src s (by omega)

lemma copy_append (dst : Memory) (d : Nat) (src : Memory) (s m n : Nat) :
    copy (copy dst d src s m) (d + m) src (s + m) n = copy dst d src s (m + n) := by
  funext i
  simp only [copy]
  by_cases hfirst : d ≤ i ∧ i < d + m
  · have hsecond : ¬ (d + m ≤ i ∧ i < d + m + n) := by omega
    have hboth : d ≤ i ∧ i < d + (m + n) := by omega
    simp [hfirst, hsecond, hboth]
  by_cases hsecond : d + m ≤ i ∧ i < d + m + n
  · have hboth : d ≤ i ∧ i < d + (m + n) := by omega
    simp only [hsecond, hboth, and_self, if_true]
    congr 1
    omega
  · have hboth : ¬ (d ≤ i ∧ i < d + (m + n)) := by omega
    simp [hfirst, hsecond, hboth]

lemma copy_via (dst buffer src : Memory) (d b s skip m n : Nat) (h : skip + n ≤ m) :
    copy dst d (copy buffer b src s m) (b + skip) n = copy dst d src (s + skip) n := by
  funext i
  simp only [copy]
  by_cases hi : d ≤ i ∧ i < d + n
  · have hin : b ≤ b + skip + (i - d) ∧ b + skip + (i - d) < b + m := by omega
    simp only [hi, hin, and_self, if_true]
    congr 1
    omega
  · simp [hi]

lemma copy_patch (dst buffer src : Memory) (d s skip m n : Nat) (h : skip + n ≤ m) :
    copy dst d (copy (copy buffer 0 dst d m) skip src s n) 0 m = copy dst (d + skip) src s n := by
  funext i
  simp only [copy, Nat.zero_add, Nat.zero_le, true_and, Nat.sub_zero]
  by_cases hblock : d ≤ i ∧ i < d + m
  · by_cases hpiece : skip ≤ i - d ∧ i - d < skip + n
    · have hout : d + skip ≤ i ∧ i < d + skip + n := by omega
      rw [if_pos hblock, if_pos hpiece, if_pos hout]
      congr 1
      omega
    have hout : ¬ (d + skip ≤ i ∧ i < d + skip + n) := by omega
    have hin : i - d < m := by omega
    rw [if_pos hblock, if_neg hpiece, if_neg hout, if_pos hin]
    congr 1
    omega
  · have hout : ¬ (d + skip ≤ i ∧ i < d + skip + n) := by omega
    rw [if_neg hblock, if_neg hout]

lemma copy_same (h : ∀ k < count, src (s + k) = dst (d + k)) : copy dst d src s count = dst := by
  funext i
  simp only [copy]
  by_cases hi : d ≤ i ∧ i < d + count
  · rw [if_pos hi, h (i - d) (by omega), Nat.add_sub_cancel' hi.1]
  · rw [if_neg hi]

lemma copy_congr {src' : Memory} {s' : Nat} (h : ∀ k < count, src (s + k) = src' (s' + k)) :
    copy dst d src s count = copy dst d src' s' count := by
  funext i
  simp only [copy]
  by_cases hi : d ≤ i ∧ i < d + count
  · rw [if_pos hi, if_pos hi]
    exact h (i - d) (by omega)
  · rw [if_neg hi, if_neg hi]

/-! ## Words -/

def wordByte (value k : Nat) : Byte := UInt8.ofNat (value / 256 ^ k % 256)

def word32 (m : Memory) (a : Nat) : Nat :=
  (m a).toNat + 256 * (m (a + 1)).toNat + 65536 * (m (a + 2)).toNat + 16777216 * (m (a + 3)).toNat

lemma wordByte_toNat (value k : Nat) : (wordByte value k).toNat = value / 256 ^ k % 256 := by
  simp [wordByte]

lemma word32_lt (m : Memory) (a : Nat) : word32 m a < 2 ^ 32 := by
  have h0 := (m a).toNat_lt
  have h1 := (m (a + 1)).toNat_lt
  have h2 := (m (a + 2)).toNat_lt
  have h3 := (m (a + 3)).toNat_lt
  simp only [word32]
  omega

lemma word32_congr {m' : Memory} {a' : Nat}
    (h : ∀ k < 4, m (a + k) = m' (a' + k)) : word32 m a = word32 m' a' := by
  have h0 := h 0 (by omega)
  have h1 := h 1 (by omega)
  have h2 := h 2 (by omega)
  have h3 := h 3 (by omega)
  simp only [Nat.add_zero] at h0
  simp only [word32, h0, h1, h2, h3]

lemma word32_of_wordBytes {value : Nat} (hv : value < 2 ^ 32)
    (h : ∀ k < 4, m (a + k) = wordByte value k) : word32 m a = value := by
  have h0 := h 0 (by omega)
  have h1 := h 1 (by omega)
  have h2 := h 2 (by omega)
  have h3 := h 3 (by omega)
  simp only [Nat.add_zero] at h0
  simp only [word32, h0, h1, h2, h3, wordByte_toNat]
  omega

lemma word32_byte (m : Memory) (a : Nat) {k : Nat} (hk : k < 4) :
    word32 m a / 256 ^ k % 256 = (m (a + k)).toNat := by
  have h0 := (m a).toNat_lt
  have h1 := (m (a + 1)).toNat_lt
  have h2 := (m (a + 2)).toNat_lt
  have h3 := (m (a + 3)).toNat_lt
  simp only [word32]
  interval_cases k <;> norm_num <;> omega

def bitAt (m : Memory) (a i : Nat) : Bool := (m (a + i / 8)).toNat.testBit (i % 8)

lemma testBit_byte (value k : Nat) (hi : i < 8) :
    (value / 256 ^ k % 256).testBit i = value.testBit (8 * k + i) := by
  have hpow : 256 ^ k = 2 ^ (8 * k) := by rw [Nat.pow_mul]
  rw [hpow, show (256 : Nat) = 2 ^ 8 by decide, Nat.testBit_mod_two_pow, Nat.testBit_div_two_pow]
  simp [hi, Nat.add_comm]

/-! ## Fixed-width integers -/

def toUnsigned32 (i : Int) : Nat := (i % 2 ^ 32).toNat

def toSigned32 (n : Nat) : Int :=
  if n % 2 ^ 32 < 2 ^ 31 then (n % 2 ^ 32 : Nat) else (n % 2 ^ 32 : Nat) - 2 ^ 32

lemma toUnsigned32_lt (i : Int) : toUnsigned32 i < 2 ^ 32 := by
  simp only [toUnsigned32]
  omega

lemma toUnsigned32_ofNat (h : n < 2 ^ 32) : toUnsigned32 n = n := by
  simp only [toUnsigned32]
  omega

lemma toSigned32_of_lt (h : n < 2 ^ 31) : toSigned32 n = n := by
  have hmod : n % 2 ^ 32 = n := Nat.mod_eq_of_lt (by omega)
  rw [toSigned32, hmod, if_pos h]

lemma toSigned32_of_ge (h : 2 ^ 31 ≤ n) (hlt : n < 2 ^ 32) : toSigned32 n = n - 2 ^ 32 := by
  have hmod : n % 2 ^ 32 = n := Nat.mod_eq_of_lt hlt
  rw [toSigned32, hmod, if_neg (by omega)]

lemma toSigned32_toUnsigned32 {i : Int} (h0 : 0 ≤ i) (h : i < 2 ^ 31) :
    toSigned32 (toUnsigned32 i) = i := by
  have hval : toUnsigned32 i = i.toNat := by
    simp only [toUnsigned32]
    omega
  rw [hval, toSigned32_of_lt (by omega)]
  omega

end Pintos.Foundation
