import Mathlib.Tactic

/-!
# 64-bit division

`lib/arithmetic.c`.  A `uint64_t` is a natural number below 2^64 and an `int64_t` an integer;
what a conversion or an operation cuts off is written out.  Nothing is returned where `divl`
raises a divide error.
-/

namespace Pintos.Arithmetic

variable {d n v x : Nat}

def divl (n d : Nat) : Option Nat := if d ≠ 0 ∧ n / d < 2 ^ 32 then some (n / d) else none

/-- `if (x <= bound) { n += k; x <<= k; }` for the `bound` that leaves room for the shift. -/
def shiftUp (k : Nat) (nx : Nat × Nat) : Nat × Nat :=
  if nx.2 ≤ 2 ^ (32 - k) - 1 then (nx.1 + k, nx.2 * 2 ^ k % 2 ^ 32) else nx

-- The source leaves out the last shift of `x`, which is not used again.
def nlz (x : Nat) : Nat := (shiftUp 1 (shiftUp 2 (shiftUp 4 (shiftUp 8 (shiftUp 16 (0, x)))))).1

def udiv64 (n d : Nat) : Option Nat :=
  if d / 2 ^ 32 = 0 then do
    let q ← divl (2 ^ 32 * (n / 2 ^ 32 % d) + n % 2 ^ 32) d
    return (q + 2 ^ 32 * (n / 2 ^ 32 / d)) % 2 ^ 64
  else if n < d then return 0
  else do
    let s := nlz (d / 2 ^ 32)
    let q ← divl (n / 2) (d * 2 ^ s % 2 ^ 64 / 2 ^ 32)
    let q := q / 2 ^ (31 - s)
    return if (n + 2 ^ 64 - (q - 1) * d % 2 ^ 64) % 2 ^ 64 < d then q - 1 else q

def umod64 (n d : Nat) : Option Nat := do
  let q ← udiv64 n d
  return (n + 2 ^ 64 - d * q % 2 ^ 64) % 2 ^ 64 % 2 ^ 32

/-- The `uint64_t` that `n >= 0 ? (uint64_t) n : -(uint64_t) n` is. -/
def magnitude (n : Int) : Nat := ((if n ≥ 0 then n else -n) % 2 ^ 64).toNat

def sdiv64 (n d : Int) : Option Int := do
  let q ← udiv64 (magnitude n) (magnitude d)
  return if n < 0 ↔ d < 0 then (q : Int).bmod (2 ^ 64)
    else (-(q : Int).bmod (2 ^ 64)).bmod (2 ^ 64)

def smod64 (n d : Int) : Option Int := do
  let q ← sdiv64 n d
  return ((n - d * q).bmod (2 ^ 64)).bmod (2 ^ 32)

def divdi3 (n d : Int) : Option Int := sdiv64 n d

def moddi3 (n d : Int) : Option Int := smod64 n d

def udivdi3 (n d : Nat) : Option Nat := udiv64 n d

def umoddi3 (n d : Nat) : Option Nat := umod64 n d

/-! ## Leading zeros -/

lemma shiftUp_spec {k : Nat} (hk : 2 * k ≤ 32) (hv : v = x * 2 ^ n)
    (hlt : v < 2 ^ 32) (hlow : 2 ^ (32 - 2 * k) ≤ v) (hn : n + 2 * k ≤ 32) : ∃ n' v', shiftUp k
    (n, v) = (n', v') ∧ v' = x * 2 ^ n' ∧ v' < 2 ^ 32 ∧ 2 ^ (32 - k) ≤ v' ∧ n' + k ≤ 32 := by
  have hsplit : 2 ^ (32 - k) * 2 ^ k = 2 ^ 32 := by rw [← pow_add, Nat.sub_add_cancel (by omega)]
  by_cases hle : v ≤ 2 ^ (32 - k) - 1
  · have hpos : 0 < 2 ^ (32 - k) := Nat.two_pow_pos _
    have hshift : v * 2 ^ k < 2 ^ 32 := by
      rw [← hsplit]
      exact Nat.mul_lt_mul_of_pos_right (by omega) (Nat.two_pow_pos k)
    refine ⟨n + k, v * 2 ^ k, ?_, by rw [hv, pow_add, mul_assoc], hshift, ?_, by omega⟩
    · simp only [shiftUp]
      rw [if_pos hle, Nat.mod_eq_of_lt hshift]
    · calc 2 ^ (32 - k) = 2 ^ (32 - 2 * k) * 2 ^ k := by rw [← pow_add]; congr 1; omega
        _ ≤ v * 2 ^ k := Nat.mul_le_mul_right _ hlow
  · exact ⟨n, v, if_neg hle, hv, hlt, by omega, by omega⟩

lemma nlz_spec (hpos : 0 < x) (hlt : x < 2 ^ 32) :
    nlz x ≤ 31 ∧ 2 ^ 31 ≤ x * 2 ^ nlz x ∧ x * 2 ^ nlz x < 2 ^ 32 := by
  obtain ⟨n₁, v₁, h₁, e₁, u₁, l₁, b₁⟩ := shiftUp_spec (k := 16) (n := 0) (x := x) (by decide)
    (by rw [pow_zero, mul_one]) hlt (show 1 ≤ x from hpos) (by decide)
  obtain ⟨n₂, v₂, h₂, e₂, u₂, l₂, b₂⟩ := shiftUp_spec (k := 8) (by decide) e₁ u₁ l₁ b₁
  obtain ⟨n₃, v₃, h₃, e₃, u₃, l₃, b₃⟩ := shiftUp_spec (k := 4) (by decide) e₂ u₂ l₂ b₂
  obtain ⟨n₄, v₄, h₄, e₄, u₄, l₄, b₄⟩ := shiftUp_spec (k := 2) (by decide) e₃ u₃ l₃ b₃
  obtain ⟨n₅, v₅, h₅, rfl, u₅, l₅, b₅⟩ := shiftUp_spec (k := 1) (by decide) e₄ u₄ l₄ b₄
  have hnlz : nlz x = n₅ := by rw [nlz, h₁, h₂, h₃, h₄, h₅]
  rw [hnlz]
  exact ⟨by omega, l₅, u₅⟩

/-! ## Quotients -/

lemma divl_eq (hd : d ≠ 0) (h : n / d < 2 ^ 32) : divl n d = some (n / d) := if_pos ⟨hd, h⟩

section

variable (hn : n < 2 ^ 64)

include hn

lemma udiv64_small (hd : d ≠ 0) (hsmall : d < 2 ^ 32) :
    udiv64 n d = some (n / d) := by
  have hrem := Nat.mod_lt (n / 2 ^ 32) (Nat.pos_of_ne_zero hd)
  have hlow := Nat.mod_lt n (Nat.two_pow_pos 32)
  have hfits : (2 ^ 32 * (n / 2 ^ 32 % d) + n % 2 ^ 32) / d < 2 ^ 32 := by
    rw [Nat.div_lt_iff_lt_mul (Nat.pos_of_ne_zero hd)]
    have : n / 2 ^ 32 % d + 1 ≤ d := hrem
    nlinarith
  have hquotient : (2 ^ 32 * (n / 2 ^ 32 % d) + n % 2 ^ 32) / d + 2 ^ 32 * (n / 2 ^ 32 / d) =
    n / d := by
    rw [← Nat.add_mul_div_right _ _ (Nat.pos_of_ne_zero hd)]
    congr 1
    have hhigh := Nat.mod_add_div (n / 2 ^ 32) d
    have hall := Nat.mod_add_div n (2 ^ 32)
    nlinarith
  rw [udiv64, if_pos (Nat.div_eq_of_lt hsmall), divl_eq hd hfits]
  simp only [Option.bind_eq_bind, Option.bind_some, Option.pure_def]
  rw [hquotient, Nat.mod_eq_of_lt ((Nat.div_le_self n d).trans_lt hn)]

/-- The estimate from the 32 leading bits of the divisor is too large by at most one. -/
lemma estimate_bounds {P R : Nat} (hPR : P * R = 2 ^ 32)
    (hR : R = 2 ∨ 4 ≤ R) (hv : v = d * P / 2 ^ 32) (hlow : 2 ^ 31 ≤ v) :
    n / d ≤ n / (v * R) ∧ n / (v * R) ≤ n / d + 1 := by
  have hP : 0 < P := Nat.pos_of_mul_pos_right (hPR ▸ Nat.two_pow_pos 32)
  have hdiv := Nat.div_add_mod (d * P) (2 ^ 32)
  have hmod := Nat.mod_lt (d * P) (Nat.two_pow_pos 32)
  rw [← hv] at hdiv
  have hscaled : v * R * P = 2 ^ 32 * v := by rw [mul_assoc, mul_comm R, hPR, mul_comm]
  have hle : v * R ≤ d := by
    refine Nat.le_of_mul_le_mul_right ?_ hP
    omega
  -- what the divisor's other bits are worth
  have hgap : d < v * R + R := by
    refine Nat.lt_of_mul_lt_mul_right (a := P) ?_
    rw [add_mul, hscaled, mul_comm R, hPR]
    omega
  have hpos : 0 < v * R := Nat.mul_pos (by omega) (by omega)
  refine ⟨Nat.div_le_div_left hle hpos, ?_⟩
  have hbelow : n / d < 2 * P := by
    have hmul := Nat.div_mul_le_self n d
    by_contra hge
    have : 2 * P * d ≤ n / d * d := Nat.mul_le_mul_right d (by omega)
    have : 2 * P * d = 2 * (d * P) := by ring
    omega
  have hexcess : (n / d + 1) * (d - v * R) ≤ v * R :=
    calc (n / d + 1) * (d - v * R) ≤ 2 * P * (R - 1) := Nat.mul_le_mul hbelow (by omega)
      _ = 2 * 2 ^ 32 - 2 * P := by rw [Nat.mul_sub, mul_assoc, hPR, mul_one]
      _ ≤ 2 ^ 31 * R := by
        rcases hR with rfl | hR
        · omega
        · omega
      _ ≤ v * R := Nat.mul_le_mul_right R hlow
  have hnext := Nat.lt_mul_div_succ n (hpos.trans_le hle)
  refine Nat.lt_succ_iff.mp ((Nat.div_lt_iff_lt_mul hpos).mpr (hnext.trans_le ?_))
  calc d * (n / d + 1) = (n / d + 1) * (v * R) + (n / d + 1) * (d - v * R) := by
        rw [← Nat.mul_add, Nat.add_sub_cancel' hle, mul_comm]
    _ ≤ (n / d + 1).succ * (v * R) := by
      rw [Nat.succ_mul (n / d + 1)]
      exact Nat.add_le_add_left hexcess _

lemma udiv64_large (hd : d < 2 ^ 64) (hlarge : 2 ^ 32 ≤ d) :
    udiv64 n d = some (n / d) := by
  have hhigh : 0 < d / 2 ^ 32 := Nat.div_pos hlarge (by decide)
  rw [udiv64, if_neg hhigh.ne']
  by_cases hlt : n < d
  · rw [if_pos hlt, Nat.div_eq_of_lt hlt]
    rfl
  obtain ⟨hs, hlow, hup⟩ := nlz_spec hhigh (Nat.div_lt_of_lt_mul hd)
  obtain ⟨s, hseq⟩ : ∃ s, nlz (d / 2 ^ 32) = s := ⟨_, rfl⟩
  rw [hseq] at hs hlow hup
  have hP := Nat.two_pow_pos s
  have hPR : 2 ^ s * 2 ^ (32 - s) = 2 ^ 32 := by rw [← pow_add, Nat.add_sub_cancel' (by omega)]
  have hR : 2 ^ (32 - s) = 2 ∨ 4 ≤ 2 ^ (32 - s) := by
    rcases Nat.eq_or_lt_of_le hs with rfl | hs
    · exact .inl rfl
    · exact .inr (Nat.pow_le_pow_right Nat.two_pos (show 2 ≤ 32 - s by omega))
  have hfits : d * 2 ^ s < 2 ^ 64 := by
    have hunits : d / 2 ^ 32 < 2 ^ (32 - s) :=
      Nat.lt_of_mul_lt_mul_right (a := 2 ^ s) (by rwa [mul_comm (2 ^ (32 - s)), hPR])
    have hbound : d < 2 ^ 32 * 2 ^ (32 - s) := by omega
    calc d * 2 ^ s < 2 ^ 32 * 2 ^ (32 - s) * 2 ^ s := Nat.mul_lt_mul_of_pos_right hbound hP
      _ = 2 ^ 64 := by rw [mul_assoc, mul_comm (2 ^ (32 - s)), hPR]; rfl
  obtain ⟨v, hv⟩ : ∃ v, v = d * 2 ^ s / 2 ^ 32 := ⟨_, rfl⟩
  have hvlow : 2 ^ 31 ≤ v := by
    rw [hv, Nat.le_div_iff_mul_le (by decide)]
    calc 2 ^ 31 * 2 ^ 32 ≤ d / 2 ^ 32 * 2 ^ s * 2 ^ 32 := Nat.mul_le_mul_right _ hlow
      _ = d / 2 ^ 32 * 2 ^ 32 * 2 ^ s := by ring
      _ ≤ d * 2 ^ s := Nat.mul_le_mul_right _ (Nat.div_mul_le_self d _)
  have hdivl : n / 2 / v < 2 ^ 32 := by
    rw [Nat.div_lt_iff_lt_mul (by omega)]
    omega
  have hestimate : n / 2 / v / 2 ^ (31 - s) = n / (v * 2 ^ (32 - s)) := by
    rw [Nat.div_div_eq_div_mul, Nat.div_div_eq_div_mul, show 32 - s = 31 - s + 1 by omega, pow_succ]
    congr 1
    ring
  obtain ⟨hge, hle⟩ := estimate_bounds hn hPR hR hv hvlow
  simp only [if_neg hlt, hseq, Nat.mod_eq_of_lt hfits, ← hv, divl_eq (show v ≠ 0 by omega) hdivl,
    Option.bind_eq_bind, Option.bind_some, Option.pure_def, hestimate, Option.some.injEq]
  have hone : 1 ≤ n / d := Nat.div_pos (Nat.not_lt.mp hlt) (by omega)
  have hmod := Nat.mod_lt n (show 0 < d by omega)
  have hall := Nat.div_add_mod' n d
  rcases Nat.eq_or_lt_of_le hge with heq | hgt
  · -- the estimate is right: one less leaves a remainder of at least `d`
    rw [← heq]
    have hless : (n / d - 1) * d = n / d * d - d := by rw [Nat.sub_mul, one_mul]
    have hfirst : d ≤ n / d * d := Nat.le_mul_of_pos_left d hone
    rw [hless, if_neg (by omega)]
  · have heq : n / (v * 2 ^ (32 - s)) = n / d + 1 := by omega
    rw [heq, Nat.add_sub_cancel, if_pos (by omega)]

lemma udiv64_eq (hd : d < 2 ^ 64) (hne : d ≠ 0) : udiv64 n d = some (n / d) := by
  by_cases hsmall : d < 2 ^ 32
  · exact udiv64_small hn hne hsmall
  · exact udiv64_large hn hd (Nat.not_lt.mp hsmall)

end

/-! ## Signed operands -/

def IsInt64 (n : Int) : Prop := -2 ^ 63 ≤ n ∧ n < 2 ^ 63

lemma magnitude_eq {n : Int} (h : IsInt64 n) : magnitude n = n.natAbs := by
  obtain ⟨hlow, hup⟩ := h
  rw [magnitude]
  split <;> omega

lemma bmod_eq {n : Int} (h : IsInt64 n) : n.bmod (2 ^ 64) = n := by
  obtain ⟨hlow, hup⟩ := h
  exact Int.bmod_eq_of_le (by omega) (by omega)

lemma neg_bmod_of_bmod (a : Int) (m : Nat) : (-a.bmod m).bmod m = (-a).bmod m := by simp

lemma tdiv_eq (n d : Int) : n.tdiv d =
    if n < 0 ↔ d < 0 then ((n.natAbs / d.natAbs : Nat) : Int)
    else -((n.natAbs / d.natAbs : Nat) : Int) := by
  have hnonneg : ∀ m : Nat, ¬ ((m : Int) < 0) := by omega
  cases n <;> cases d <;> simp [Int.tdiv, Int.negSucc_lt_zero, Int.natAbs_negSucc, hnonneg]

lemma tdiv_isInt64 {n d : Int} (hn : IsInt64 n) (hfits : ¬ (n = -2 ^ 63 ∧ d = -1)) :
    IsInt64 (n.tdiv d) := by
  obtain ⟨hlow, hup⟩ := hn
  have habs := Int.natAbs_tdiv n d
  rcases Nat.lt_or_ge d.natAbs 2 with hsmall | hlarge
  · rcases (by omega : d = 0 ∨ d = 1 ∨ d = -1) with rfl | rfl | rfl
    · simp [IsInt64]
    · simpa [IsInt64] using And.intro hlow hup
    rw [Int.tdiv_neg, Int.tdiv_one]
    constructor <;> omega
  · have hhalf : n.natAbs / d.natAbs ≤ n.natAbs / 2 := Nat.div_le_div_left hlarge Nat.two_pos
    change _ = n.natAbs / d.natAbs at habs
    constructor <;> omega

lemma sdiv64_eq {n d : Int} (hn : IsInt64 n) (hd : IsInt64 d) (hne : d ≠ 0)
    (hfits : ¬ (n = -2 ^ 63 ∧ d = -1)) : sdiv64 n d = some (n.tdiv d) := by
  have hquotient : udiv64 (magnitude n) (magnitude d) = some (n.natAbs / d.natAbs) := by
    rw [magnitude_eq hn, magnitude_eq hd]
    obtain ⟨⟨hnlow, hnup⟩, hdlow, hdup⟩ := And.intro hn hd
    exact udiv64_eq (by omega) (by omega) (Int.natAbs_ne_zero.mpr hne)
  rw [sdiv64, hquotient]
  simp only [Option.bind_eq_bind, Option.bind_some, Option.pure_def, Option.some.injEq]
  rw [← bmod_eq (tdiv_isInt64 hn hfits), tdiv_eq]
  split
  · rfl
  · exact neg_bmod_of_bmod _ _

theorem division64_right :
    (∀ n d : Nat, n < 2 ^ 64 → d < 2 ^ 64 → d ≠ 0 → udiv64 n d = some (n / d)) ∧
      ∀ n d : Int, IsInt64 n → IsInt64 d → d ≠ 0 → ¬ (n = -2 ^ 63 ∧ d = -1) →
        sdiv64 n d = some (n.tdiv d) :=
  ⟨fun _ _ hn hd hne => udiv64_eq hn hd hne, fun _ _ hn hd hne hfits => sdiv64_eq hn hd hne hfits⟩

theorem division64_right_extremes :
    udiv64 (2 ^ 64 - 1) (2 ^ 32 + 1) = some ((2 ^ 64 - 1) / (2 ^ 32 + 1)) ∧
    sdiv64 (-2 ^ 63) 3 = some ((-2 ^ 63 : Int).tdiv 3) :=
  ⟨division64_right.1 _ _ (by decide) (by decide) (by decide),
    division64_right.2 _ _ (by simp [IsInt64]) (by simp [IsInt64]) (by decide) (by decide)⟩

/-! ## Remainders -/

lemma umod64_eq (hn : n < 2 ^ 64) (hd : d < 2 ^ 64) (hne : d ≠ 0) :
    umod64 n d = some (n % d % 2 ^ 32) := by
  have hall := Nat.div_add_mod n d
  have hmod := Nat.mod_lt n (Nat.pos_of_ne_zero hne)
  rw [umod64, udiv64_eq hn hd hne]
  simp only [Option.bind_eq_bind, Option.bind_some, Option.pure_def, Option.some.injEq]
  rw [Nat.mod_eq_of_lt (show d * (n / d) < 2 ^ 64 by omega)]
  congr 1
  omega

lemma smod64_eq {n d : Int} (hn : IsInt64 n) (hd : IsInt64 d) (hne : d ≠ 0)
    (hfits : ¬ (n = -2 ^ 63 ∧ d = -1)) : smod64 n d = some ((n.tmod d).bmod (2 ^ 32)) := by
  rw [smod64, sdiv64_eq hn hd hne hfits]
  simp only [Option.bind_eq_bind, Option.bind_some, Option.pure_def]
  rw [← Int.tmod_def, Int.bmod_bmod_of_dvd (by decide)]

theorem remainder_agrees_iff (n d : Nat) (a b : Int) :
    (n < 2 ^ 64 → d < 2 ^ 64 → d ≠ 0 → ∃ q r, udivdi3 n d = some q ∧ umoddi3 n d = some r ∧
      r < d ∧ (r = n - d * q ↔ n % d < 2 ^ 32)) ∧
      (IsInt64 a → IsInt64 b → b ≠ 0 → ¬ (a = -2 ^ 63 ∧ b = -1) →
        ∃ q r, divdi3 a b = some q ∧ moddi3 a b = some r ∧
          (r = a - b * q ↔ -2 ^ 31 ≤ a.tmod b ∧ a.tmod b < 2 ^ 31)) := by
  constructor
  · intro hn hd hne
    refine ⟨_, _, udiv64_eq hn hd hne, umod64_eq hn hd hne, ?_, ?_⟩
    · exact (Nat.mod_le _ _).trans_lt (Nat.mod_lt n (Nat.pos_of_ne_zero hne))
    have hall := Nat.div_add_mod n d
    rw [show n - d * (n / d) = n % d by omega]
    exact ⟨fun h => h ▸ Nat.mod_lt _ (by decide), Nat.mod_eq_of_lt⟩
  · intro hn hd hne hfits
    refine ⟨_, _, sdiv64_eq hn hd hne hfits, smod64_eq hn hd hne hfits, ?_⟩
    rw [← Int.tmod_def]
    constructor
    · intro h
      rw [← h]
      exact ⟨Int.le_bmod (by decide), Int.bmod_lt (by decide)⟩
    · rintro ⟨hlow, hup⟩
      exact Int.bmod_eq_of_le (by omega) (by omega)

theorem remainder_agrees_iff_ten : ∃ q r, udivdi3 (2 ^ 64 - 1) 10 = some q ∧
    umoddi3 (2 ^ 64 - 1) 10 = some r ∧ r < 10 ∧
    (r = 2 ^ 64 - 1 - 10 * q ↔ (2 ^ 64 - 1) % 10 < 2 ^ 32) :=
  (remainder_agrees_iff _ _ 0 0).1 (by decide) (by decide) (by decide)

theorem remainder_truncated :
    udivdi3 (2 ^ 32) (2 ^ 33) = some 0 ∧ umoddi3 (2 ^ 32) (2 ^ 33) = some 0 := by
  decide +kernel

end Pintos.Arithmetic
