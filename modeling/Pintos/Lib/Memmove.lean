import Pintos.Foundation.Memory
import Pintos.Lib.Debug

/-!
# `memmove`

The function of `lib/string.c` with its two loops.  A pointer is an address below
2³², and `dst` and `src` are the cursors that the loops move.
-/

namespace Pintos

open Foundation

def moveForward : Nat → Memory → Nat → Nat → Nat × Memory
  | 0, m, dst, _ => (dst, m)
  | size + 1, m, dst, src =>
    moveForward size (update m dst (m src)) ((dst + 1) % 2 ^ 32) ((src + 1) % 2 ^ 32)

def moveBackward : Nat → Memory → Nat → Nat → Nat × Memory
  | 0, m, dst, _ => (dst, m)
  | size + 1, m, dst, src =>
    moveBackward size (update m (toUnsigned32 (dst - 1)) (m (toUnsigned32 (src - 1))))
      (toUnsigned32 (dst - 1)) (toUnsigned32 (src - 1))

def memmove (m : Memory) (dst src size : Nat) : Except Fault (Nat × Memory) := do
  assertThat (dst ≠ 0 ∨ size = 0) "dst != NULL || size == 0"
  assertThat (src ≠ 0 ∨ size = 0) "src != NULL || size == 0"
  if dst < src then return moveForward size m dst src
  else return moveBackward size m ((dst + size) % 2 ^ 32) ((src + size) % 2 ^ 32)

variable {dst size src : Nat} {m : Memory}

-- the byte at `src` is read before the copy can reach it, whichever end is copied first
lemma moveForward_eq (hd : dst + size ≤ 2 ^ 32) (hs : src + size ≤ 2 ^ 32) (hlt : dst < src) :
    moveForward size m (dst % 2 ^ 32) (src % 2 ^ 32) =
      ((dst + size) % 2 ^ 32, copy m dst m src size) := by
  induction size generalizing m dst src with
  | zero => simp [moveForward]
  | succ size ih =>
    have hdst : dst % 2 ^ 32 = dst := Nat.mod_eq_of_lt (by omega)
    have hsrc : src % 2 ^ 32 = src := Nat.mod_eq_of_lt (by omega)
    rw [moveForward, hdst, hsrc, ih (by omega) (by omega) (by omega), Nat.add_right_comm,
      Nat.add_assoc]
    refine congrArg _ (funext fun i => ?_)
    simp only [copy, update_apply]
    grind

lemma moveBackward_eq (hd : dst + size ≤ 2 ^ 32) (hs : src + size ≤ 2 ^ 32) (hle : src ≤ dst) :
    moveBackward size m ((dst + size) % 2 ^ 32) ((src + size) % 2 ^ 32) =
      (dst % 2 ^ 32, copy m dst m src size) := by
  induction size generalizing m with
  | zero => simp [moveBackward]
  | succ size ih =>
    have hback : ∀ p, p + (size + 1) ≤ 2 ^ 32 →
        toUnsigned32 (((p + (size + 1)) % 2 ^ 32 : Nat) - 1) = (p + size) % 2 ^ 32 := by
      intro p hp
      simp only [toUnsigned32]
      omega
    rw [moveBackward, hback dst hd, hback src hs, ih (by omega) (by omega)]
    have hdst : (dst + size) % 2 ^ 32 = dst + size := Nat.mod_eq_of_lt (by omega)
    have hsrc : (src + size) % 2 ^ 32 = src + size := Nat.mod_eq_of_lt (by omega)
    simp only [hdst, hsrc]
    refine congrArg _ (funext fun i => ?_)
    clear hback hdst hsrc hd hs
    simp only [copy, update_apply]
    grind

lemma memmove_eq (hd : dst + size ≤ 2 ^ 32) (hs : src + size ≤ 2 ^ 32) (hdst : dst < 2 ^ 32)
    (hsrc : src < 2 ^ 32) (hnull : size = 0 ∨ dst ≠ 0 ∧ src ≠ 0) : memmove m dst src size =
      .ok (if dst < src then (dst + size) % 2 ^ 32 else dst, copy m dst m src size) := by
  have hforward := @moveForward_eq dst size src m hd hs
  have hbackward := @moveBackward_eq dst size src m hd hs
  rw [Nat.mod_eq_of_lt hdst] at hforward hbackward
  rw [Nat.mod_eq_of_lt hsrc] at hforward
  simp only [memmove, assertThat_of_true _ (show dst ≠ 0 ∨ size = 0 by tauto),
    assertThat_of_true _ (show src ≠ 0 ∨ size = 0 by tauto)]
  by_cases hlt : dst < src
  · simp only [if_pos hlt, hforward hlt]
    rfl
  · simp only [if_neg hlt, hbackward (by omega)]
    rfl

/-- The bytes are moved for every overlap, but the cursor that is returned is at `dst` again only
after a copy from the end. -/
theorem memmove_moves_iff (m : Memory) {dst src size : Nat} (hdst : dst < 2 ^ 32)
    (hsrc : src < 2 ^ 32)
    (hd : dst + size ≤ 2 ^ 32) (hs : src + size ≤ 2 ^ 32) :
    ((∃ m', memmove m dst src size = .ok (dst, m') ∧ (∀ k < size, m' (dst + k) = m (src + k)) ∧
        ∀ i, i < dst ∨ dst + size ≤ i → m' i = m i) ↔
      size = 0 ∨ dst ≠ 0 ∧ src ≠ 0 ∧ src ≤ dst) ∧
    (dst ≠ 0 → src ≠ 0 → ∃ r m', memmove m dst src size = .ok (r, m') ∧
      (∀ k < size, m' (dst + k) = m (src + k)) ∧ ∀ i, i < dst ∨ dst + size ≤ i → m' i = m i) := by
  have hmoved : (∀ k < size, copy m dst m src size (dst + k) = m (src + k)) ∧
      ∀ i, i < dst ∨ dst + size ≤ i → copy m dst m src size i = m i := by
    refine ⟨fun k hk => ?_, fun i hi => copy_outside _ _ _ hi⟩
    rw [copy_inside _ _ _ (by omega) (by omega), Nat.add_sub_cancel_left]
  have heq := @memmove_eq dst size src m hd hs hdst hsrc
  refine ⟨⟨?_, fun h => ⟨_, ?_, hmoved⟩⟩, fun hd0 hs0 => ⟨_, _, heq (.inr ⟨hd0, hs0⟩), hmoved⟩⟩
  · rintro ⟨m', hcall, -⟩
    by_cases hnull : size = 0 ∨ dst ≠ 0 ∧ src ≠ 0
    · rw [heq hnull] at hcall
      have hret := congrArg Prod.fst (Except.ok.inj hcall)
      split at hret <;> omega
    · obtain ⟨hpos, hzero⟩ := not_or.mp hnull
      by_cases hd0 : dst = 0
      · simp [memmove, assertThat, hd0, hpos, bind, Except.bind] at hcall
      · simp [memmove, assertThat, show src = 0 by tauto, hpos, hd0, bind, Except.bind] at hcall
  · rw [heq (by tauto)]
    refine congrArg _ (Prod.ext ?_ rfl)
    split
    · rw [show size = 0 by omega, Nat.add_zero, Nat.mod_eq_of_lt hdst]
    · rfl

theorem memmove_cursor : ∃ m', memmove (fun _ => 0) 1 2 1 = .ok (2, m') := ⟨_, rfl⟩

theorem memmove_moves_iff_overlap : ∃ m', memmove (fun i => UInt8.ofNat i) 2 1 2 = .ok (2, m') ∧
    (∀ k < 2, m' (2 + k) = UInt8.ofNat (1 + k)) ∧ ∀ i, i < 2 ∨ 4 ≤ i → m' i = UInt8.ofNat i :=
  (memmove_moves_iff _ (by decide) (by decide) (by decide) (by decide)).1.mpr (by decide)

end Pintos
