/-
The rational number that a decimal number denotes. Many forms denote the same number;
what is computed from a decimal by rounding depends on the number only.
-/
import Mathlib.Algebra.Order.Field.Power
import TagTemplate.Decimal
import TagTemplate.Proofs.Rounding

namespace TagTemplate.Decimal

/-- The number denoted. -/
def value (d : Decimal) : ℚ := d.coefficient * 10 ^ d.exponent

theorem value_nonneg (d : Decimal) : 0 ≤ d.value := by
  unfold value
  positivity

theorem value_pos_iff (d : Decimal) : 0 < d.value ↔ d.coefficient ≠ 0 := by
  rw [value, mul_pos_iff_of_pos_right (by positivity), Nat.cast_pos, Nat.pos_iff_ne_zero]

/-- Zeros at the end of a coefficient are as good as a larger exponent. -/
theorem value_zeros (c k : Nat) (e : Int) :
    (⟨c * 10 ^ k, e⟩ : Decimal).value = (⟨c, e + k⟩ : Decimal).value := by
  simp only [value]
  rw [zpow_add₀ (by norm_num), zpow_natCast]
  push_cast
  ring

@[simp] theorem value_times (d : Decimal) (factor : Nat) :
    (d.times factor).value = d.value * factor := by
  simp only [value, times]
  push_cast
  ring

/-- Counted in another unit the number is rounded. -/
theorem roundsTo_scaledTo (d : Decimal) (e : Int) : RoundsTo (d.value / 10 ^ e) (d.scaledTo e) := by
  have hten : (10 : ℚ) ≠ 0 := by norm_num
  have hvalue : d.value / 10 ^ e = d.coefficient * 10 ^ (d.exponent - e) := by
    rw [value, mul_div_assoc, zpow_sub₀ hten]
  rw [hvalue, scaledTo]
  split
  · next h =>
    obtain ⟨k, hk⟩ := Int.le.dest h
    have hexponent : d.exponent - e = k := by omega
    rw [hexponent, Int.toNat_natCast, zpow_natCast]
    exact_mod_cast RoundsTo.natCast (d.coefficient * 10 ^ k)
  · next h =>
    obtain ⟨k, hk⟩ := Int.le.dest (Int.le_of_not_le h)
    have hexponent : d.exponent - e = -k := by omega
    have hback : e - d.exponent = k := by omega
    rw [hexponent, hback, Int.toNat_natCast, zpow_neg, zpow_natCast, ← div_eq_mul_inv]
    exact_mod_cast roundsTo_roundHalfEven d.coefficient (Nat.pow_pos (by decide) : 0 < 10 ^ k)

/-! ## Digits -/

theorem size_le_iff {n k : Nat} (hk : 0 < k) : size n ≤ k ↔ n < 10 ^ k :=
  Nat.length_toDigits_le_iff (by decide) hk

theorem lt_size_pow {k : Nat} (hk : 0 < k) : k < size (10 ^ k) :=
  Nat.lt_of_not_le fun h => Nat.lt_irrefl _ ((size_le_iff hk).1 h)

theorem size_pos (n : Nat) : 0 < size n := List.length_pos_of_ne_nil Nat.toDigits_ne_nil

theorem lt_pow_size (n : Nat) : n < 10 ^ size n := (size_le_iff (size_pos n)).1 (Nat.le_refl _)

/-- The first digit of a number that is not zero is none either. -/
theorem pow_le_of_ne_zero {n : Nat} (h : n ≠ 0) : 10 ^ (size n - 1) ≤ n := by
  by_cases hone : size n = 1
  · rw [hone]
    exact Nat.one_le_iff_ne_zero.2 h
  · have hpos := size_pos n
    refine Nat.le_of_not_lt fun hlt => ?_
    have := (size_le_iff (by omega)).2 hlt
    omega

/-- A number of few digits keeps them all. -/
theorem significant_of_size_le {d : Decimal} {width : Nat} (h : size d.coefficient ≤ width) :
    d.significant width = d := by
  rw [significant, Nat.sub_eq_zero_of_le h]
  rfl

/-- A positive number has its first digit where its leading exponent says. -/
theorem leadingExponent_spec {d : Decimal} (h : d.coefficient ≠ 0) :
    (10 : ℚ) ^ d.leadingExponent ≤ d.value ∧ d.value < 10 ^ (d.leadingExponent + 1) := by
  have hten : (10 : ℚ) ≠ 0 := by norm_num
  have hpow : (0 : ℚ) < 10 ^ d.exponent := by positivity
  obtain ⟨k, hk⟩ : ∃ k, size d.coefficient = k + 1 :=
    ⟨_, (Nat.succ_pred_eq_of_pos (size_pos _)).symm⟩
  have hlow : (10 : ℚ) ^ k ≤ d.coefficient := by
    have := pow_le_of_ne_zero h
    rw [hk, Nat.add_sub_cancel] at this
    exact_mod_cast this
  have hhigh : (d.coefficient : ℚ) < 10 ^ (k + 1) := by
    have := lt_pow_size d.coefficient
    rw [hk] at this
    exact_mod_cast this
  have hleading : d.leadingExponent = k + d.exponent := by
    rw [leadingExponent, hk]
    omega
  rw [hleading, value]
  constructor
  · rw [zpow_add₀ hten, zpow_natCast]
    exact mul_le_mul_of_nonneg_right hlow hpow.le
  · have hsucc : (k : Int) + d.exponent + 1 = (k + 1 : Nat) + d.exponent := by omega
    rw [hsucc, zpow_add₀ hten, zpow_natCast]
    exact mul_lt_mul_of_pos_right hhigh hpow

end TagTemplate.Decimal
