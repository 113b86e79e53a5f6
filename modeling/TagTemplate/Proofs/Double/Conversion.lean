/-
Integers made doubles. The magnitudes of doubles grow with their ranks, and so does the rank
that is nearest to a number of units: within one binade because rounding is monotone, and
from one to the next because no number of the lower one rounds beyond the first of the upper one.
So the conversion keeps the order of integers, though not always strictly.

A number with at most 53 significant bits is the magnitude of a rank itself, and is converted
exactly.
-/
import Mathlib.Data.Nat.Log
import Mathlib.Order.Monotone.Basic
import TagTemplate.Proofs.Double.SeventeenDigits

namespace TagTemplate

/-! ## Rounding -/

/-- Rounding keeps the order. -/
theorem RoundsTo.mono {x y : ℚ} {m n : Nat} (hm : RoundsTo x m) (hn : RoundsTo y n) (h : x ≤ y) :
    m ≤ n := by
  by_contra hlt
  have hsucc : (n : ℚ) + 1 ≤ m := by exact_mod_cast Nat.not_le.1 hlt
  have hx := hm.le_add
  have hy := hn.sub_le
  -- Only a half between `n` and the next number is left, and it is rounded in one way.
  obtain rfl : x = y := by linarith
  have hsame := hm.unique hn
  omega

theorem roundHalfEven_mono {m n den : Nat} (hden : 0 < den) (h : m ≤ n) :
    roundHalfEven m den ≤ roundHalfEven n den := by
  refine (roundsTo_roundHalfEven m hden).mono (roundsTo_roundHalfEven n hden) ?_
  have hle : (m : ℚ) ≤ n := Nat.cast_le.2 h
  exact div_le_div_of_nonneg_right hle (Nat.cast_nonneg den)

namespace Double

/-! ## Magnitudes -/

/-- **Magnitudes grow with their ranks.** -/
theorem units_strictMono : StrictMono units := by
  refine strictMono_nat_of_lt_succ fun rank => ?_
  by_cases hsub : rank + 1 < 2 * binade
  · rw [units_of_lt_two_mul hsub, units_of_lt_two_mul (Nat.lt_of_succ_lt hsub)]
    exact Nat.lt_succ_self rank
  · have hle : binade ≤ rank := by unfold binade at *; omega
    obtain ⟨s, m, hlow, hhigh, rfl⟩ := exists_step hle
    rw [units_step s hlow hhigh.le, Nat.add_assoc, units_step s (Nat.le_succ_of_le hlow) hhigh]
    exact Nat.mul_lt_mul_of_pos_right (Nat.lt_succ_self m) (Nat.two_pow_pos s)

theorem units_zero : units 0 = 0 := rfl

/-! ## Ranks nearest to numbers of units -/

theorem log2_mono {m n : Nat} (h : m ≤ n) : m.log2 ≤ n.log2 := by
  rw [Nat.log2_eq_log_two, Nat.log2_eq_log_two]
  exact Nat.log_mono_right h

/-- A number rounds at most to the end of its binade. -/
theorem roundHalfEven_le_two_binade (n : Nat) :
    roundHalfEven n (2 ^ (n.log2 - 52)) ≤ 2 * binade := by
  have hstep : 0 < 2 ^ (n.log2 - 52) := Nat.two_pow_pos _
  refine (roundsTo_roundHalfEven n hstep).le_of_le ?_
  rw [div_le_iff₀ (Nat.cast_pos.2 hstep)]
  have hlt : n < 2 * binade * 2 ^ (n.log2 - 52) :=
    calc n < 2 ^ (n.log2 + 1) := Nat.lt_log2_self
      _ ≤ 2 ^ (53 + (n.log2 - 52)) := Nat.pow_le_pow_right (by decide) (by omega)
      _ = 2 * binade * 2 ^ (n.log2 - 52) := Nat.pow_add 2 53 _
  exact_mod_cast hlt.le

/-- Beyond the first binade it rounds at least to the start of its binade. -/
theorem binade_le_roundHalfEven {n : Nat} (h : 52 < n.log2) :
    binade ≤ roundHalfEven n (2 ^ (n.log2 - 52)) := by
  have hstep : 0 < 2 ^ (n.log2 - 52) := Nat.two_pow_pos _
  refine (roundsTo_roundHalfEven n hstep).ge_of_le ?_
  rw [le_div_iff₀ (Nat.cast_pos.2 hstep)]
  have hle : binade * 2 ^ (n.log2 - 52) ≤ n :=
    calc binade * 2 ^ (n.log2 - 52) = 2 ^ (52 + (n.log2 - 52)) := (Nat.pow_add 2 52 _).symm
      _ = 2 ^ n.log2 := by rw [Nat.add_sub_cancel' h.le]
      _ ≤ n := Nat.log2_self_le (by rintro rfl; simp at h)
  exact_mod_cast hle

/-- **Rounding to a rank keeps the order.** -/
theorem nearestRank_mono {m n : Nat} (h : m ≤ n) : nearestRank m 1 ≤ nearestRank n 1 := by
  simp only [nearestRank, Nat.div_one, Nat.one_mul, Nat.pow_eq]
  refine min_le_min_right infinityRank ?_
  have hlog := log2_mono h
  by_cases hsame : m.log2 - 52 = n.log2 - 52
  · rw [hsame]
    exact Nat.add_le_add_left (roundHalfEven_mono (Nat.two_pow_pos _) h) _
  · obtain ⟨k, hk⟩ : ∃ k, n.log2 - 52 = m.log2 - 52 + 1 + k :=
      Nat.exists_eq_add_of_le (by omega)
    calc (m.log2 - 52) * binade + roundHalfEven m (2 ^ (m.log2 - 52))
        ≤ (m.log2 - 52) * binade + 2 * binade :=
          Nat.add_le_add_left (roundHalfEven_le_two_binade m) _
      _ = (m.log2 - 52 + 1) * binade + binade := by ring
      _ ≤ (n.log2 - 52) * binade + binade :=
        Nat.add_le_add_right (Nat.mul_le_mul_right _ (by omega)) _
      _ ≤ (n.log2 - 52) * binade + roundHalfEven n (2 ^ (n.log2 - 52)) :=
        Nat.add_le_add_left (binade_le_roundHalfEven (by omega)) _

/-- At most 53 significant bits make a magnitude. -/
theorem exists_units_eq (s : Nat) : ∀ {m : Nat}, m ≤ 2 * binade →
    ∃ rank, units rank = m * 2 ^ s := by
  induction s with
  | zero =>
    intro m hm
    rw [Nat.pow_zero, Nat.mul_one]
    rcases Nat.lt_or_eq_of_le hm with hlt | rfl
    · exact ⟨m, units_of_lt_two_mul hlt⟩
    · exact ⟨_, (units_step 0 (by decide) (Nat.le_refl _)).trans (Nat.mul_one _)⟩
  | succ s ih =>
    intro m hm
    by_cases hlow : binade ≤ m
    · exact ⟨_, units_step (s + 1) hlow hm⟩
    · obtain ⟨rank, hrank⟩ := ih (m := 2 * m) (by omega)
      exact ⟨rank, by rw [hrank, Nat.pow_succ]; ring⟩

/-- **Such a number is the magnitude of its nearest rank.** -/
theorem units_nearestRank {s m : Nat} (hm : m ≤ 2 * binade)
    (hfinite : m * 2 ^ s < units infinityRank) :
    units (nearestRank (m * 2 ^ s) 1) = m * 2 ^ s ∧ nearestRank (m * 2 ^ s) 1 < infinityRank := by
  obtain ⟨rank, hrank⟩ := exists_units_eq s hm
  rw [← hrank] at hfinite ⊢
  have hlt : rank < infinityRank := units_strictMono.lt_iff_lt.1 hfinite
  rw [nearestRank_units hlt.le]
  exact ⟨rfl, hlt⟩

/-! ## Integers -/

theorem ofInt_eq (n : Int) : ofInt n = ofRank (n < 0) (nearestRank (n.natAbs * one) 1) := rfl

end Double

end TagTemplate
