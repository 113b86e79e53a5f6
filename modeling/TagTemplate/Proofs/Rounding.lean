/-
What rounding to the nearest natural number is, said of a rational number without the
quotient and the remainder that it is computed from. There is only one number that a
rational number rounds to, so whatever is shown to be one is what `roundHalfEven` gives.
-/
import Mathlib.Algebra.Order.Field.Rat
import Mathlib.Tactic.FieldSimp
import Mathlib.Tactic.Linarith
import Mathlib.Tactic.Ring
import TagTemplate.Rounding

namespace TagTemplate

/-- A natural number nearest to `x`, and the even one if there are two. -/
structure RoundsTo (x : ℚ) (n : Nat) : Prop where
  near : |x - n| ≤ 1 / 2
  even : |x - n| = 1 / 2 → n % 2 = 0

namespace RoundsTo

variable {x : ℚ} {m n : Nat}

theorem of_lt (h : |x - n| < 1 / 2) : RoundsTo x n := ⟨h.le, fun heq => absurd heq h.ne⟩

theorem natCast (n : Nat) : RoundsTo n n := of_lt (by simp)

theorem le_add (h : RoundsTo x n) : (n : ℚ) ≤ x + 1 / 2 := by
  have := (abs_le.1 h.near).1
  linarith

theorem sub_le (h : RoundsTo x n) : x - 1 / 2 ≤ n := by
  have := (abs_le.1 h.near).2
  linarith

/-- Rounding does not go beyond a natural number. -/
theorem le_of_le (h : RoundsTo x n) (hx : x ≤ m) : n ≤ m := by
  have := h.le_add
  have hlt : (n : ℚ) < (m + 1 : Nat) := by
    push_cast
    linarith
  exact Nat.le_of_lt_succ (Nat.cast_lt.1 hlt)

theorem ge_of_le (h : RoundsTo x n) (hx : (m : ℚ) ≤ x) : m ≤ n := by
  have := h.sub_le
  have hlt : (m : ℚ) < (n + 1 : Nat) := by
    push_cast
    linarith
  exact Nat.le_of_lt_succ (Nat.cast_lt.1 hlt)

theorem unique (hm : RoundsTo x m) (hn : RoundsTo x n) : m = n := by
  wlog hlt : m < n generalizing m n with hwlog
  · rcases Nat.lt_trichotomy m n with h | h | h
    · exact absurd h hlt
    · exact h
    · exact (hwlog hn hm h).symm
  -- Two numbers that far apart are next to each other with `x` in their middle.
  have hm₁ := hm.sub_le
  have hn₁ := hn.le_add
  have hsucc : n = m + 1 := by
    have hle : (n : ℚ) ≤ (m + 1 : Nat) := by
      push_cast
      linarith
    have := Nat.cast_le.1 hle
    omega
  subst hsucc
  push_cast at hn₁
  have hx : x = m + 1 / 2 := by linarith
  have hm₂ := hm.even (by rw [hx]; norm_num)
  have hn₂ := hn.even (by rw [hx]; push_cast; norm_num [abs_of_neg])
  omega

end RoundsTo

theorem roundsTo_roundHalfEven (num : Nat) {den : Nat} (hden : 0 < den) :
    RoundsTo ((num : ℚ) / den) (roundHalfEven num den) := by
  have hpos : (0 : ℚ) < den := Nat.cast_pos.2 hden
  -- The quotient, and which part of the divisor the remainder is.
  obtain ⟨part, hpart⟩ : ∃ t : ℚ, t = (num % den : Nat) / den := ⟨_, rfl⟩
  have hsplit : (num : ℚ) / den = (num / den : Nat) + part := by
    have hnum : (num : ℚ) = den * (num / den : Nat) + (num % den : Nat) := by
      exact_mod_cast (Nat.div_add_mod num den).symm
    rw [hnum, hpart]
    field_simp
  have hnonneg : 0 ≤ part := hpart ▸ div_nonneg (Nat.cast_nonneg _) hpos.le
  have hlt : part < 1 / 2 ↔ 2 * (num % den) < den := by
    rw [hpart, div_lt_div_iff₀ hpos two_pos]
    exact_mod_cast (by omega)
  have hgt : 1 / 2 < part ↔ den < 2 * (num % den) := by
    rw [hpart, div_lt_div_iff₀ two_pos hpos]
    exact_mod_cast (by omega)
  have hlt_one : part < 1 := by
    rw [hpart, div_lt_one₀ hpos]
    exact_mod_cast Nat.mod_lt num hden
  rw [hsplit, roundHalfEven]
  generalize num / den = q
  split
  · next h =>
    have := hlt.2 h
    apply RoundsTo.of_lt
    rw [add_sub_cancel_left, abs_of_nonneg hnonneg]
    exact this
  split
  · next h =>
    have := hgt.2 h
    apply RoundsTo.of_lt
    push_cast
    rw [abs_lt]
    constructor <;> linarith
  · next hle hge =>
    have hhalf : part = 1 / 2 := le_antisymm (not_lt.1 (hgt.not.2 hge)) (not_lt.1 (hlt.not.2 hle))
    refine ⟨?_, fun _ => by omega⟩
    rw [hhalf]
    rcases Nat.mod_two_eq_zero_or_one q with hq | hq
    · rw [hq]
      norm_num
    · rw [hq]
      push_cast
      rw [abs_le]
      constructor <;> linarith

theorem RoundsTo.roundHalfEven_eq {num den n : Nat} (hden : 0 < den)
    (h : RoundsTo ((num : ℚ) / den) n) : roundHalfEven num den = n :=
  (roundsTo_roundHalfEven num hden).unique h

/-- The natural number that a rational number rounds to, if it is not negative. -/
def nearest (x : ℚ) : Nat := roundHalfEven x.num.toNat x.den

theorem roundsTo_nearest {x : ℚ} (hx : 0 ≤ x) : RoundsTo x (nearest x) := by
  have hratio : (x.num.toNat : ℚ) / x.den = x := by
    rw [← Int.cast_natCast, Int.toNat_of_nonneg (Rat.num_nonneg.2 hx)]
    exact x.num_div_den
  have hround := roundsTo_roundHalfEven x.num.toNat x.den_pos
  rwa [hratio] at hround

theorem RoundsTo.nearest_eq {x : ℚ} {n : Nat} (hx : 0 ≤ x) (h : RoundsTo x n) : nearest x = n :=
  (roundsTo_nearest hx).unique h

end TagTemplate
