/-
Seventeen digits are enough for every double. A ratio that differs from a magnitude by less
than a part in `2^54` of it rounds to this magnitude: that is less than half the step to
the next one, also below a power of two, where steps are half as wide. To leave out all
digits but seventeen changes a number by at most half a part in `10^16`, which is less.

So the search for the shortest decimal always ends with one of at most seventeen digits, and as no
positive magnitude is below `10^-324`, its last digit is at most 340 places after the point.
-/
import TagTemplate.Proofs.Double.ReadBack

namespace TagTemplate.Double

/-! ## Ratios near a magnitude -/

section Near

variable {num den rank : Nat}

/-- The power of two at or below a ratio. -/
theorem log2_div_eq (hden : 0 < den) {k : Nat} (hlow : (2 : ℚ) ^ k ≤ (num : ℚ) / den)
    (hhigh : (num : ℚ) / den < 2 ^ (k + 1)) : (num / den).log2 = k := by
  have hpos : (0 : ℚ) < den := Nat.cast_pos.2 hden
  have hle : 2 ^ k ≤ num / den := by
    rw [Nat.le_div_iff_mul_le hden]
    rw [le_div_iff₀ hpos] at hlow
    exact_mod_cast hlow
  have hlt : num / den < 2 ^ (k + 1) := by
    rw [Nat.div_lt_iff_lt_mul hden]
    rw [div_lt_iff₀ hpos] at hhigh
    exact_mod_cast hhigh
  have := Nat.two_pow_pos k
  exact (Nat.log2_eq_iff (by omega)).2 ⟨hle, hlt⟩

theorem nearestRank_eq_of_log2 (hden : 0 < den) (hfinite : rank < infinityRank) {s n : Nat}
    (hlog : (num / den).log2 - 52 = s) (hround : RoundsTo ((num : ℚ) / den / 2 ^ s) n)
    (hrank : s * binade + n = rank) : nearestRank num den = rank := by
  have hcast : (num : ℚ) / (den * 2 ^ s : Nat) = (num : ℚ) / den / 2 ^ s := by
    push_cast
    rw [div_div]
  rw [nearestRank, hlog, Nat.pow_eq,
    RoundsTo.roundHalfEven_eq (Nat.mul_pos hden (Nat.two_pow_pos s)) (hcast ▸ hround)]
  exact (congrArg (min · infinityRank) hrank).trans (Nat.min_eq_left hfinite.le)

theorem nearestRank_of_near_small (hden : 0 < den) (hfinite : rank < infinityRank)
    (hsmall : rank < 2 * binade) (hnear : |(num : ℚ) / den - rank| * 2 ^ 54 < rank) :
    nearestRank num den = rank := by
  have hrank : (rank : ℚ) + 1 ≤ 2 ^ 53 := by
    have : rank + 1 ≤ 2 ^ 53 := hsmall
    exact_mod_cast this
  have hlt : |(num : ℚ) / den - rank| < 1 / 2 := by linarith
  have hratio : num / den < 2 ^ 53 := by
    rw [Nat.div_lt_iff_lt_mul hden]
    have hx : (num : ℚ) / den < 2 ^ 53 := by linarith [(abs_lt.1 hlt).2]
    rw [div_lt_iff₀ (Nat.cast_pos.2 hden)] at hx
    exact_mod_cast hx
  have hlog : (num / den).log2 - 52 = 0 := by
    by_cases hzero : num / den = 0
    · rw [hzero, Nat.log2_zero]
    · have := (Nat.log2_lt hzero).2 hratio
      omega
  refine nearestRank_eq_of_log2 hden hfinite hlog (n := rank) ?_ (by omega)
  rw [pow_zero, div_one]
  exact .of_lt hlt

/-- Beyond, a magnitude is a significand of 53 bits times the step. -/
theorem nearestRank_of_pow_le (hden : 0 < den) (hfinite : rank < infinityRank) {s m : Nat}
    (hrank : s * binade + m = rank) (hm : m < 2 ^ 53) (hlow : 2 ^ 52 ≤ (num : ℚ) / den / 2 ^ s)
    (hnear : |(num : ℚ) / den / 2 ^ s - m| < 1 / 2) : nearestRank num den = rank := by
  have hstep : (0 : ℚ) < 2 ^ s := by positivity
  have hhigh : (num : ℚ) / den / 2 ^ s < 2 ^ (52 + 1) := by
    have hm : (m : ℚ) + 1 ≤ 2 ^ 53 := by exact_mod_cast hm
    have := (abs_lt.1 hnear).2
    norm_num at hm ⊢
    linarith
  have hlog : (num / den).log2 = 52 + s := by
    apply log2_div_eq hden
    · rwa [pow_add, ← le_div_iff₀ hstep]
    · rwa [Nat.add_right_comm, pow_add _ (52 + 1), ← div_lt_iff₀ hstep]
  exact nearestRank_eq_of_log2 hden hfinite (by rw [hlog, Nat.add_sub_cancel_left])
    (.of_lt hnear) hrank

/-- Below a power of two the step is half as wide. -/
theorem nearestRank_of_lt_pow (hden : 0 < den) (hfinite : rank < infinityRank) {s : Nat}
    (hrank : (s + 1) * binade + 2 ^ 52 = rank) (hbelow : (num : ℚ) / den / 2 ^ (s + 1) < 2 ^ 52)
    (hnear : |(num : ℚ) / den / 2 ^ (s + 1) - 2 ^ 52| < 1 / 4) : nearestRank num den = rank := by
  have hstep : (0 : ℚ) < 2 ^ s := by positivity
  have hhalf : (num : ℚ) / den / 2 ^ s = 2 * ((num : ℚ) / den / 2 ^ (s + 1)) := by
    rw [pow_succ]
    field_simp
  obtain ⟨hge, -⟩ := abs_lt.1 hnear
  have hlog : (num / den).log2 = 52 + s := by
    apply log2_div_eq hden
    · rw [pow_add, ← le_div_iff₀ hstep, hhalf]
      linarith
    · rw [Nat.add_right_comm, pow_add _ (52 + 1), ← div_lt_iff₀ hstep, hhalf]
      linarith
  have hround : RoundsTo ((num : ℚ) / den / 2 ^ s) (2 ^ 53) := by
    apply RoundsTo.of_lt
    rw [hhalf, abs_lt]
    push_cast
    constructor <;> linarith
  have hbinade : (2 : Nat) ^ 53 = binade + 2 ^ 52 := by norm_num [binade]
  refine nearestRank_eq_of_log2 hden hfinite (by rw [hlog, Nat.add_sub_cancel_left]) hround ?_
  rw [← hrank, hbinade, Nat.succ_mul, Nat.add_assoc]

theorem nearestRank_of_near_large (hden : 0 < den) (hfinite : rank < infinityRank)
    (hlarge : 2 * binade ≤ rank)
    (hnear : |(num : ℚ) / den - units rank| * 2 ^ 54 < units rank) :
    nearestRank num den = rank := by
  obtain ⟨s, m, hlow, hhigh, rfl⟩ := exists_step (Nat.le_trans (by decide) hlarge)
  obtain ⟨s, rfl⟩ : ∃ s', s = s' + 1 := by
    refine Nat.exists_eq_succ_of_ne_zero ?_
    rintro rfl
    omega
  have hhigh' : (m : ℚ) + 1 ≤ 2 ^ 53 := by exact_mod_cast hhigh
  have hunits : (units ((s + 1) * binade + m) : ℚ) = m * 2 ^ (s + 1) := by
    rw [units_step (s + 1) hlow hhigh.le]
    push_cast
    ring
  -- All is counted in the step, which is `2 ^ (s + 1)` units.
  have hstep : (0 : ℚ) < 2 ^ (s + 1) := by positivity
  have hclose : |(num : ℚ) / den / 2 ^ (s + 1) - m| * 2 ^ 54 < m := by
    have hscale : (num : ℚ) / den - units ((s + 1) * binade + m) =
        ((num : ℚ) / den / 2 ^ (s + 1) - m) * 2 ^ (s + 1) := by
      rw [hunits]
      field_simp
    rw [hscale, hunits, abs_mul, abs_of_pos hstep, mul_right_comm] at hnear
    exact lt_of_mul_lt_mul_right hnear hstep.le
  by_cases hbelow : (num : ℚ) / den / 2 ^ (s + 1) < 2 ^ 52
  · have hpower : m = 2 ^ 52 := by
      have hge := (abs_lt.1 (show |(num : ℚ) / den / 2 ^ (s + 1) - m| < 1 by linarith)).1
      have hlt : (m : ℚ) < (2 ^ 52 + 1 : Nat) := by
        push_cast
        linarith
      exact Nat.le_antisymm (Nat.lt_succ_iff.1 (Nat.cast_lt.1 hlt)) hlow
    have hcast : (m : ℚ) = 2 ^ 52 := by
      rw [hpower]
      push_cast
      rfl
    rw [hcast] at hclose
    exact nearestRank_of_lt_pow hden hfinite (by rw [hpower]) hbelow (by linarith)
  · exact nearestRank_of_pow_le hden hfinite rfl hhigh (not_lt.1 hbelow) (by linarith)

/-- **A ratio near a magnitude rounds to it.** -/
theorem nearestRank_of_near (hden : 0 < den) (hfinite : rank < infinityRank)
    (hnear : |(num : ℚ) / den - units rank| * 2 ^ 54 < units rank) :
    nearestRank num den = rank := by
  by_cases hsmall : rank < 2 * binade
  · rw [units_of_lt_two_mul hsmall] at hnear
    exact nearestRank_of_near_small hden hfinite hsmall hnear
  · exact nearestRank_of_near_large hden hfinite (Nat.not_lt.1 hsmall) hnear

end Near

/-! ## Decimals near a magnitude -/

/-- The exact decimal of a rank denotes its units. -/
theorem value_exactDecimal (rank : Nat) : (exactDecimal rank).value * one = units rank := by
  obtain ⟨k, hk⟩ : ∃ k, k = 1074 := ⟨_, rfl⟩
  have hunits : (units rank : ℚ) = significand rank * 2 ^ shift rank := by
    rw [units, Nat.pow_eq]
    push_cast
    rfl
  rw [exactDecimal, ← hk, one_eq_pow hk, hunits]
  split
  · next hs =>
    obtain ⟨n, hn⟩ := Nat.exists_eq_add_of_le hs
    rw [hn, Nat.add_sub_cancel_left, Decimal.value, pow_add]
    push_cast [Nat.pow_eq]
    ring
  · next hs =>
    -- What the shift leaves of `k` is a power of two, which makes tens of the fives.
    obtain ⟨n, hn⟩ := Nat.exists_eq_add_of_le (Nat.le_of_not_le hs)
    rw [hn, Nat.add_sub_cancel_left, Decimal.value, pow_add]
    push_cast [Nat.pow_eq]
    rw [zpow_neg, zpow_natCast, show (10 : ℚ) = 5 * 2 by norm_num, mul_pow]
    field_simp

theorem rankOfDecimal_of_near {d : Decimal} {rank : Nat} (hfinite : rank < infinityRank)
    (hnear : |d.value - (exactDecimal rank).value| * 2 ^ 54 < (exactDecimal rank).value) :
    rankOfDecimal d = rank := by
  have hone : (0 : ℚ) < one := Nat.cast_pos.2 one_pos
  rw [rankOfDecimal_eq]
  apply nearestRank_of_near (Nat.pow_pos (by decide)) hfinite
  rw [value_mul_one, ← value_exactDecimal, ← sub_mul, abs_mul, abs_of_pos hone, mul_right_comm]
  exact mul_lt_mul_of_pos_right hnear hone

/-- The exact decimal of a positive magnitude is not zero. -/
theorem coefficient_exactDecimal_ne_zero {rank : Nat} (hpos : 0 < rank)
    (hfinite : rank < infinityRank) : (exactDecimal rank).coefficient ≠ 0 := by
  intro hzero
  have hrank := rankOfDecimal_exactDecimal hfinite.le
  rw [rankOfDecimal, if_pos hzero] at hrank
  omega

/-! ## The search for the shortest decimal -/

/-- To leave out all digits but seventeen changes a number by less than a part in `2^54`. -/
theorem near_of_seventeen {c n : Nat} (hc : c ≠ 0)
    (hround : RoundsTo ((c : ℚ) / (10 ^ (Decimal.size c - 17) : Nat)) n) :
    |(n : ℚ) * 10 ^ (Decimal.size c - 17) - c| * 2 ^ 54 < c := by
  have hpos : (0 : ℚ) < c := Nat.cast_pos.2 (Nat.pos_of_ne_zero hc)
  generalize hexcess : Decimal.size c - 17 = excess at *
  have hunit : (0 : ℚ) < 10 ^ excess := by positivity
  cases excess with
  | zero =>
    have hsame : n = c := by
      rw [Nat.pow_zero, Nat.cast_one, div_one] at hround
      exact hround.unique (.natCast c)
    rw [hsame, pow_zero, mul_one, sub_self, abs_zero, zero_mul]
    exact hpos
  | succ k =>
    have hlow : (10 : ℚ) ^ 16 * 10 ^ (k + 1) ≤ c := by
      have := Decimal.pow_le_of_ne_zero hc
      rw [show Decimal.size c - 1 = 16 + (k + 1) by omega, Nat.pow_add] at this
      exact_mod_cast this
    have hdistance : |(n : ℚ) * 10 ^ (k + 1) - c| ≤ 1 / 2 * 10 ^ (k + 1) := by
      have hscale : (n : ℚ) * 10 ^ (k + 1) - c = -((c / 10 ^ (k + 1) - n) * 10 ^ (k + 1)) := by
        field_simp
        ring
      have hnear := hround.near
      push_cast at hnear
      rw [hscale, abs_neg, abs_mul, abs_of_pos hunit]
      exact mul_le_mul_of_nonneg_right hnear hunit.le
    linarith

/-- A decimal without all digits but the first seventeen reads back. -/
theorem shortened?_seventeen {rank : Nat} (hpos : 0 < rank) (hfinite : rank < infinityRank) :
    (shortened? rank (exactDecimal rank)
      (Decimal.size (exactDecimal rank).coefficient - 17)).isSome := by
  have hcoefficient := coefficient_exactDecimal_ne_zero hpos hfinite
  have hnear := fun d => rankOfDecimal_of_near (d := d) hfinite
  generalize exactDecimal rank = exact at *
  generalize hexcess : Decimal.size exact.coefficient - 17 = excess
  have hclose := near_of_seventeen hcoefficient
    (roundsTo_roundHalfEven exact.coefficient (Nat.pow_pos (by decide)))
  rw [hexcess] at hclose
  have hread := hnear ⟨roundHalfEven exact.coefficient (10 ^ excess), exact.exponent + excess⟩ <| by
    have hunit : (0 : ℚ) < 10 ^ exact.exponent := by positivity
    rw [← Decimal.value_zeros, Decimal.value, Decimal.value, ← sub_mul, abs_mul, abs_of_pos hunit,
      mul_right_comm]
    push_cast
    exact mul_lt_mul_of_pos_right hclose hunit
  unfold shortened?
  simp only [Nat.pow_eq, if_pos hread, Option.isSome_some]

/-- What keeps `width` digits is at most the number after all numbers of that many digits. -/
theorem coefficient_shortened_le {rank width : Nat} {exact d : Decimal}
    (h : shortened? rank exact (Decimal.size exact.coefficient - width) = some d) :
    d.coefficient ≤ 10 ^ width := by
  generalize hexcess : Decimal.size exact.coefficient - width = excess at h
  have hunit : 0 < 10 ^ excess := Nat.pow_pos (by decide)
  have hlt : exact.coefficient < 10 ^ width * 10 ^ excess := by
    rw [← Nat.pow_add]
    exact Nat.lt_of_lt_of_le (Decimal.lt_pow_size _) (Nat.pow_le_pow_right (by decide) (by omega))
  have hbelow : exact.coefficient / 10 ^ excess < 10 ^ width := (Nat.div_lt_iff_lt_mul hunit).2 hlt
  have hnear : roundHalfEven exact.coefficient (10 ^ excess) ≤ 10 ^ width := by
    refine (roundsTo_roundHalfEven exact.coefficient hunit).le_of_le ?_
    rw [div_le_iff₀ (Nat.cast_pos.2 hunit)]
    exact_mod_cast hlt.le
  unfold shortened? at h
  extract_lets unit exponent below near far at h
  split at h
  · rw [← Option.some.inj h]
    exact hnear
  split at h
  · rw [← Option.some.inj h]
    show (if near = below then below + 1 else below) ≤ _
    split
    · exact hbelow
    · exact hbelow.le
  · cases h

theorem exponent_shortened {rank excess : Nat} {exact d : Decimal}
    (h : shortened? rank exact excess = some d) : d.exponent = exact.exponent + excess := by
  unfold shortened? at h
  extract_lets unit exponent below near far at h
  split at h
  · rw [← Option.some.inj h]
  split at h
  · rw [← Option.some.inj h]
  · cases h

/-- **The search for the shortest decimal ends** at one of at most seventeen digits. -/
theorem exists_shortened {rank : Nat} (hpos : 0 < rank) (hfinite : rank < infinityRank) :
    ∃ width ≤ 17, shortened? rank (exactDecimal rank)
      (Decimal.size (exactDecimal rank).coefficient - width) = some (shortestDecimal rank) := by
  unfold shortestDecimal
  simp only
  cases hfind : (List.range' 1 17).findSome? fun width =>
      shortened? rank (exactDecimal rank)
        (Decimal.size (exactDecimal rank).coefficient - width) with
  | none =>
    have hnone := List.findSome?_eq_none_iff.1 hfind 17 (by decide)
    have hsome := shortened?_seventeen hpos hfinite
    rw [hnone] at hsome
    cases hsome
  | some d =>
    obtain ⟨width, hwidth, hd⟩ := List.exists_of_findSome?_eq_some hfind
    have hrange := List.mem_range'_1.1 hwidth
    exact ⟨width, by omega, hd⟩

theorem coefficient_shortestDecimal_le {rank : Nat} (hpos : 0 < rank)
    (hfinite : rank < infinityRank) :
    (shortestDecimal rank).coefficient ≤ 10 ^ 17 := by
  obtain ⟨width, hwidth, hd⟩ := exists_shortened hpos hfinite
  exact (coefficient_shortened_le hd).trans (Nat.pow_le_pow_right (by decide) hwidth)

/-- No positive magnitude is below `10^-324`. -/
theorem leadingExponent_exactDecimal_ge {rank : Nat} (hpos : 0 < rank)
    (hfinite : rank < infinityRank) :
    -324 ≤ (exactDecimal rank).leadingExponent := by
  have hcoefficient := coefficient_exactDecimal_ne_zero hpos hfinite
  have hvalue := value_exactDecimal rank
  have hbelow := (Decimal.leadingExponent_spec hcoefficient).2
  have hone : (0 : ℚ) < one := Nat.cast_pos.2 one_pos
  have hunits : (1 : ℚ) ≤ units rank := by
    have hunits_pos : (0 : ℚ) < units rank := by
      rw [← hvalue]
      exact mul_pos ((Decimal.value_pos_iff _).2 hcoefficient) hone
    exact_mod_cast hunits_pos
  -- The least magnitude is one unit, `2^-1074`.
  have hone_le : (one : ℚ) ≤ 10 ^ 324 := by
    obtain ⟨k, hk⟩ : ∃ k, k = 1074 := ⟨_, rfl⟩
    rw [one_eq_pow hk]
    exact_mod_cast two_pow_le_ten_pow (m := k) (n := 324) (by omega)
  have hlow : (10 : ℚ) ^ (-324 : Int) ≤ (exactDecimal rank).value := by
    rw [zpow_neg, zpow_ofNat, inv_le_iff_one_le_mul₀ (by positivity)]
    calc
      1 ≤ (exactDecimal rank).value * one := hvalue.symm ▸ hunits
      _ ≤ (exactDecimal rank).value * 10 ^ 324 :=
        mul_le_mul_of_nonneg_left hone_le (Decimal.value_nonneg _)
  have hpow := (zpow_lt_zpow_iff_right₀ (by norm_num)).1 (hlow.trans_lt hbelow)
  omega

/-- **No shortest decimal has more than 340 digits after the point**: it keeps at most seventeen
digits of a magnitude that is not below `10^-324`. -/
theorem exponent_shortestDecimal_ge {rank : Nat} (hpos : 0 < rank) (hfinite : rank < infinityRank) :
    -340 ≤ (shortestDecimal rank).exponent := by
  obtain ⟨width, hwidth, hd⟩ := exists_shortened hpos hfinite
  have hlead := leadingExponent_exactDecimal_ge hpos hfinite
  rw [Decimal.leadingExponent] at hlead
  rw [exponent_shortened hd]
  omega

theorem value_shortestDecimal_pos {rank : Nat} (hpos : 0 < rank) (hfinite : rank < infinityRank) :
    0 < (shortestDecimal rank).value := by
  rw [Decimal.value_pos_iff]
  intro hzero
  have hrank := rankOfDecimal_shortestDecimal hfinite.le
  rw [rankOfDecimal, if_pos hzero] at hrank
  omega

/-- No finite double is beyond `10^327`. -/
theorem value_shortestDecimal_lt {rank : Nat} (hpos : 0 < rank) (hfinite : rank < infinityRank) :
    (shortestDecimal rank).value < 10 ^ 327 := by
  have hne := (Decimal.value_pos_iff _).1 (value_shortestDecimal_pos hpos hfinite)
  have hrank := rankOfDecimal_shortestDecimal hfinite.le
  have hcoefficient : ((shortestDecimal rank).coefficient : ℚ) ≤ 10 ^ 17 := by
    exact_mod_cast coefficient_shortestDecimal_le hpos hfinite
  generalize shortestDecimal rank = d at *
  have hexponent : d.exponent < 310 := by
    by_contra hlarge
    rw [rankOfDecimal, if_neg hne, if_pos (by omega)] at hrank
    omega
  have hpower : (10 : ℚ) ^ d.exponent ≤ 10 ^ (309 : Int) :=
    zpow_le_zpow_right₀ (by norm_num) (by omega)
  calc
    d.value ≤ 10 ^ 17 * 10 ^ (309 : Int) :=
      mul_le_mul hcoefficient hpower (by positivity) (by positivity)
    _ < 10 ^ 327 := by
      rw [zpow_ofNat, ← pow_add]
      exact pow_lt_pow_right₀ (by norm_num) (by decide)

end TagTemplate.Double
