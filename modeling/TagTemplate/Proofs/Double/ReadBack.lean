/-
Doubles read from decimals. What counts is the number that a decimal denotes and not its
form: the bounds on the exponent in `rankOfDecimal` only save work, and zeros may move
between the coefficient and the exponent.

So the exact decimal of a rank reads back as that rank, and the shortest one does, by the
check that it was chosen with.
-/
import TagTemplate.Double.Shortest
import TagTemplate.Proofs.Decimal.Value

namespace TagTemplate

/-! ## Rounding -/

theorem roundHalfEven_mul (num den : Nat) {k : Nat} (hk : 0 < k) :
    roundHalfEven (num * k) (den * k) = roundHalfEven num den := by
  have hdiv : num * k / (den * k) = num / den := Nat.mul_div_mul_right num den hk
  have hmod : 2 * (num * k % (den * k)) = 2 * (num % den) * k := by
    rw [Nat.mul_mod_mul_right, Nat.mul_assoc]
  simp only [roundHalfEven, hdiv, hmod, Nat.mul_lt_mul_right hk]

theorem roundHalfEven_one (n : Nat) : roundHalfEven n 1 = n := by
  rw [roundHalfEven, Nat.mod_one, Nat.div_one]
  rfl

theorem roundHalfEven_eq_zero {num den : Nat} (h : 2 * num < den) : roundHalfEven num den = 0 := by
  have hlt : num < den := by omega
  rw [roundHalfEven, Nat.mod_eq_of_lt hlt, Nat.div_eq_of_lt hlt, if_pos h]

namespace Double

theorem nearestRank_mul (num den : Nat) {k : Nat} (hk : 0 < k) :
    nearestRank (num * k) (den * k) = nearestRank num den := by
  have hround : ∀ s, roundHalfEven (num * k) (den * k * Nat.pow 2 s) =
      roundHalfEven num (den * Nat.pow 2 s) := by
    intro s
    rw [Nat.mul_right_comm, roundHalfEven_mul _ _ hk]
  simp only [nearestRank, Nat.mul_div_mul_right num den hk, hround]

theorem nearestRank_congr {num den num' den' : Nat} (hden : 0 < den) (hden' : 0 < den')
    (h : num * den' = num' * den) : nearestRank num den = nearestRank num' den' := by
  rw [← nearestRank_mul num den hden', h, Nat.mul_comm den, nearestRank_mul num' den' hden]

/-- Below half a unit there is only zero. -/
theorem nearestRank_eq_zero {num den : Nat} (h : 2 * num < den) : nearestRank num den = 0 := by
  have hlt : num < den := by omega
  have hshift : (num / den).log2 - 52 = 0 := by rw [Nat.div_eq_of_lt hlt, Nat.log2_zero]
  simp only [nearestRank, hshift, Nat.zero_mul, Nat.zero_add, Nat.pow_eq, Nat.pow_zero, Nat.mul_one]
  rw [roundHalfEven_eq_zero h]
  rfl

theorem one_eq_pow {k : Nat} (h : k = 1074) : one = 2 ^ k := by
  delta one
  rw [← h]
  rfl

theorem one_pos : 0 < one := by
  obtain ⟨k, hk⟩ : ∃ k, k = 1074 := ⟨_, rfl⟩
  rw [one_eq_pow hk]
  exact Nat.two_pow_pos k

/-- All of `2^1025` and beyond is infinity. -/
theorem nearestRank_eq_infinityRank {m n : Nat} (hm : 1025 ≤ m) (h : 2 ^ m * one ≤ n) :
    nearestRank n 1 = infinityRank := by
  obtain ⟨k, hk⟩ : ∃ k, k = 1074 := ⟨_, rfl⟩
  rw [one_eq_pow hk, ← Nat.pow_add] at h
  have hne : n ≠ 0 := by
    have := Nat.two_pow_pos (m + k)
    omega
  have hlog : m + k ≤ n.log2 := (Nat.le_log2 hne).2 h
  have hle : infinityRank ≤ (n.log2 - 52) * binade :=
    Nat.mul_le_mul_right binade (by omega : 2047 ≤ n.log2 - 52)
  rw [nearestRank, Nat.div_one]
  exact Nat.min_eq_right (Nat.le_trans hle (Nat.le_add_right ..))

/-! ### Units -/

theorem units_of_lt {rank : Nat} (h : rank < binade) : units rank = rank := by
  rw [units, significand, if_pos h, shift, Nat.div_eq_of_lt h]
  exact Nat.mul_one rank

/-- The magnitude of a rank, counted in its step. A significand of `2 * binade` is the first one of
the next binade. -/
theorem units_step (s : Nat) {m : Nat} (hlow : binade ≤ m) (hhigh : m ≤ 2 * binade) :
    units (s * binade + m) = m * 2 ^ s := by
  have hbinade : 0 < binade := by decide
  have hle : ¬s * binade + m < binade := by omega
  rw [units, significand, if_neg hle, Nat.pow_eq, shift, Nat.mul_add_mod_self_right,
    Nat.add_comm (s * binade), Nat.add_mul_div_right m s hbinade]
  rcases Nat.lt_or_eq_of_le hhigh with hlt | rfl
  · have hdiv : m / binade = 1 := Nat.div_eq_of_lt_le (by omega) (by omega)
    have hmod := Nat.mod_add_div m binade
    rw [hdiv] at hmod ⊢
    rw [show 1 + s - 1 = s by omega, show binade + m % binade = m by omega]
  · rw [Nat.mul_mod_left, Nat.mul_div_cancel 2 hbinade, show 2 + s - 1 = s + 1 by omega,
      Nat.pow_succ,
      Nat.add_zero, Nat.mul_comm (2 ^ s), ← Nat.mul_assoc, Nat.mul_comm binade]

/-- Every rank that is not below the first binade is such a sum. -/
theorem exists_step {rank : Nat} (h : binade ≤ rank) :
    ∃ s m, binade ≤ m ∧ m < 2 * binade ∧ rank = s * binade + m := by
  have hpos : 1 ≤ rank / binade := (Nat.one_le_div_iff (by decide)).2 h
  have hsplit := Nat.div_add_mod rank binade
  have hmod := Nat.mod_lt rank (by decide : 0 < binade)
  refine ⟨rank / binade - 1, binade + rank % binade, by omega, by omega, ?_⟩
  unfold binade at *
  omega

/-- Where the step between magnitudes is one unit. -/
theorem units_of_lt_two_mul {rank : Nat} (h : rank < 2 * binade) : units rank = rank := by
  by_cases hsub : rank < binade
  · exact units_of_lt hsub
  · have hstep := units_step 0 (Nat.not_lt.1 hsub) h.le
    rwa [Nat.zero_mul, Nat.zero_add, Nat.pow_zero, Nat.mul_one] at hstep

theorem log2_step (s : Nat) {m : Nat} (hlow : binade ≤ m) (hhigh : m < 2 * binade) :
    (m * 2 ^ s).log2 = 52 + s := by
  have hpos := Nat.two_pow_pos s
  have hbinade : 0 < binade := by decide
  rw [Nat.log2_eq_iff (Nat.mul_ne_zero (by omega) (by omega))]
  constructor
  · rw [Nat.pow_add]
    exact Nat.mul_le_mul_right _ hlow
  · rw [Nat.add_right_comm, Nat.pow_add]
    exact Nat.mul_lt_mul_of_pos_right hhigh hpos

/-- Every rank is the nearest one to its own units. -/
theorem nearestRank_units {rank : Nat} (h : rank ≤ infinityRank) :
    nearestRank (units rank) 1 = rank := by
  suffices hround : ((units rank).log2 - 52) * binade +
      roundHalfEven (units rank) (1 * Nat.pow 2 ((units rank).log2 - 52)) = rank by
    rw [nearestRank, Nat.div_one, hround]
    exact Nat.min_eq_left h
  by_cases hsub : rank < binade
  · have hlog : rank.log2 - 52 = 0 := by
      by_cases hzero : rank = 0
      · rw [hzero, Nat.log2_zero]
      · have := (Nat.log2_lt (k := 52) hzero).2 hsub
        omega
    rw [units_of_lt hsub, hlog, Nat.zero_mul, Nat.zero_add]
    exact roundHalfEven_one rank
  · obtain ⟨s, m, hlow, hhigh, rfl⟩ := exists_step (Nat.not_lt.1 hsub)
    rw [units_step s hlow hhigh.le, log2_step s hlow hhigh, Nat.add_sub_cancel_left, Nat.pow_eq,
      roundHalfEven_mul _ _ (Nat.two_pow_pos s), roundHalfEven_one]

/-! ## Reading decimals -/

/-- Powers of two below powers of ten, by `2^93 ≤ 10^28`. -/
theorem two_pow_le_ten_pow {m n : Nat} (h : 28 * m ≤ 93 * n) : 2 ^ m ≤ 10 ^ n := by
  apply (Nat.pow_le_pow_iff_left (by decide : 28 ≠ 0)).1
  calc
    (2 ^ m) ^ 28 = 2 ^ (28 * m) := by rw [← Nat.pow_mul, Nat.mul_comm]
    _ ≤ 2 ^ (93 * n) := Nat.pow_le_pow_right (by decide) h
    _ = (2 ^ 93) ^ n := Nat.pow_mul ..
    _ ≤ (10 ^ 28) ^ n := Nat.pow_le_pow_left (by decide) n
    _ = (10 ^ n) ^ 28 := by rw [← Nat.pow_mul, ← Nat.pow_mul, Nat.mul_comm]

/-- All of `10^310` and beyond is infinity. -/
theorem nearestRank_large {c e : Nat} (hc : c ≠ 0) (he : 310 ≤ e) :
    nearestRank (c * 10 ^ e * one) 1 = infinityRank := by
  obtain ⟨m, hm⟩ : ∃ m, m = 1025 := ⟨_, rfl⟩
  apply nearestRank_eq_infinityRank (Nat.le_of_eq hm.symm)
  calc
    2 ^ m * one ≤ 10 ^ e * one := Nat.mul_le_mul_right one (two_pow_le_ten_pow (by omega))
    _ ≤ c * (10 ^ e * one) := Nat.le_mul_of_pos_left _ (Nat.pos_of_ne_zero hc)
    _ = c * 10 ^ e * one := (Nat.mul_assoc ..).symm

/-- What is below `10^-326` by the size of its coefficient is zero. -/
theorem nearestRank_small {c e : Nat} (he : c.log2 + 1 + 327 ≤ e) :
    nearestRank (c * one) (10 ^ e) = 0 := by
  apply nearestRank_eq_zero
  obtain ⟨k, hk⟩ : ∃ k, k = 1074 := ⟨_, rfl⟩
  obtain ⟨j, hj⟩ := Nat.exists_eq_add_of_le he
  have htwo : 2 ^ (k + 1) ≤ 10 ^ (327 + j) := two_pow_le_ten_pow (by omega)
  calc
    2 * (c * one) = c * 2 ^ (k + 1) := by
      rw [one_eq_pow hk, Nat.pow_succ', Nat.mul_left_comm]
    _ ≤ c * 10 ^ (327 + j) := Nat.mul_le_mul_left c htwo
    _ < 2 ^ (c.log2 + 1) * 10 ^ (327 + j) :=
      Nat.mul_lt_mul_of_pos_right Nat.lt_log2_self (Nat.pow_pos (by decide))
    _ ≤ 10 ^ (c.log2 + 1) * 10 ^ (327 + j) :=
      Nat.mul_le_mul_right _ (Nat.pow_le_pow_left (by decide) _)
    _ = 10 ^ e := by rw [← Nat.pow_add, hj, Nat.add_assoc (c.log2 + 1)]

/-- The rank of a decimal is the one nearest to the ratio that it denotes. -/
theorem rankOfDecimal_eq (d : Decimal) :
    rankOfDecimal d =
      nearestRank (d.coefficient * 10 ^ d.exponent.toNat * one) (10 ^ (-d.exponent).toNat) := by
  obtain ⟨c, e⟩ := d
  simp only [rankOfDecimal]
  split
  · next hzero =>
    rw [hzero, Nat.zero_mul, Nat.zero_mul]
    exact (nearestRank_eq_zero (Nat.pow_pos (by decide))).symm
  next hzero =>
  split
  · next hlarge =>
    rw [show (-e).toNat = 0 by omega, Nat.pow_zero, nearestRank_large hzero (by omega)]
  split
  · next hnonneg =>
    rw [show (-e).toNat = 0 by omega]
    rfl
  next hneg =>
  rw [show e.toNat = 0 by omega, Nat.pow_zero, Nat.mul_one]
  split
  · next hsmall => rw [nearestRank_small (by omega)]
  · rfl

/-- The ratio in the units of ranks that a decimal stands for. -/
theorem value_mul_one (d : Decimal) :
    ((d.coefficient * 10 ^ d.exponent.toNat * one : Nat) : ℚ) / (10 ^ (-d.exponent).toNat : Nat) =
      d.value * one := by
  generalize one = unit
  obtain ⟨c, e⟩ := d
  obtain ⟨n, rfl | rfl⟩ := e.eq_nat_or_neg
  · rw [show (-(n : Int)).toNat = 0 by omega, Decimal.value]
    push_cast [Int.toNat_natCast]
    simp
  · rw [show (-(n : Int)).toNat = 0 by omega, Int.neg_neg, Int.toNat_natCast, Decimal.value]
    push_cast
    rw [zpow_neg, zpow_natCast]
    field_simp

/-- What is read is a matter of the number that a decimal denotes. -/
theorem rankOfDecimal_congr {d d' : Decimal} (h : d.value = d'.value) :
    rankOfDecimal d = rankOfDecimal d' := by
  have hten : ∀ n : Nat, 0 < 10 ^ n := fun n => Nat.pow_pos (by decide)
  have hne : ∀ n : Nat, ((10 ^ n : Nat) : ℚ) ≠ 0 := fun n => Nat.cast_ne_zero.2 (hten n).ne'
  rw [rankOfDecimal_eq, rankOfDecimal_eq]
  have hratio :=
    (value_mul_one d).trans ((congrArg (· * (one : ℚ)) h).trans (value_mul_one d').symm)
  rw [div_eq_div_iff (hne _) (hne _)] at hratio
  exact nearestRank_congr (hten _) (hten _) (by exact_mod_cast hratio)

/-! ## Writing ranks -/

/-- The exact decimal of a rank reads back. -/
theorem rankOfDecimal_exactDecimal {rank : Nat} (h : rank ≤ infinityRank) :
    rankOfDecimal (exactDecimal rank) = rank := by
  obtain ⟨k, hk⟩ : ∃ k, k = 1074 := ⟨_, rfl⟩
  rw [rankOfDecimal_eq, exactDecimal, ← hk, one_eq_pow hk]
  split
  · next hs =>
    have hunits : significand rank * 2 ^ (shift rank - k) * 1 * 2 ^ k = units rank := by
      rw [Nat.mul_one, Nat.mul_assoc, ← Nat.pow_add, Nat.sub_add_cancel hs]
      rfl
    show nearestRank (significand rank * 2 ^ (shift rank - k) * 1 * 2 ^ k) 1 = rank
    rw [hunits]
    exact nearestRank_units h
  · next hs =>
    -- What the shift leaves of `k` is a power of two, which makes tens of the fives.
    obtain ⟨n, hn⟩ := Nat.exists_eq_add_of_le (Nat.le_of_not_le hs)
    have hunits : significand rank * 5 ^ n * 2 ^ k = units rank * 10 ^ n := by
      show _ = significand rank * 2 ^ shift rank * 10 ^ n
      rw [hn, Nat.pow_add, Nat.mul_pow 2 5 n]
      ring
    have hmul := nearestRank_mul (units rank) 1 (Nat.pow_pos (by decide) : 0 < 10 ^ n)
    simp only [show k - shift rank = n by omega, show (-(n : Int)).toNat = 0 by omega, Int.neg_neg,
      Int.toNat_natCast, Nat.pow_eq, Nat.pow_zero, Nat.mul_one, hunits]
    rw [Nat.one_mul] at hmul
    rw [hmul]
    exact nearestRank_units h

theorem rankOfDecimal_shortened {rank : Nat} {exact d : Decimal} {excess : Nat}
    (h : shortened? rank exact excess = some d) : rankOfDecimal d = rank := by
  unfold shortened? at h
  extract_lets unit exponent below near far at h
  split at h
  · next hnear =>
    rw [← Option.some.inj h]
    exact hnear
  · split at h
    · next hfar =>
      rw [← Option.some.inj h]
      exact hfar
    · cases h

/-- **The shortest decimal of a rank reads back.** -/
theorem rankOfDecimal_shortestDecimal {rank : Nat} (h : rank ≤ infinityRank) :
    rankOfDecimal (shortestDecimal rank) = rank := by
  unfold shortestDecimal
  simp only
  cases hfind : (List.range' 1 17).findSome? fun width =>
      shortened? rank (exactDecimal rank)
        (Decimal.size (exactDecimal rank).coefficient - width) with
  | none => exact rankOfDecimal_exactDecimal h
  | some d =>
    obtain ⟨width, -, hwidth⟩ := List.exists_of_findSome?_eq_some hfind
    exact rankOfDecimal_shortened hwidth

end Double

end TagTemplate
