/-
The rational number that a number denotes: an integer denotes itself, and a double the
decimal number that its text spells, which is the one of its shortest decimal.
-/
import TagTemplate.Proofs.Double.SeventeenDigits
import TagTemplate.Proofs.Number.ReadBack

namespace TagTemplate

namespace Double

/-- A finite magnitude as the decimal that its text spells. -/
def magnitude (rank : Nat) : Decimal := if rank = 0 then ⟨0, 0⟩ else shortestDecimal rank

variable {rank : Nat}

theorem magnitude_zero_value : (magnitude 0).value = 0 := by
  rw [magnitude, if_pos rfl, Decimal.value, Nat.cast_zero, zero_mul]

theorem value_magnitude_pos (hpos : 0 < rank) (hfinite : rank < infinityRank) :
    0 < (magnitude rank).value := by
  rw [magnitude, if_neg hpos.ne']
  exact value_shortestDecimal_pos hpos hfinite

theorem value_magnitude_lt (hfinite : rank < infinityRank) : (magnitude rank).value < 10 ^ 327 := by
  rcases Nat.eq_zero_or_pos rank with rfl | hpos
  · rw [magnitude_zero_value]
    positivity
  · rw [magnitude, if_neg hpos.ne']
    exact value_shortestDecimal_lt hpos hfinite

theorem coefficient_magnitude_le (hfinite : rank < infinityRank) :
    (magnitude rank).coefficient ≤ 10 ^ 17 := by
  rcases Nat.eq_zero_or_pos rank with rfl | hpos
  · exact Nat.zero_le _
  · rw [magnitude, if_neg hpos.ne']
    exact coefficient_shortestDecimal_le hpos hfinite

theorem exponent_magnitude_ge (hfinite : rank < infinityRank) :
    -340 ≤ (magnitude rank).exponent := by
  rcases Nat.eq_zero_or_pos rank with rfl | hpos
  · show -340 ≤ (0 : Int)
    omega
  · rw [magnitude, if_neg hpos.ne']
    exact exponent_shortestDecimal_ge hpos hfinite

theorem rankOfDecimal_magnitude (bounded : rank ≤ infinityRank) :
    rankOfDecimal (magnitude rank) = rank := by
  rw [magnitude]
  split
  · next hzero =>
    rw [hzero]
    rfl
  · exact rankOfDecimal_shortestDecimal bounded

theorem readDecimal?_magnitudeText (hfinite : rank < infinityRank) :
    ∃ d, Number.readDecimal? (magnitudeText rank) = some d ∧ d.value = (magnitude rank).value := by
  rcases Nat.eq_zero_or_pos rank with rfl | hpos
  · refine ⟨⟨0, -1⟩, by decide, ?_⟩
    rw [magnitude_zero_value, Decimal.value, Nat.cast_zero, zero_mul]
  · obtain ⟨ds, point, hdigits, hne, htext, hvalue⟩ := Number.exists_magnitudeText hpos.ne' hfinite
    obtain ⟨d, hread, hd⟩ := Number.readDecimal?_digits hdigits hne point
    rw [htext, magnitude, if_neg hpos.ne', ← hvalue]
    exact ⟨d, hread, hd⟩

end Double

namespace Number

/-- The number denoted. NaN and the infinities denote none. -/
def denoted? : Number → Option ℚ
  | integer n => some n.toInt
  | double x =>
    let (negative, cs) := splitSign x.chars
    (readDecimal? cs).map fun d => if negative then -d.value else d.value

def isFinite : Number → Bool
  | integer _ => true
  | double x => !x.isNaN && !x.isInfinite

/-- A negative zero is not below zero. -/
def isBelowZero : Number → Bool
  | integer n => n.toInt < 0
  | double .nan => false
  | double (.ranked negative rank _) => negative && rank ≠ 0

/-- The number without its sign, as the decimal that its text spells. -/
def magnitude : Number → Decimal
  | integer n => ⟨n.toInt.natAbs, 0⟩
  | double .nan => ⟨0, 0⟩
  | double (.ranked _ rank _) => Double.magnitude rank

theorem denoted?_double {negative : Bool} {rank : Nat} (bounded : rank ≤ Double.infinityRank)
    (hfinite : rank < Double.infinityRank) :
    denoted? (.double (.ranked negative rank bounded)) =
      some (if negative then -(Double.magnitude rank).value
        else (Double.magnitude rank).value) := by
  obtain ⟨d, hread, hd⟩ := Double.readDecimal?_magnitudeText hfinite
  have hchars : (Double.ranked negative rank bounded).chars =
      minus negative ++ Double.magnitudeText rank := rfl
  have hsplit := (readsAs_magnitudeText hfinite).magnitude.splitSign negative
  simp only [denoted?, hchars, hsplit, hread, Option.map_some, hd]

theorem rank_lt_of_isFinite {negative : Bool} {rank : Nat} {bounded : rank ≤ Double.infinityRank}
    (h : isFinite (.double (.ranked negative rank bounded)) = true) :
      rank < Double.infinityRank := by
  simp only [isFinite, Double.isNaN, Double.isInfinite, Bool.not_false, Bool.true_and,
    Bool.not_eq_true', beq_eq_false_iff_ne] at h
  exact Nat.lt_of_le_of_ne bounded h

/-- **Every finite number denotes one**, which has its magnitude and its sign. -/
theorem exists_denoted {v : Number} (hv : v.isFinite = true) :
    ∃ x, v.denoted? = some x ∧ v.magnitude.value = |x| ∧ (x < 0 ↔ v.isBelowZero = true) := by
  rcases v with n | _ | ⟨negative, rank, bounded⟩
  · refine ⟨n.toInt, rfl, ?_, ?_⟩
    · rw [magnitude, Decimal.value, zpow_zero, mul_one, Nat.cast_natAbs, Int.cast_abs]
    · rw [isBelowZero, decide_eq_true_eq, Int.cast_lt_zero]
  · cases hv
  · have hfinite := rank_lt_of_isFinite hv
    refine ⟨_, denoted?_double bounded hfinite, ?_, ?_⟩
    · have hnonneg := (Double.magnitude rank).value_nonneg
      rw [magnitude]
      split
      · rw [abs_neg, abs_of_nonneg hnonneg]
      · rw [abs_of_nonneg hnonneg]
    · rcases Nat.eq_zero_or_pos rank with rfl | hpos
      · rw [Double.magnitude_zero_value]
        cases negative <;> simp [isBelowZero]
      · have hvalue := Double.value_magnitude_pos hpos hfinite
        cases negative
        · simp [isBelowZero, hvalue.le]
        · simp [isBelowZero, hvalue, hpos.ne']

/-- What is kept of a number is short. -/
theorem coefficient_magnitude_le {v : Number} (hv : v.isFinite = true) :
    v.magnitude.coefficient ≤ 10 ^ 19 := by
  rcases v with n | _ | ⟨negative, rank, bounded⟩
  · have hle := n.toInt_lt
    have hge := n.le_toInt
    show n.toInt.natAbs ≤ _
    omega
  · cases hv
  · exact (Double.coefficient_magnitude_le (rank_lt_of_isFinite hv)).trans (by decide)

theorem value_magnitude_lt {v : Number} (hv : v.isFinite = true) :
    v.magnitude.value < 10 ^ 327 := by
  rcases v with n | _ | ⟨negative, rank, bounded⟩
  · have hle : (n.toInt.natAbs : ℚ) ≤ 10 ^ 19 := by
      exact_mod_cast coefficient_magnitude_le hv
    rw [magnitude, Decimal.value, zpow_zero, mul_one]
    exact hle.trans_lt (pow_lt_pow_right₀ (by norm_num) (by decide))
  · cases hv
  · exact Double.value_magnitude_lt (rank_lt_of_isFinite hv)

theorem exponent_magnitude_ge {v : Number} (hv : v.isFinite = true) :
    -340 ≤ v.magnitude.exponent := by
  rcases v with n | _ | ⟨negative, rank, bounded⟩
  · show -340 ≤ (0 : Int)
    omega
  · cases hv
  · exact Double.exponent_magnitude_ge (rank_lt_of_isFinite hv)

/-! ## Reading -/

/-- The number that a decimal text denotes. -/
def denotedBy? (s : String) : Option ℚ :=
  let (negative, cs) := splitSign s.toList
  (readDecimal? cs).map fun d => if negative then -d.value else d.value

/-- What is read of a text that has no sign but this one. -/
theorem reads_minus {cs : List Char} {d : Decimal} (hsign : ∀ c ∈ cs.head?, c ≠ '+' ∧ c ≠ '-')
    (hread : readDecimal? cs = some d) (negative : Bool) :
    denotedBy? (.ofList (minus negative ++ cs)) = some (if negative then -d.value else d.value) ∧
    readDouble? (.ofList (minus negative ++ cs)) = .ok (some (Double.ofDecimal negative d)) := by
  have hsplit := splitSign_minus hsign negative
  constructor
  · simp only [denotedBy?, String.toList_ofList, hsplit, hread, Option.map_some]
  · simp only [readDouble?, readFinite?, String.toList_ofList, hsplit, hread, Option.map_some]

theorem signed_abs (x : ℚ) : (if decide (x < 0) = true then -|x| else |x|) = x := by
  by_cases h : x < 0
  · rw [decide_eq_true h, if_pos rfl, abs_of_neg h, neg_neg]
  · rw [decide_eq_false h, if_neg Bool.false_ne_true, abs_of_nonneg (not_lt.1 h)]

/-- The text of a number denotes it. -/
theorem denotedBy?_text (v : Number) : denotedBy? v.text = v.denoted? := by
  cases v with
  | double x => simp only [denotedBy?, text, chars, String.toList_ofList, denoted?]
  | integer n =>
    have hsign : ∀ c ∈ (Nat.toDigits 10 n.toInt.natAbs).head?, c ≠ '+' ∧ c ≠ '-' := fun c hc =>
      ne_sign_of_isDigit (allDigits_toDigits _ c (List.mem_of_mem_head? hc))
    have hread := (reads_minus hsign (readDecimal?_toDigits _) (decide (n.toInt < 0))).1
    rw [← integerText_eq] at hread
    have hcast : decide (n.toInt < 0) = decide ((n.toInt : ℚ) < 0) := by simp
    rw [denoted?, show (integer n).text = integerText n.toInt from rfl, hread,
      Decimal.value, zpow_zero,
      mul_one, Nat.cast_natAbs, Int.cast_abs, hcast, signed_abs]

/-- A decimal of the magnitude of a number, read with its sign, is this number as a double. -/
theorem sameNumber_ofDecimal {v : Number} (hv : v.isFinite = true) {d : Decimal}
    (hd : d.value = v.magnitude.value) :
    (Double.ofDecimal v.isBelowZero d).sameNumber v.toDouble = true := by
  rw [Double.ofDecimal, Double.rankOfDecimal_congr hd, ← Double.ofDecimal]
  rcases v with n | _ | ⟨negative, rank, bounded⟩
  · have hself : ∀ m : Int, (Double.ofInt m).sameNumber (Double.ofInt m) = true := by
      simp [Double.ofInt, Double.ofUnits, Double.ofRank, Double.sameNumber]
    rw [isBelowZero, magnitude, ofDecimal_natAbs]
    exact hself n.toInt
  · cases hv
  · rw [isBelowZero, magnitude, toDouble, Double.ofDecimal, Double.rankOfDecimal_magnitude bounded,
      Double.ofRank, Double.sameNumber, Nat.min_eq_left bounded, beq_iff_eq]
    rcases Nat.eq_zero_or_pos rank with rfl | hpos
    · cases negative <;> rfl
    · simp [hpos.ne']

end Number

end TagTemplate
