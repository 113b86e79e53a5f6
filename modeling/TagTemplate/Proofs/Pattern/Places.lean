/-
The digits that a pattern gives to a number before and after the point. They depend on the
number only after it was rounded to so many of the last place, and they spell exactly that.
The products with the multiplier are so short that no digit of them is ever lost, and the
working precision suffices.
-/
import Mathlib.Data.Nat.Cast.Order.Field
import TagTemplate.Pattern.Format
import TagTemplate.Proofs.Number.Denotation
import TagTemplate.Proofs.Pattern.Compiled

namespace TagTemplate

/-- A body between the affixes. -/
def Affixes.around (a : Affixes) (body : List Char) : Text :=
  a.before ++ String.ofList body ++ a.after

namespace Pattern

open Double Number

/-! ## Digits -/

section Digits

variable {n width : Nat} {ds : List Char}

theorem allDigits_positiveDigits (n : Nat) : AllDigits (positiveDigits n) := by
  unfold positiveDigits
  split
  · exact fun _ hc => by cases hc
  · exact allDigits_toDigits n

theorem ofDigits_positiveDigits (n : Nat) : ofDigits (positiveDigits n) = n := by
  unfold positiveDigits
  split
  · next h => rw [h, ofDigits, Nat.ofDigitChars_nil]
  · exact ofDigits_toDigits n

/-- Zero counts as a number of no digits here. -/
theorem length_positiveDigits_le_iff : (positiveDigits n).length ≤ width ↔ n < 10 ^ width := by
  unfold positiveDigits
  split
  · next h =>
    have := Nat.pow_pos (n := width) (by decide : 0 < 10)
    simp [h, this]
  · next h =>
    rcases Nat.eq_zero_or_pos width with rfl | hwidth
    · have hpos : 0 < (Decimal.digits n).length := Decimal.size_pos n
      have hone : 10 ^ 0 = 1 := rfl
      omega
    · exact Decimal.size_le_iff hwidth

theorem allDigits_padLeft (h : AllDigits ds) (width : Nat) : AllDigits (padLeft width ds) :=
  (allDigits_zeros _).append h

theorem allDigits_padRight (h : AllDigits ds) (width : Nat) : AllDigits (padRight width ds) :=
  h.append (allDigits_zeros _)

theorem ofDigits_padLeft (width : Nat) (ds : List Char) :
    ofDigits (padLeft width ds) = ofDigits ds := ofDigits_zeros_append ..

theorem length_padLeft (width : Nat) (ds : List Char) :
    (padLeft width ds).length = max width ds.length := List.length_leftpad ..

theorem length_padRight (width : Nat) (ds : List Char) :
    (padRight width ds).length = max width ds.length := by
  rw [padRight, List.length_append, List.length_replicate]
  omega

theorem allDigits_dropFinalZeros (h : AllDigits ds) : AllDigits (dropFinalZeros ds) := by
  obtain ⟨k, hk⟩ := eq_dropFinalZeros_append ds
  intro c hc
  exact h c (by rw [hk]; exact List.mem_append_left _ hc)

theorem getLast?_dropFinalZeros (ds : List Char) : (dropFinalZeros ds).getLast? ≠ some '0' := by
  intro h
  rw [dropFinalZeros, List.getLast?_reverse] at h
  have := List.head?_dropWhile_not (fun c => decide (c = '0')) ds.reverse
  rw [h] at this
  simp at this

end Digits

/-! ## What stands before and after the point -/

/-- The number `r` is `x` rounded half to even to so many places after the point. -/
def RoundedTo (places : Nat) (x r : ℚ) : Prop :=
  ∃ n : Nat, RoundsTo (x * 10 ^ places) n ∧ r = n / 10 ^ places

/-- The digits after the point that a pattern allows. -/
structure IsFraction (p : Pattern) (fraction : List Char) : Prop where
  digits : AllDigits fraction
  least : p.minFraction ≤ fraction.length
  most : fraction.length ≤ p.maxFraction
  final : p.minFraction < fraction.length → fraction.getLast? ≠ some '0'

variable (p : Pattern) (n : Nat)

/-- The digits before the point of a number that counts its last places. -/
def wholeDigits : List Char := padLeft p.minInteger (positiveDigits (n / 10 ^ p.maxFraction))

/-- All digits after the point. -/
def allFraction : List Char := padLeft p.maxFraction (positiveDigits (n % 10 ^ p.maxFraction))

/-- Those of them that are written. -/
def fractionDigits : List Char := padRight p.minFraction (dropFinalZeros (p.allFraction n))

/-- The digits before and after the point, which are not both missing. -/
def parts : List Char × List Char :=
  (if (p.wholeDigits n).isEmpty && (p.fractionDigits n).isEmpty then ['0'] else p.wholeDigits n,
    p.fractionDigits n)

/-- The working precision suffices below this bound. -/
theorem places_eq {d : Decimal} (h : d.scaledTo (-p.maxFraction) = n)
    (hlt : n < 10 ^ (integerDigits + p.maxFraction)) : p.places d = .ok (p.parts n) := by
  have hsize := (Decimal.size_le_iff (Nat.add_pos_left (by decide) _)).2 hlt
  rw [places, h, if_neg fun hlong => Nat.not_lt.2 hsize hlong.2]
  rfl

variable {p n}

theorem allDigits_wholeDigits : AllDigits (p.wholeDigits n) :=
  allDigits_padLeft (allDigits_positiveDigits _) _

theorem allDigits_allFraction : AllDigits (p.allFraction n) :=
  allDigits_padLeft (allDigits_positiveDigits _) _

theorem length_allFraction : (p.allFraction n).length = p.maxFraction := by
  have hlt : n % 10 ^ p.maxFraction < 10 ^ p.maxFraction := Nat.mod_lt _ (Nat.pow_pos (by decide))
  have hle := length_positiveDigits_le_iff.2 hlt
  rw [allFraction, length_padLeft]
  omega

/-- Only zeros at the end are left out. -/
theorem fractionDigits_append (hp : p.minFraction ≤ p.maxFraction) :
    p.fractionDigits n ++ List.replicate (p.maxFraction - (p.fractionDigits n).length) '0' =
      p.allFraction n := by
  obtain ⟨k, hk⟩ := eq_dropFinalZeros_append (p.allFraction n)
  have hlength := congrArg List.length hk
  rw [length_allFraction, List.length_append, List.length_replicate] at hlength
  rw [fractionDigits, length_padRight, padRight, List.append_assoc, List.replicate_append_replicate]
  conv_rhs => rw [hk]
  congr 2
  omega

theorem isFraction_parts (hp : p.minFraction ≤ p.maxFraction) : IsFraction p (p.parts n).2 := by
  show IsFraction p (p.fractionDigits n)
  obtain ⟨k, hk⟩ := eq_dropFinalZeros_append (p.allFraction n)
  have hlength := congrArg List.length hk
  rw [length_allFraction, List.length_append, List.length_replicate] at hlength
  have htrimmed := allDigits_dropFinalZeros (allDigits_allFraction (p := p) (n := n))
  have hwritten : (p.fractionDigits n).length =
      max p.minFraction (dropFinalZeros (p.allFraction n)).length := length_padRight ..
  refine ⟨allDigits_padRight htrimmed _, by omega, by omega, fun hmore => ?_⟩
  have hnone : p.minFraction - (dropFinalZeros (p.allFraction n)).length = 0 := by omega
  rw [fractionDigits, padRight, hnone, List.replicate_zero, List.append_nil]
  exact getLast?_dropFinalZeros _

theorem parts_ne_nil : ¬((p.parts n).1 = [] ∧ (p.parts n).2 = []) := by
  unfold parts
  rintro ⟨hwhole, hfraction⟩
  dsimp only at hwhole hfraction
  split at hwhole
  · cases hwhole
  · next h => exact h (by rw [hwhole, hfraction]; rfl)

theorem allDigits_parts : AllDigits (p.parts n).1 := by
  unfold parts
  dsimp only
  split
  · exact allDigits_zeros 1
  · exact allDigits_wholeDigits

theorem ofDigits_parts : ofDigits (p.parts n).1 = n / 10 ^ p.maxFraction := by
  have hwhole : ofDigits (p.wholeDigits n) = n / 10 ^ p.maxFraction := by
    rw [wholeDigits, ofDigits_padLeft, ofDigits_positiveDigits]
  unfold parts
  dsimp only
  split
  · next h =>
    rw [← hwhole, List.isEmpty_iff.1 (Bool.and_eq_true_iff.1 h).1]
    rfl
  · exact hwhole

/-- What the digits spell around the point. -/
theorem value_parts (hp : p.minFraction ≤ p.maxFraction) :
    (⟨ofDigits ((p.parts n).1 ++ (p.parts n).2), -((p.parts n).2.length : Int)⟩ : Decimal).value =
      n / 10 ^ p.maxFraction := by
  have hmost : (p.fractionDigits n).length ≤ p.maxFraction := (isFraction_parts hp).most
  have hpad := fractionDigits_append (n := n) hp
  have hall : ofDigits ((p.parts n).1 ++ p.fractionDigits n) *
      10 ^ (p.maxFraction - (p.fractionDigits n).length) = n := by
    rw [← ofDigits_append_zeros, List.append_assoc, hpad, ofDigits_append, ofDigits_parts,
      length_allFraction, allFraction, ofDigits_padLeft, ofDigits_positiveDigits]
    exact Nat.div_add_mod' n _
  have hexponent : -((p.fractionDigits n).length : Int) =
      -(p.maxFraction : Int) + (p.maxFraction - (p.fractionDigits n).length : Nat) := by omega
  show (⟨_, -((p.fractionDigits n).length : Int)⟩ : Decimal).value = _
  rw [hexponent, ← Decimal.value_zeros]
  show (⟨ofDigits ((p.parts n).1 ++ p.fractionDigits n) * _, _⟩ : Decimal).value = _
  rw [hall, Decimal.value, zpow_neg, zpow_natCast, div_eq_mul_inv]

/-- The point and the digits after it, if there are any. -/
def afterPoint (fraction : List Char) : List Char := if fraction = [] then [] else '.' :: fraction

theorem pointed_eq (whole fraction : List Char) :
    pointed whole fraction = whole ++ afterPoint fraction := by
  cases fraction with
  | nil => exact (List.append_nil whole).symm
  | cons => rfl

theorem readDecimal?_pointed {whole fraction : List Char} (hw : AllDigits whole)
    (hf : AllDigits fraction) (hne : ¬(whole = [] ∧ fraction = [])) :
    readDecimal? (pointed whole fraction) =
      some ⟨ofDigits (whole ++ fraction), -(fraction.length : Int)⟩ := by
  have hnil : readExponent? [] = some 0 := rfl
  unfold pointed
  split
  · next hempty =>
    have hfraction := List.isEmpty_iff.1 hempty
    have hread := readDecimal?_whole hw (fun h => hne ⟨h, hfraction⟩) (by simp) hnil
    rw [hfraction, List.append_nil]
    rwa [List.append_nil] at hread
  · have hread := readDecimal?_point hw hne hf (by simp) hnil
    rwa [List.append_nil, Int.zero_sub] at hread

theorem readDecimal?_parts (hp : p.minFraction ≤ p.maxFraction) :
    ∃ d, readDecimal? (pointed (p.parts n).1 (p.parts n).2) = some d ∧
      d.value = n / 10 ^ p.maxFraction :=
  ⟨_, readDecimal?_pointed allDigits_parts (isFraction_parts hp).digits parts_ne_nil,
    value_parts hp⟩

/-! ## Numbers times the multiplier -/

theorem format_eq (p : Pattern) {v : Number} (hv : v.isFinite = true) :
    p.format v = p.surround v.isBelowZero <$> p.body v.magnitude := by
  rcases v with n | _ | ⟨negative, rank, bounded⟩
  · rfl
  · cases hv
  · rw [format, formatDouble, if_neg (rank_lt_of_isFinite hv).ne]
    rcases Nat.eq_zero_or_pos rank with rfl | hpos
    · simp [isBelowZero, Number.magnitude, Double.magnitude]
    · simp [isBelowZero, Number.magnitude, Double.magnitude, hpos.ne']

/-- What a body is made from: a number of few digits, which is that of the text times the
multiplier. -/
structure IsProduct (p : Pattern) (x : ℚ) (d : Decimal) : Prop where
  value : d.value = |x| * p.multiplier
  size : Decimal.size d.coefficient ≤ 23
  bounded : d.value < 10 ^ 330

/-- **No digit is lost in products with the multiplier.** -/
theorem exists_product {p : Pattern} (hp : p.WellFormed) {v : Number} (hv : v.isFinite = true) :
    ∃ x d, v.denoted? = some x ∧ IsProduct p x d ∧
      p.format v = (if x < 0 then p.negative else p.positive).around <$>
        (if p.minExponent = 0 then p.fixed d else p.scientific d) := by
  obtain ⟨x, hx, hvalue, hsign⟩ := exists_denoted hv
  have hcoefficient : v.magnitude.coefficient * p.multiplier ≤ 10 ^ 19 * 1000 :=
    Nat.mul_le_mul (Number.coefficient_magnitude_le hv) hp.multiplier_le
  have hshort : Decimal.size v.magnitude.coefficient ≤ productDigits :=
    (Decimal.size_le_iff (by decide)).2 ((Number.coefficient_magnitude_le hv).trans_lt (by decide))
  have hproduct : Decimal.size (v.magnitude.times p.multiplier).coefficient ≤ 23 :=
    (Decimal.size_le_iff (by decide)).2 (hcoefficient.trans_lt (by decide))
  refine ⟨x, v.magnitude.times p.multiplier, hx, ⟨?_, hproduct, ?_⟩, ?_⟩
  · rw [Decimal.value_times, hvalue]
  · have hmultiplier : (p.multiplier : ℚ) ≤ 1000 := by
      exact_mod_cast hp.multiplier_le
    have hpos : (0 : ℚ) < p.multiplier := Nat.cast_pos.2 hp.multiplier_pos
    calc
      (v.magnitude.times p.multiplier).value = v.magnitude.value * p.multiplier :=
        Decimal.value_times ..
      _ < 10 ^ 327 * p.multiplier := mul_lt_mul_of_pos_right (Number.value_magnitude_lt hv) hpos
      _ ≤ 10 ^ 327 * 10 ^ 3 := mul_le_mul_of_nonneg_left (by linarith) (by positivity)
      _ = 10 ^ 330 := (pow_add ..).symm
  · have hbody : p.body v.magnitude =
        if p.minExponent = 0 then p.fixed (v.magnitude.times p.multiplier)
        else p.scientific (v.magnitude.times p.multiplier) := by
      rw [body, Decimal.significant_of_size_le hshort,
        Decimal.significant_of_size_le (hproduct.trans (by decide))]
    rw [format_eq p hv, hbody]
    congr 1
    funext text
    by_cases h : x < 0
    · rw [if_pos h, hsign.1 h]
      rfl
    · rw [if_neg h, Bool.eq_false_iff.2 (fun hbelow => h (hsign.2 hbelow))]
      rfl

end Pattern

end TagTemplate
