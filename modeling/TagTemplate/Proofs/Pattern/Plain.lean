/-
The pattern of the empty text. It allows 340 digits after the point, and no shortest decimal of a
double has more (`exponent_shortestDecimal_ge`), so nothing is rounded: what is written is the
number itself, in the fewest digits that fixed notation needs. Read as a double it gives the number
back where there is a double for it; an integer that has none gives the nearest one.
-/
import TagTemplate.Proofs.Number.Order
import TagTemplate.Proofs.Pattern.Fixed

namespace TagTemplate.Pattern

open Number

/-- The digits around the point of a number that is written with as few of them as can be. -/
structure IsBare (whole fraction : List Char) : Prop where
  digits : AllDigits (whole ++ fraction)
  nonempty : ¬(whole = [] ∧ fraction = [])
  leading : whole.head? = some '0' → whole = ['0'] ∧ fraction = []
  final : fraction.getLast? ≠ some '0'

theorem integerPart_plain (r : ℚ) :
    plain.integerPart r = if ⌊r⌋₊ = 0 then [] else Nat.toDigits 10 ⌊r⌋₊ := by
  simp [integerPart, plain, List.leftpad]

theorem IsGrouped.not_mem {text : List Char} (h : IsGrouped 0 text) : ',' ∉ text := by
  intro hmem
  obtain ⟨left, right, htext⟩ := List.append_of_mem hmem
  obtain ⟨-, -, hpos, -⟩ := h.comma left right htext
  exact Nat.lt_irrefl 0 hpos

theorem isBare_of_floor {r : ℚ} {fraction : List Char} (h : IsFraction plain fraction) :
    IsBare (if plain.integerPart r = [] ∧ fraction = [] then ['0'] else plain.integerPart r)
      fraction := by
  have hfinal : fraction.getLast? ≠ some '0' := by
    rcases List.eq_nil_or_concat fraction with rfl | hconcat
    · simp
    · exact h.final (List.length_pos_iff.2 (by obtain ⟨_, _, rfl⟩ := hconcat; simp))
  rw [integerPart_plain]
  by_cases hzero : ⌊r⌋₊ = 0
  · rw [if_pos hzero]
    by_cases hnil : fraction = []
    · subst hnil
      exact ⟨allDigits_zeros 1, by simp, by simp, hfinal⟩
    · rw [if_neg fun hboth => hnil hboth.2]
      exact ⟨h.digits, fun hboth => hnil hboth.2, by simp, hfinal⟩
  · rw [if_neg hzero, if_neg fun hboth => Nat.toDigits_ne_nil hboth.1]
    exact ⟨(allDigits_toDigits _).append h.digits, fun hboth => Nat.toDigits_ne_nil hboth.1,
      fun hhead => absurd hhead (head?_toDigits hzero), hfinal⟩

/-- In fixed notation the empty pattern asks for no digit that is not needed, and for no commas. -/
theorem IsFixed.isBare {r : ℚ} {text : List Char} (h : IsFixed plain r text) :
    ∃ whole fraction, text = pointed whole fraction ∧ IsBare whole fraction ∧
      ∃ d, readDecimal? text = some d ∧ d.value = r := by
  obtain ⟨whole, fraction, rfl, hgrouped, hinteger, hfraction⟩ := h.sides
  have hwhole : whole.filter (· ≠ ',') = whole := by
    rw [List.filter_eq_self]
    intro c hc
    have hne : c ≠ ',' := fun heq => hgrouped.not_mem (heq ▸ hc)
    exact decide_eq_true hne
  have hreads := h.reads
  rw [← pointed_eq, filter_pointed hfraction.digits, hwhole] at hreads
  rw [hwhole] at hinteger
  exact ⟨whole, fraction, (pointed_eq ..).symm, hinteger ▸ isBare_of_floor hfraction,
    by rwa [← pointed_eq]⟩

/-- Such a text does not begin with a sign. -/
theorem IsBare.ne_sign {whole fraction : List Char} (h : IsBare whole fraction) :
    ∀ c ∈ (pointed whole fraction).head?, c ≠ '+' ∧ c ≠ '-' := by
  rw [pointed_eq]
  intro c hc
  cases whole with
  | cons d whole => exact ne_sign_of_isDigit (h.digits c (by cases hc; simp))
  | nil =>
    cases fraction with
    | nil => exact absurd ⟨rfl, rfl⟩ h.nonempty
    | cons d fraction =>
      cases hc
      decide

/-- **The empty pattern does not round**: it has a place for the last digit of every number. -/
theorem eq_of_roundedTo_plain {v : Number} (hv : v.isFinite = true) {r : ℚ}
    (h : RoundedTo plain.maxFraction (v.magnitude.value * plain.multiplier) r) :
      r = v.magnitude.value := by
  obtain ⟨n, hround, rfl⟩ := h
  -- Counted in the last place that is written, the magnitude is a natural number.
  have hexponent := exponent_magnitude_ge hv
  generalize v.magnitude = d at *
  obtain ⟨k, hk⟩ : ∃ k : Nat, d.exponent = k - (plain.maxFraction : Int) :=
    ⟨(d.exponent + 340).toNat, by simp [plain, allFractionDigits]; omega⟩
  have hpos : (0 : ℚ) < 10 ^ plain.maxFraction := by positivity
  have hunits : d.value * (plain.multiplier : Nat) * 10 ^ plain.maxFraction =
      (d.coefficient * 10 ^ k : Nat) := by
    rw [show plain.multiplier = 1 from rfl, Nat.cast_one, mul_one, Decimal.value, hk,
      zpow_sub₀ (by norm_num), zpow_natCast, zpow_natCast]
    push_cast
    field_simp
  rw [hunits] at hround
  rw [hround.unique (.natCast _), ← hunits, show plain.multiplier = 1 from rfl,
    Nat.cast_one, mul_one,
    mul_div_cancel_right₀ _ hpos.ne']

theorem isFixed_plain {v : Number} (hv : v.isFinite = true) :
    IsFixed plain v.magnitude.value (plain.fixedText v.magnitude.value) := by
  have hnonneg := v.magnitude.value_nonneg
  have hround : RoundedTo plain.maxFraction (v.magnitude.value * plain.multiplier) _ :=
    ⟨_, roundsTo_nearest (by positivity), rfl⟩
  have hfixed := isFixed_parts wellFormed_plain
    (nearest (v.magnitude.value * plain.multiplier * 10 ^ plain.maxFraction))
  rwa [eq_of_roundedTo_plain hv hround] at hfixed

theorem around_plain (negative : Bool) (body : List Char) :
    (if negative then plain.negative else plain.positive).around body =
      String.ofList (minus negative ++ body) := by
  apply Text.toList_injective
  cases negative <;> simp [plain, Affixes.around, minus]

/-- **The empty pattern loses nothing.** Every finite number is formatted, as a decimal number that
denotes what its text denotes: a minus sign only below zero, no exponent, no commas, no zero at the
end after the point, and none before the point but in `0` itself. Read as a double it is the number
as a double, and this is the number if any double is. -/
theorem format_plain {v : Number} (hv : v.isFinite = true) :
    ∃ (s : String) (whole fraction : List Char) (x : ℚ) (y : Double), compile "" = .ok plain ∧
      plain.format v = .ok s ∧
      s = .ofList (minus (decide (x < 0)) ++ pointed whole fraction) ∧ IsBare whole fraction ∧
      (whole.head? = some '0' → s = "0") ∧
      denotedBy? v.text = some x ∧ denotedBy? s = some x ∧
      readDouble? s = .ok (some y) ∧ y.sameNumber v.toDouble = true ∧
      ∀ z : Double, z.reading.value? = v.reading.value? → y.reading.value? = v.reading.value? := by
  obtain ⟨x, product, hx, hproduct, hformat⟩ := exists_product wellFormed_plain hv
  obtain ⟨x', hx', hvalue, hsign⟩ := exists_denoted hv
  obtain rfl : x = x' := Option.some.inj (hx.symm.trans hx')
  rw [if_pos (show plain.minExponent = 0 from rfl), fixed_eq hproduct] at hformat
  change plain.format v = .ok _ at hformat
  have hfixed := isFixed_plain hv
  rw [hvalue] at hfixed
  obtain ⟨whole, fraction, htext, hbare, d, hread, hd⟩ := hfixed.isBare
  rw [← hvalue] at hd
  rw [htext] at hread hformat
  have hbelow : decide (x < 0) = v.isBelowZero := by
    rw [Bool.eq_iff_iff, decide_eq_true_iff, hsign]
  have haround := around_plain (decide (x < 0)) (pointed whole fraction)
  simp only [decide_eq_true_eq] at haround
  rw [haround] at hformat
  obtain ⟨hdenoted, hdouble⟩ := reads_minus hbare.ne_sign hread (decide (x < 0))
  have hsame := sameNumber_ofDecimal hv hd
  rw [← hbelow] at hsame
  refine ⟨_, whole, fraction, x, _, rfl, hformat, rfl, hbare, ?_, (denotedBy?_text v).trans hx, ?_,
    hdouble, hsame, ?_⟩
  · intro hhead
    obtain ⟨rfl, rfl⟩ := hbare.leading hhead
    obtain rfl : (⟨0, 0⟩ : Decimal) = d := Option.some.inj hread
    have hzero : x = 0 := by
      rw [Decimal.value, Nat.cast_zero, zero_mul, hvalue] at hd
      exact abs_eq_zero.1 hd.symm
    rw [hzero, decide_eq_false (lt_irrefl 0)]
    rfl
  · rw [hdenoted, hd, hvalue, signed_abs]
  · intro z hz
    rw [Double.value?_eq_of_sameNumber hsame]
    cases v with
    | double => rfl
    | integer n =>
      have hinteger : z.reading.value? = some (n.toInt : ℚ) := hz
      exact (Double.value?_eq_of_sameNumber (Double.sameNumber_ofInt hinteger)).trans hz

/-- The greatest negative number, which has the most digits after the point. -/
theorem format_plain_least : Number.isFinite (.double (.ofRank true 1)) = true ∧
    ∃ (s : String) (whole fraction : List Char) (x : ℚ) (y : Double), compile "" = .ok plain ∧
      plain.format (.double (.ofRank true 1)) = .ok s ∧
      s = .ofList (minus (decide (x < 0)) ++ pointed whole fraction) ∧ IsBare whole fraction ∧
      denotedBy? (Number.double (.ofRank true 1)).text = some x ∧ denotedBy? s = some x ∧
      readDouble? s = .ok (some y) ∧ y.sameNumber (.ofRank true 1) = true := by
  have hfinite : Number.isFinite (.double (.ofRank true 1)) = true := by decide
  obtain ⟨s, whole, fraction, x, y, hcompile, hformat, hs, hbare, -, htext, hdenoted, hread,
      hsame, -⟩ :=
    format_plain hfinite
  exact ⟨hfinite, s, whole, fraction, x, y, hcompile, hformat, hs, hbare, htext, hdenoted,
    hread, hsame⟩

/-- An integer that no double stands for, which is not read back as one. -/
theorem format_plain_between_doubles : compile "" = .ok plain ∧
    plain.format (.integer 9007199254740993) = .ok "9007199254740993" ∧
    ∃ y, readDouble? "9007199254740993" = .ok (some y) ∧ y.reading.value? = some 9007199254740992 ∧
      y.reading.value? ≠ (Number.integer 9007199254740993).reading.value? := by
  have hread :
    readDouble? "9007199254740993" = .ok (some (.ofInt 9007199254740992)) := by decide +kernel
  have hreading := Double.reading_ofInt (n := 9007199254740992) (by decide)
  have hinteger : (9007199254740993 : Int64).toInt = 9007199254740993 := by decide
  refine ⟨rfl, by decide +kernel, _, hread, ?_, ?_⟩
  · rw [hreading]
    norm_num [Reading.value?]
  · rw [hreading]
    norm_num [Reading.value?, Number.reading, hinteger]

end TagTemplate.Pattern
