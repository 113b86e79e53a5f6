/-
Numbers formatted in fixed notation: for every pattern and every finite number the text is
that of the magnitude, times the multiplier and rounded half to even, with as many digits as the
pattern asks for, and nothing but the affixes depends on the sign.

Commas are told by what stands to their right, so that no count of groups is needed.
-/
import Mathlib.Data.Rat.Floor
import TagTemplate.Proofs.Pattern.Places

namespace TagTemplate.Pattern

open Number

/-! ## Commas -/

/-- Digits with commas among them: there is one between two neighbouring digits where the
number of digits to its right is a multiple of `size`, and nowhere else. -/
structure IsGrouped (size : Nat) (text : List Char) : Prop where
  comma : ∀ left right, text = left ++ ',' :: right →
    (∃ c ∈ left.getLast?, c.isDigit = true) ∧ (∃ c ∈ right.head?, c.isDigit = true) ∧
      0 < size ∧ size ∣ right.countP Char.isDigit
  together : ∀ left c d right, text = left ++ c :: d :: right → c.isDigit = true →
    d.isDigit = true → ¬(0 < size ∧ size ∣ (d :: right).countP Char.isDigit)

variable {size : Nat} {c : Char} {text ds : List Char}

theorem ne_comma_of_isDigit (hc : c.isDigit = true) : c ≠ ',' := by
  rintro rfl
  cases hc

theorem isGrouped_nil (size : Nat) : IsGrouped size [] where
  comma := by simp
  together := by simp

/-- A digit in front of digits that do not make a group. -/
theorem IsGrouped.cons (h : IsGrouped size text) (hc : c.isDigit = true)
    (hsize : text ≠ [] → ¬(0 < size ∧ size ∣ text.countP Char.isDigit)) :
    IsGrouped size (c :: text) where
  comma := by
    intro left right htext
    cases left with
    | nil => exact absurd (List.cons.inj htext).1 (ne_comma_of_isDigit hc)
    | cons _ left =>
      obtain ⟨⟨d, hd, hdigit⟩, hright⟩ := h.comma left right (List.cons.inj htext).2
      refine ⟨⟨d, ?_, hdigit⟩, hright⟩
      rw [List.getLast?_cons, Option.mem_def.1 hd]
      rfl
  together := by
    intro left c' d right htext
    cases left with
    | nil =>
      intro _ _
      have hrest : text = d :: right := (List.cons.inj htext).2
      rw [← hrest]
      exact hsize (by simp [hrest])
    | cons _ left => exact h.together left c' d right (List.cons.inj htext).2

/-- A digit and a comma in front of digits that make groups. -/
theorem IsGrouped.cons_comma (h : IsGrouped size text) (hc : c.isDigit = true)
    (hfirst : ∃ d ∈ text.head?, d.isDigit = true) (hpos : 0 < size)
    (hdvd : size ∣ text.countP Char.isDigit) : IsGrouped size (c :: ',' :: text) where
  comma := by
    intro left right htext
    rcases left with _ | ⟨d, _ | ⟨e, left⟩⟩
    · exact absurd (List.cons.inj htext).1 (ne_comma_of_isDigit hc)
    · obtain ⟨rfl, hrest⟩ := List.cons.inj htext
      rw [← (List.cons.inj hrest).2]
      exact ⟨⟨c, rfl, hc⟩, hfirst, hpos, hdvd⟩
    · obtain ⟨⟨d', hd', hdigit⟩, hright⟩ :=
        h.comma left right (List.cons.inj (List.cons.inj htext).2).2
      refine ⟨⟨d', ?_, hdigit⟩, hright⟩
      rw [List.getLast?_cons, List.getLast?_cons, Option.mem_def.1 hd']
      rfl
  together := by
    intro left c' d right htext hc' hd
    rcases left with _ | ⟨_, _ | ⟨_, left⟩⟩
    · exact absurd (List.cons.inj (List.cons.inj htext).2).1.symm (ne_comma_of_isDigit hd)
    · exact absurd (List.cons.inj (List.cons.inj htext).2).1.symm (ne_comma_of_isDigit hc')
    · exact h.together left c' d right (List.cons.inj (List.cons.inj htext).2).2 hc' hd

theorem head?_grouped (size : Nat) (ds : List Char) : (grouped size ds).head? = ds.head? := by
  cases ds with
  | nil => rfl
  | cons d ds =>
    rw [grouped]
    split <;> rfl

theorem countP_grouped (size : Nat) (hds : AllDigits ds) :
    (grouped size ds).countP Char.isDigit = ds.length := by
  induction ds with
  | nil => rfl
  | cons d ds ih =>
    have hd : d.isDigit = true := hds d (by simp)
    have hrest := ih fun c hc => hds c (List.mem_cons_of_mem d hc)
    have hcomma : ¬(',').isDigit = true := by decide
    rw [grouped, List.length_cons, ← hrest]
    split
    · rw [List.countP_cons_of_pos hd, List.countP_cons_of_neg hcomma]
    · rw [List.countP_cons_of_pos hd]

/-- Without the commas the digits are the same. -/
theorem filter_grouped (size : Nat) (hds : AllDigits ds) :
    (grouped size ds).filter (· ≠ ',') = ds := by
  induction ds with
  | nil => rfl
  | cons d ds ih =>
    have hd : d ≠ ',' := ne_comma_of_isDigit (hds d (by simp))
    have hrest := ih fun c hc => hds c (List.mem_cons_of_mem d hc)
    rw [grouped]
    split
    · rw [List.filter_cons_of_pos (by simpa using hd), List.filter_cons_of_neg (by simp), hrest]
    · rw [List.filter_cons_of_pos (by simpa using hd), hrest]

theorem isGrouped_grouped (hds : AllDigits ds) : IsGrouped size (grouped size ds) := by
  induction ds with
  | nil => exact isGrouped_nil size
  | cons d ds ih =>
    have hd : d.isDigit = true := hds d (by simp)
    have hrest : AllDigits ds := fun c hc => hds c (List.mem_cons_of_mem d hc)
    have hcount := countP_grouped size hrest
    rw [grouped]
    split
    · next h =>
      obtain ⟨hsize, hne, hmod⟩ := h
      refine (ih hrest).cons_comma hd ?_ (Nat.pos_of_ne_zero hsize) ?_
      · obtain ⟨c, cs, rfl⟩ := List.exists_cons_of_ne_nil hne
        exact ⟨c, head?_grouped size (c :: cs), hrest c (by simp)⟩
      · rw [hcount]
        exact Nat.dvd_of_mod_eq_zero hmod
    · next h =>
      refine (ih hrest).cons hd fun hne hgroup => h ⟨hgroup.1.ne', ?_, ?_⟩
      · rintro rfl
        exact hne rfl
      · rw [hcount] at hgroup
        exact Nat.mod_eq_zero_of_dvd hgroup.2

/-! ## Texts -/

/-- The digits before the point that a pattern asks for: those of the integer part, which has
none if it is zero, behind zeros up to the least number of digits. -/
def integerPart (p : Pattern) (r : ℚ) : List Char :=
  List.leftpad p.minInteger '0' (if ⌊r⌋₊ = 0 then [] else Nat.toDigits 10 ⌊r⌋₊)

/-- The digits before and after the point that spell `r` in fixed notation. -/
structure IsFixedSides (p : Pattern) (r : ℚ) (whole fraction : List Char) : Prop where
  grouped : IsGrouped p.grouping whole
  integer : whole.filter (· ≠ ',') =
    if p.integerPart r = [] ∧ fraction = [] then ['0'] else p.integerPart r
  fraction : IsFraction p fraction

/-- The text of the number `r`, which has no more places than the pattern, in fixed notation. -/
structure IsFixed (p : Pattern) (r : ℚ) (text : List Char) : Prop where
  reads : ∃ d, readDecimal? (text.filter (· ≠ ',')) = some d ∧ d.value = r
  sides : ∃ whole fraction, text = whole ++ afterPoint fraction ∧ IsFixedSides p r whole fraction

theorem wholeDigits_eq (p : Pattern) (n : Nat) :
    p.wholeDigits n = p.integerPart ((n : ℚ) / 10 ^ p.maxFraction) := by
  have hfloor : ⌊(n : ℚ) / 10 ^ p.maxFraction⌋₊ = n / 10 ^ p.maxFraction := by
    exact_mod_cast Rat.natFloor_natCast_div_natCast n (10 ^ p.maxFraction)
  rw [integerPart, hfloor]
  rfl

theorem filter_pointed {whole fraction : List Char} (hf : AllDigits fraction) :
    (pointed whole fraction).filter (· ≠ ',') = pointed (whole.filter (· ≠ ',')) fraction := by
  have hall : (afterPoint fraction).filter (· ≠ ',') = afterPoint fraction := by
    rw [List.filter_eq_self]
    intro c hc
    have hne : c ≠ ',' := by
      unfold afterPoint at hc
      split at hc
      · cases hc
      · rcases List.mem_cons.1 hc with rfl | hc
        · decide
        · exact ne_comma_of_isDigit (hf c hc)
    exact decide_eq_true hne
  rw [pointed_eq, pointed_eq, List.filter_append, hall]

/-- The text that a pattern in fixed notation makes of a magnitude. -/
def fixedText (p : Pattern) (x : ℚ) : List Char :=
  let sides := p.parts (nearest (x * p.multiplier * 10 ^ p.maxFraction))
  pointed (grouped p.grouping sides.1) sides.2

theorem isFixed_parts {p : Pattern} (hp : p.WellFormed) (n : Nat) :
    IsFixed p (n / 10 ^ p.maxFraction)
      (pointed (grouped p.grouping (p.parts n).1) (p.parts n).2) := by
  have hfraction := isFraction_parts (n := n) hp.fraction
  have hdigits := allDigits_parts (p := p) (n := n)
  have hfilter := filter_grouped p.grouping hdigits
  refine ⟨?_, _, _, pointed_eq .., ⟨isGrouped_grouped hdigits, ?_, hfraction⟩⟩
  · rw [filter_pointed hfraction.digits, hfilter]
    exact readDecimal?_parts hp.fraction
  · rw [hfilter, ← wholeDigits_eq, parts]
    simp only [Bool.and_eq_true, List.isEmpty_iff]

/-- The working precision suffices for every number of a template. -/
theorem fixed_eq {p : Pattern} {x : ℚ} {d : Decimal} (hd : IsProduct p x d) :
    p.fixed d = .ok (p.fixedText |x|) := by
  have hround := d.roundsTo_scaledTo (-p.maxFraction)
  rw [zpow_neg, zpow_natCast, div_inv_eq_mul] at hround
  have hbound : d.value * 10 ^ p.maxFraction ≤ (10 ^ (330 + p.maxFraction) : Nat) := by
    push_cast
    rw [pow_add]
    exact mul_le_mul_of_nonneg_right hd.bounded.le (by positivity)
  have hlt : d.scaledTo (-p.maxFraction) < 10 ^ (integerDigits + p.maxFraction) :=
    (hround.le_of_le hbound).trans_lt
      (Nat.pow_lt_pow_right (by decide) (Nat.add_lt_add_right (by decide) _))
  have hnearest : nearest (|x| * p.multiplier * 10 ^ p.maxFraction) =
      d.scaledTo (-p.maxFraction) := by
    rw [hd.value] at hround
    exact hround.nearest_eq (by positivity)
  rw [fixed, places_eq p _ rfl hlt, fixedText, hnearest]
  rfl

example : (compile "#,##0.0#;(0)" >>= (·.format (.integer (-1234567)))) = .ok "(1,234,567.0)" := rfl

end TagTemplate.Pattern
