/-
What reading a number from a text comes to, for every text. Integers of 64 bits are integers, all
other decimal numbers and the special doubles in any case are doubles, and what is none of these is
no number.

Two kinds of text are refused with a fault of another kind: integers of more digits than are ever
read, even if they begin with zeros, and names of special doubles with a letter that only looks like
an `i`.
-/
import TagTemplate.Operand
import TagTemplate.Proofs.Number.Grammar

namespace TagTemplate.Number

/-- What a text comes to that is read as a number. -/
inductive ComesTo (s : Text) : Except Fault Number → Prop
  | integer {i : IntegerSource} {n : Int64} :
      i.text = s → i.length ≤ digitLimit → i.value = n.toInt → ComesTo s (.ok (.integer n))
  /-- A decimal number. If it is an integer, it is one beyond 64 bits. -/
  | decimal {d : DecimalSource} : d.text = s →
      (∀ i : IntegerSource, i.text = s →
        i.length ≤ digitLimit ∧ ¬(-0x8000000000000000 ≤ i.value ∧ i.value < 0x8000000000000000)) →
      ComesTo s (.ok (.double d.value))
  | special {n : SpecialSource} : n.text = s → ComesTo s (.ok (.double n.value))
  | overlong {i : IntegerSource} :
      i.text = s → digitLimit < i.length → ComesTo s (.error (.tooManyDigits i.length))
  | misspelled {n : MisspelledSource} : n.text = s → ComesTo s (.error (.specialNumber s))
  | nothing : (∀ d : DecimalSource, d.text ≠ s) → (∀ n : SpecialSource, n.text ≠ s) →
      (∀ n : MisspelledSource, n.text ≠ s) → ComesTo s (.error (.notNumeric (Text.quoted s)))

/-! ## Readers one after another -/

theorem toNumber_of_integer {s : String} {n : Int64} (h : readInt64? s = .ok (some n)) :
    (Operand.text s).toNumber = .ok (.integer n) := by
  rw [Operand.toNumber_text, ofText?_ofString, ofString?, h]
  rfl

theorem toNumber_of_integer_error {s : String} {f : Fault} (h : readInt64? s = .error f) :
    (Operand.text s).toNumber = .error f := by
  rw [Operand.toNumber_text, ofText?_ofString, ofString?, h]
  rfl

/-- What is no integer of 64 bits is read as a double. -/
theorem toNumber_of_double {s : String} (h : readInt64? s = .ok none) :
    (Operand.text s).toNumber = (do
      match ← readDouble? s with
      | some x => return .double x
      | none => throw (.notNumeric (Text.quoted s))) := by
  rw [Operand.toNumber_text, ofText?_ofString, ofString?, h]
  cases readDouble? s with
  | error f => rfl
  | ok x? => cases x? <;> rfl

/-- A text in which an integer reader finds no integer of 64 bits, but nothing to refuse either. -/
theorem readInt64?_of_beyond {s : String} (h : ∀ i : IntegerSource, i.text = s →
      i.length ≤ digitLimit ∧ ¬(-0x8000000000000000 ≤ i.value ∧ i.value < 0x8000000000000000)) :
    readInt64? s = .ok none := by
  by_cases hinteger : ∃ i : IntegerSource, i.text = s
  · obtain ⟨i, rfl⟩ := hinteger
    obtain ⟨hlength, hbeyond⟩ := h i rfl
    rw [readInt64?_text hlength, if_neg fun hfits => hbeyond ((fitsInt64_eq_true_iff _).1 hfits)]
  · exact readInt64?_eq_none fun i hi => hinteger ⟨i, hi⟩

theorem readInt64?_of_value {i : IntegerSource} {n : Int64} (hlength : i.length ≤ digitLimit)
    (hvalue : i.value = n.toInt) : readInt64? i.text = .ok (some n) := by
  rw [readInt64?_text hlength, hvalue, if_pos (fitsInt64_toInt n), Int64.ofInt_toInt]

/-- The name of a special double is no decimal number. -/
theorem text_ne_of_isSpelled {s : String} {negative : Bool} {name : SpecialName} {cs : List Char}
    (hsplit : splitSign s.toList = (negative, cs)) (h : name.IsSpelled cs) (d : DecimalSource) :
    d.text ≠ s := by
  rintro rfl
  rw [DecimalSource.text, String.toList_ofList, d.sign.split d.ne_sign] at hsplit
  obtain ⟨c, rest, hcs, hc⟩ := d.exists_cons
  obtain ⟨hdigit, hnot⟩ := h.not_numeric c (by rw [← (Prod.mk.inj hsplit).2, hcs]; simp)
  rcases hc with hc | hc
  · rw [hdigit] at hc
    cases hc
  · exact hnot (by simp [hc])

theorem toNumber_of_isSpelled {s : String} {negative : Bool} {name : SpecialName} {cs : List Char}
    (hsplit : splitSign s.toList = (negative, cs)) (h : name.IsSpelled cs) :
    (Operand.text s).toNumber =
      if cs.any (128 ≤ ·.toNat) then .error (.specialNumber s)
      else .ok (.double (name.double negative)) := by
  have hdecimal := text_ne_of_isSpelled hsplit h
  have hinteger : readInt64? s = .ok none :=
    readInt64?_eq_none fun i hi => hdecimal i.decimal (i.text_decimal.trans hi)
  rw [toNumber_of_double hinteger, readDouble?, readFinite?_eq_none hdecimal]
  simp only [readSpecial?_of_isSpelled hsplit h]
  split <;> rfl

/-! ## All texts -/

theorem ComesTo.toNumber_eq {s : Text} {r : Except Fault Number} (h : ComesTo s r) :
    (Operand.text s).toNumber = r := by
  cases h with
  | @integer i n htext hlength hvalue =>
    subst htext
    exact toNumber_of_integer (readInt64?_of_value hlength hvalue)
  | @decimal d htext hbeyond =>
    subst htext
    have hinteger := readInt64?_of_beyond fun i hi => hbeyond i (congrArg _ hi)
    rw [toNumber_of_double hinteger, readDouble?, readFinite?_text]
    rfl
  | @special n htext =>
    subst htext
    obtain ⟨hspelled, hown⟩ := SpecialName.forall₂_isCaseOf_iff.1 n.spelled
    have hascii : ¬n.letters.any (128 ≤ ·.toNat) = true := by
      rw [hspelled.any_foreign]
      rintro ⟨c, hc, hother⟩
      exact hown c hc hother
    rw [toNumber_of_isSpelled n.split hspelled, if_neg hascii]
    rfl
  | @overlong i htext hlong =>
    subst htext
    exact toNumber_of_integer_error (readInt64?_overlong hlong)
  | @misspelled n htext =>
    subst htext
    rw [toNumber_of_isSpelled n.split n.spelled, if_pos (n.spelled.any_foreign.2 n.misspelled)]
  | nothing hdecimal hspecial hmisspelled =>
    cases hcharacters : s.string? with
    | none =>
      rw [Operand.toNumber_text, ofText?, hcharacters]
      rfl
    | some characters =>
    obtain rfl := Text.string?_eq_some_iff.1 hcharacters
    replace hdecimal d hd := hdecimal d (congrArg Text.ofString hd)
    obtain ⟨sign, cs, hs, hsplit⟩ := exists_signed characters
    have hname : ∀ name : SpecialName, ¬name.IsSpelled cs := by
      intro name hspelled
      by_cases hother : ∃ c ∈ cs, IsDottedOther c
      · exact hmisspelled ⟨sign, name, cs, hspelled, hother⟩ (congrArg _ hs.symm)
      · have hcases := SpecialName.forall₂_isCaseOf_iff.2 ⟨hspelled, by simpa using hother⟩
        exact hspecial ⟨sign, name, cs, hcases⟩ (congrArg _ hs.symm)
    have hinteger : readInt64? characters = .ok none :=
      readInt64?_eq_none fun i hi => hdecimal i.decimal (i.text_decimal.trans hi)
    rw [toNumber_of_double hinteger, readDouble?, readFinite?_eq_none hdecimal]
    simp only [readSpecial?_eq_none hsplit hname]
    rfl

theorem exists_comesTo (s : Text) : ∃ r, ComesTo s r := by
  by_cases hinteger : ∃ i : IntegerSource, i.text = s ∧
      (digitLimit < i.length ∨ fitsInt64 i.value = true)
  · obtain ⟨i, htext, hi⟩ := hinteger
    by_cases hlong : digitLimit < i.length
    · exact ⟨_, .overlong htext hlong⟩
    · have hfits := hi.resolve_left hlong
      exact ⟨_, .integer htext (Nat.not_lt.1 hlong) (toInt_ofInt_of_fitsInt64 hfits).symm⟩
  by_cases hdecimal : ∃ d : DecimalSource, d.text = s
  · obtain ⟨d, htext⟩ := hdecimal
    refine ⟨_, .decimal htext fun i hi => ?_⟩
    obtain ⟨hlength, hfits⟩ := not_or.1 fun h => hinteger ⟨i, hi, h⟩
    exact ⟨Nat.not_lt.1 hlength, fun hrange => hfits ((fitsInt64_eq_true_iff _).2 hrange)⟩
  by_cases hspecial : ∃ n : SpecialSource, n.text = s
  · exact ⟨_, .special hspecial.choose_spec⟩
  by_cases hmisspelled : ∃ n : MisspelledSource, n.text = s
  · exact ⟨_, .misspelled hmisspelled.choose_spec⟩
  · exact ⟨_, .nothing (not_exists.1 hdecimal) (not_exists.1 hspecial) (not_exists.1 hmisspelled)⟩

/-- **What a text is read as**: exactly what `ComesTo` says of it. So a fault is one of a thing that
is no number, unless the text is an integer of too many digits or names a special double with a
letter that only looks like an `i`. -/
theorem toNumber_eq_iff (s : Text) :
    (∀ r, (Operand.text s).toNumber = r ↔ ComesTo s r) ∧
    ((∀ f, (Operand.text s).toNumber = .error f → f.category = "TypeError") ↔
      (∀ i : IntegerSource, i.text = s → i.length ≤ digitLimit) ∧
        ∀ n : MisspelledSource, n.text ≠ s) := by
  have hiff : ∀ r, (Operand.text s).toNumber = r ↔ ComesTo s r := by
    intro r
    constructor
    · rintro rfl
      obtain ⟨r, hr⟩ := exists_comesTo s
      rwa [hr.toNumber_eq]
    · exact ComesTo.toNumber_eq
  have hkind : "ValueError" ≠ "TypeError" := by decide
  refine ⟨hiff, ?_, ?_⟩
  · intro hcategory
    constructor
    · intro i hi
      by_contra hlong
      exact hkind (hcategory _ ((hiff _).2 (.overlong hi (Nat.not_le.1 hlong))))
    · intro n hn
      exact hkind (hcategory _ ((hiff _).2 (.misspelled hn)))
  · rintro ⟨hlength, hspelled⟩ f hf
    cases (hiff _).1 hf with
    | overlong hi hlong => exact absurd (hlength _ hi) (Nat.not_le.2 hlong)
    | misspelled hn => exact absurd hn (hspelled _)
    | nothing => rfl

/-- Two texts that are refused as no other text is: zeros that are too many, and an infinity
without a dot. -/
theorem toNumber_refuses_otherwise :
    (Operand.text (String.ofList (List.replicate 4301 '0'))).toNumber =
      .error (.tooManyDigits 4301) ∧
      (Operand.text "ınf").toNumber = .error (.specialNumber "ınf") ∧
      (Fault.tooManyDigits 4301).category = "ValueError" ∧
      (Fault.specialNumber "ınf").category = "ValueError" := by
  refine ⟨?_, by decide, rfl, rfl⟩
  have hlength : (List.replicate 4301 '0').length = 4301 := List.length_replicate
  have hnonempty : List.replicate 4301 '0' ≠ [] := List.ne_nil_of_length_eq_add_one hlength
  let zeros : IntegerSource := ⟨.absent, ⟨List.replicate 4301 '0', allDigits_zeros 4301, hnonempty⟩⟩
  have hlong : zeros.length = 4301 := hlength
  have hrefused := readInt64?_overlong (show digitLimit < zeros.length by rw [hlong]; decide)
  rw [hlong] at hrefused
  exact toNumber_of_integer_error hrefused

end TagTemplate.Number
