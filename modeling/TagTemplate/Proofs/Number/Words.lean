/-
A number written as a word of a tag, and the same characters as a text. Words and texts have readers
of their own: a word may be a name or an operator as well, and only a text may name a special
double. On everything else the two agree.
-/
import TagTemplate.Engine.Echo
import TagTemplate.Proofs.Number.Acceptance
import TagTemplate.Proofs.Syntax.CanonicalToken

namespace TagTemplate.Token

open Number

/-- The constant that a number is. -/
def ofNumber : Number → Token
  | .integer n => integer n.toInt
  | .double x => double x

theorem ofNumber_inj {v w : Number} (h : ofNumber v = ofNumber w) : v = w := by
  cases v <;> cases w <;> simp only [ofNumber, integer.injEq, double.injEq, reduceCtorEq] at h
  · exact congrArg Number.integer (Int64.toInt_inj.1 h)
  · exact congrArg Number.double h

theorem ofNumber_ne_name (v : Number) (name : Text) :
    ofNumber v ≠ operator name ∧ ofNumber v ≠ function name ∧ ofNumber v ≠ loopVariable name := by
  cases v <;> simp [ofNumber]

/-! ## From the word to the text -/

/-- The name of a special double is not written as a decimal number is. -/
theorem text_ne_special (d : DecimalSource) (n : SpecialSource) : d.text ≠ n.text :=
  text_ne_of_isSpelled n.split (SpecialName.forall₂_isCaseOf_iff.1 n.spelled).1 d

theorem exists_decimal_of_readFinite? {s : String} {x : Double} (h : readFinite? s = some x) :
    ∃ d : DecimalSource, d.text = s := by
  by_contra hnone
  rw [readFinite?_eq_none (not_exists.1 hnone)] at h
  cases h

theorem exists_decimal_of_readInt64? {s : String} {n : Int64} (h : readInt64? s = .ok (some n)) :
    ∃ d : DecimalSource, d.text = s := by
  by_contra hnone
  rw [readInt64?_eq_none fun i hi => hnone ⟨i.decimal, i.text_decimal.trans hi⟩] at h
  cases h

/-- A word that is the constant of a number is a decimal number, and as a text it is the same
number. -/
theorem toNumber_of_ofWord {s : Text} {v : Number} (h : ofWord s = .ok (ofNumber v)) :
    (∃ d : DecimalSource, d.text = s) ∧ (Operand.text s).toNumber = .ok v := by
  rcases ofWord_cases h with ⟨symbol, -, hv⟩ | ⟨name, -, hv | hv⟩ | hnumeral
  · exact absurd hv (ofNumber_ne_name v symbol).1
  · exact absurd hv (ofNumber_ne_name v name).2.1
  · exact absurd hv (ofNumber_ne_name v name).2.2
  obtain ⟨characters, rfl, ⟨n, hn, hv⟩ | ⟨x, hint, hx, hv⟩⟩ := ofNumeral?_eq_some hnumeral
  · rw [ofNumber_inj (w := .integer n) hv]
    exact ⟨(exists_decimal_of_readInt64? hn).imp fun _ => congrArg _, toNumber_of_integer hn⟩
  · refine ⟨(exists_decimal_of_readFinite? hx).imp fun _ => congrArg _, ?_⟩
    rw [ofNumber_inj (w := .double x) hv, toNumber_of_double hint, readDouble?, hx]
    rfl

/-! ## From the text to the word -/

theorem ofWord_decimal (d : DecimalSource) :
    ofWord d.text = (do
      match ← readInt64? d.text with
      | some n => return integer n.toInt
      | none => return double d.value) := by
  obtain ⟨c, hc, hdigit⟩ := d.mantissa.exists_digit
  have hmem : c ∈ d.text.toList := by
    simp [DecimalSource.text, DecimalSource.unsigned, hc]
  have hfirst : ∀ c ∈ d.text.toList.head?, c ≠ '@' ∧ c.isAlpha = false := by
    rw [DecimalSource.text, String.toList_ofList]
    cases d.sign with
    | plus | minus =>
      rintro _ ⟨⟩
      decide
    | absent =>
      obtain ⟨c, cs, hcs, hc⟩ := d.exists_cons
      rw [hcs]
      rintro _ ⟨⟩
      rcases hc with hc | rfl
      · refine ⟨?_, isAlpha_of_isDigit hc⟩
        rintro rfl
        cases hc
      · decide
  rw [ofWord_of_digit hmem hdigit hfirst]
  cases readInt64? d.text with
  | error f => rfl
  | ok n? =>
    cases n? with
    | some n => rfl
    | none => simp only [bind, Except.bind, readFinite?_text]

/-- A text that is a number and no name of a special double is the constant of that number as a
word. -/
theorem ofWord_of_toNumber {s : Text} {v : Number} (h : (Operand.text s).toNumber = .ok v)
    (hspecial : ∀ n : SpecialSource, n.text ≠ s) : ofWord s = .ok (ofNumber v) := by
  obtain ⟨r, hr⟩ := exists_comesTo s
  obtain rfl := hr.toNumber_eq.symm.trans h
  cases hr with
  | @integer i n hi hlength hvalue =>
    subst hi
    rw [← i.text_decimal, ofWord_decimal, i.text_decimal, readInt64?_of_value hlength hvalue]
    rfl
  | @decimal d hd hbeyond =>
    subst hd
    rw [ofWord_decimal, readInt64?_of_beyond fun i hi => hbeyond i (congrArg _ hi)]
    rfl
  | special hn => exact absurd hn (hspecial _)

/-! ## Both ways -/

/-- What a constant pushes on the stack counts as its number. -/
theorem act_ofNumber (v : Number) (lookup : Echo.Lookup) (stack : Stack) (sink : Sink) :
    Echo.act lookup stack (ofNumber v) sink = .ok (.ofNumber v :: stack) sink ∧
      (Datum.ofNumber v).toNumber = .ok v := by
  cases v with
  | integer n =>
    refine ⟨rfl, ?_⟩
    simp only [Datum.ofNumber, Datum.toNumber, Datum.operand, Operand.toNumber,
      fitsInt64_toInt, if_true,
      Int64.ofInt_toInt]
  | double x => exact ⟨rfl, rfl⟩

/-- **Words and texts agree on numbers.** A word is the constant of a number exactly if its
characters as a text are that number and do not name a special double, and then the constant counts
as the text does. Every other word that is a token is a name or an operator, and no text of a number
but for the special doubles. -/
theorem ofLexeme_eq_ofNumber_iff (s : Text) :
    (∀ v, ofLexeme ⟨s, false⟩ = .ok (ofNumber v) ↔
      (Operand.text s).toNumber = .ok v ∧ ∀ n : SpecialSource, n.text ≠ s) ∧
    (∀ v, ofLexeme ⟨s, false⟩ = .ok (ofNumber v) → ∀ lookup stack sink,
      Echo.act lookup stack (ofNumber v) sink = .ok (.ofNumber v :: stack) sink ∧
        (Datum.ofNumber v).toNumber = (Operand.text s).toNumber) ∧
    ∀ t, ofLexeme ⟨s, false⟩ = .ok t → (∃ v, t = ofNumber v) ∨
      (∃ name, t = operator name ∨ t = function name ∨ t = loopVariable name) ∧
        ∀ v, (Operand.text s).toNumber = .ok v → ∃ n : SpecialSource, n.text = s := by
  have hword : ofLexeme ⟨s, false⟩ = ofWord s := rfl
  rw [hword]
  refine ⟨fun v => ⟨fun h => ?_, ?_⟩, ?_, ?_⟩
  · obtain ⟨⟨d, rfl⟩, hnumber⟩ := toNumber_of_ofWord h
    exact ⟨hnumber, fun n hn => text_ne_special d n (Text.ofString_inj.1 hn).symm⟩
  · rintro ⟨h, hspecial⟩
    exact ofWord_of_toNumber h hspecial
  · intro v h lookup stack sink
    rw [(toNumber_of_ofWord h).2]
    exact act_ofNumber v lookup stack sink
  · intro t h
    by_cases hnumber : ∃ v, t = ofNumber v
    · exact .inl hnumber
    refine .inr ⟨?_, fun v hv => ?_⟩
    · rcases ofWord_cases h with ⟨symbol, -, ht⟩ | ⟨name, -, ht⟩ | hnumeral
      · exact ⟨symbol, .inl ht⟩
      · exact ⟨name, .inr ht⟩
      · obtain ⟨_, -, ⟨n, -, ht⟩ | ⟨x, -, -, ht⟩⟩ := ofNumeral?_eq_some hnumeral
        · exact absurd ⟨.integer n, ht⟩ hnumber
        · exact absurd ⟨.double x, ht⟩ hnumber
    · by_contra hspecial
      have hconstant := ofWord_of_toNumber hv (not_exists.1 hspecial)
      exact hnumber ⟨v, Except.ok.inj (h.symm.trans hconstant)⟩

/-- A number as a word, and a name that as a text is infinite. -/
theorem ofLexeme_negative_zero_and_inf :
    (ofLexeme ⟨"-0", false⟩ = .ok (integer 0) ∧ (Operand.text "-0").toNumber = .ok (.integer 0)) ∧
    (ofLexeme ⟨"Inf", false⟩ = .ok (loopVariable "Inf") ∧
      (Operand.text "Inf").toNumber = .ok (.double (.infinity false)) ∧
      ∃ n : SpecialSource, n.text = "Inf") := by
  have hzero : ofLexeme ⟨"-0", false⟩ = .ok (integer 0) := by decide
  have hname : ofLexeme ⟨"Inf", false⟩ = .ok (loopVariable "Inf") := by decide
  have hinfinity : (Operand.text "Inf").toNumber = .ok (.double (.infinity false)) := by decide
  refine ⟨⟨hzero, (((ofLexeme_eq_ofNumber_iff "-0").1 (.integer 0)).1 hzero).1⟩, hname,
    hinfinity, ?_⟩
  rcases (ofLexeme_eq_ofNumber_iff "Inf").2.2 _ hname with ⟨v, hv⟩ | ⟨-, hspecial⟩
  · exact absurd hv.symm (ofNumber_ne_name v "Inf").2.2
  · exact (hspecial _ hinfinity).imp fun _ => Text.ofString_inj.1

end TagTemplate.Token
