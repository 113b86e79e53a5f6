/-
The grammar of number texts, as data. An integer, a decimal number and a special double each have a
sign, a text that forgets the structure, and a meaning. The readers of numbers read exactly these
texts: each reads what is written so (`_text`), and nothing else (`_eq_none`).
-/
import TagTemplate.Proofs.Number.ReadBack

namespace TagTemplate.Number

/-! ## Texts with their structure -/

/-- What may stand before a number. -/
inductive Sign where
  | absent
  | plus
  | minus

namespace Sign

def chars : Sign → List Char
  | absent => []
  | plus => ['+']
  | minus => ['-']

def negative : Sign → Bool
  | minus => true
  | _ => false

end Sign

/-- A run of digits that is not empty. -/
structure Digits where
  chars : List Char
  allowed : AllDigits chars
  nonempty : chars ≠ []

/-- An integer of any size. -/
structure IntegerSource where
  sign : Sign
  digits : Digits

namespace IntegerSource

def text (i : IntegerSource) : String := .ofList (i.sign.chars ++ i.digits.chars)

def value (i : IntegerSource) : Int := signed i.sign.negative (ofDigits i.digits.chars)

/-- The number of digits, leading zeros among them. -/
def length (i : IntegerSource) : Nat := i.digits.chars.length

end IntegerSource

/-- The digits of a decimal number, perhaps with a point. -/
inductive Mantissa where
  | whole (digits : Digits)
  /-- A point behind digits. More may follow it. -/
  | pointed (digits : Digits) (fraction : List Char) (allowed : AllDigits fraction)
  /-- A point before all digits. -/
  | fractional (digits : Digits)

namespace Mantissa

def chars : Mantissa → List Char
  | whole ds => ds.chars
  | pointed ds fraction _ => ds.chars ++ '.' :: fraction
  | fractional ds => '.' :: ds.chars

def decimal : Mantissa → Decimal
  | whole ds => ⟨ofDigits ds.chars, 0⟩
  | pointed ds fraction _ => ⟨ofDigits (ds.chars ++ fraction), -fraction.length⟩
  | fractional ds => ⟨ofDigits ds.chars, -ds.chars.length⟩

end Mantissa

structure Exponent where
  mark : Char
  sign : Sign
  digits : Digits
  isMark : mark = 'e' ∨ mark = 'E'

namespace Exponent

def chars (e : Exponent) : List Char := e.mark :: (e.sign.chars ++ e.digits.chars)

def value (e : Exponent) : Int := signed e.sign.negative (ofDigits e.digits.chars)

end Exponent

/-- A decimal number. -/
structure DecimalSource where
  sign : Sign
  mantissa : Mantissa
  exponent : Option Exponent

namespace DecimalSource

def unsigned (d : DecimalSource) : List Char :=
  d.mantissa.chars ++ d.exponent.elim [] Exponent.chars

def text (d : DecimalSource) : String := .ofList (d.sign.chars ++ d.unsigned)

def decimal (d : DecimalSource) : Decimal :=
  d.mantissa.decimal.shift (d.exponent.elim 0 Exponent.value)

/-- The double nearest to the number. -/
def value (d : DecimalSource) : Double := .ofDecimal d.sign.negative d.decimal

end DecimalSource

inductive SpecialName where
  | inf
  | infinity
  | nan
  deriving DecidableEq

namespace SpecialName

def letters : SpecialName → List Char
  | inf => ['i', 'n', 'f']
  | infinity => ['i', 'n', 'f', 'i', 'n', 'i', 't', 'y']
  | nan => ['n', 'a', 'n']

/-- The double that is named behind a sign. -/
def double (negative : Bool) : SpecialName → Double
  | nan => .nan
  | _ => .infinity negative

end SpecialName

/-- A small letter or its capital. -/
def IsCaseOf (letter c : Char) : Prop := c = letter ∨ c = letter.toUpper

/-- The two letters that only differ from `i` by its dot. -/
def IsDottedOther (c : Char) : Prop := c = 'İ' ∨ c = 'ı'

instance (c : Char) : Decidable (IsDottedOther c) := inferInstanceAs (Decidable (_ ∨ _))

/-- The letters of a name in any case, but for the dots of `i`. -/
def SpecialName.IsSpelled (name : SpecialName) (cs : List Char) : Prop :=
  List.Forall₂ (fun letter c => IsCaseOf letter c ∨ letter = 'i' ∧ IsDottedOther c) name.letters cs

/-- The name of a special double in any case. -/
structure SpecialSource where
  sign : Sign
  name : SpecialName
  letters : List Char
  spelled : List.Forall₂ IsCaseOf name.letters letters

namespace SpecialSource

def text (n : SpecialSource) : String := .ofList (n.sign.chars ++ n.letters)

def value (n : SpecialSource) : Double := n.name.double n.sign.negative

end SpecialSource

/-- What would be such a name if its letters had the dots of an `i`. -/
structure MisspelledSource where
  sign : Sign
  name : SpecialName
  letters : List Char
  spelled : name.IsSpelled letters
  misspelled : ∃ c ∈ letters, IsDottedOther c

def MisspelledSource.text (n : MisspelledSource) : String := .ofList (n.sign.chars ++ n.letters)

/-! ## Signs -/

theorem Sign.split {cs : List Char} (h : ∀ c ∈ cs.head?, c ≠ '+' ∧ c ≠ '-') (sign : Sign) :
    splitSign (sign.chars ++ cs) = (sign.negative, cs) := by
  cases sign with
  | absent => exact splitSign_minus h false
  | plus => rfl
  | minus => rfl

theorem exists_splitSign (cs : List Char) :
    ∃ (sign : Sign) (rest : List Char), cs = sign.chars ++ rest ∧
      splitSign cs = (sign.negative, rest) := by
  unfold splitSign
  split
  · next rest => exact ⟨.minus, rest, rfl, rfl⟩
  · next rest => exact ⟨.plus, rest, rfl, rfl⟩
  · exact ⟨.absent, cs, rfl, rfl⟩

/-- A text behind a sign, with what its two parts are. -/
theorem exists_signed (s : String) : ∃ (sign : Sign) (rest : List Char),
    s = .ofList (sign.chars ++ rest) ∧ splitSign s.toList = (sign.negative, rest) := by
  obtain ⟨sign, rest, hchars, hsplit⟩ := exists_splitSign s.toList
  exact ⟨sign, rest, by rw [← hchars, String.ofList_toList], hsplit⟩

theorem Digits.ne_sign (ds : Digits) : ∀ c ∈ ds.chars.head?, c ≠ '+' ∧ c ≠ '-' := fun c hc =>
  ne_sign_of_isDigit (ds.allowed c (List.mem_of_mem_head? hc))

theorem Digits.exists_cons (ds : Digits) : ∃ c cs, ds.chars = c :: cs ∧ c.isDigit = true := by
  obtain ⟨c, cs, hcs⟩ := List.exists_cons_of_ne_nil ds.nonempty
  exact ⟨c, cs, hcs, ds.allowed c (by simp [hcs])⟩

/-! ## Integers -/

theorem readInteger?_text (i : IntegerSource) :
    readInteger? i.text =
      if digitLimit < i.length then .error (.tooManyDigits i.length) else .ok (some i.value) := by
  have hall : i.digits.chars.all Char.isDigit = true := List.all_eq_true.2 i.digits.allowed
  have hempty : i.digits.chars.isEmpty = false := by simpa using i.digits.nonempty
  simp only [readInteger?, IntegerSource.text, String.toList_ofList,
    i.sign.split i.digits.ne_sign, hall,
    hempty, Bool.not_true, Bool.or_self, Bool.false_eq_true, if_false]
  rfl

theorem readInteger?_eq_none {s : String} (h : ∀ i : IntegerSource, i.text ≠ s) :
    readInteger? s = .ok none := by
  obtain ⟨sign, rest, hs, hsplit⟩ := exists_signed s
  simp only [readInteger?, hsplit]
  split
  · rfl
  next hdigits =>
  simp only [Bool.or_eq_true, Bool.not_eq_true', List.isEmpty_iff, not_or, Bool.not_eq_false,
    List.all_eq_true] at hdigits
  exact absurd hs.symm (h ⟨sign, rest, hdigits.2, hdigits.1⟩)

theorem readInt64?_text {i : IntegerSource} (h : i.length ≤ digitLimit) :
    readInt64? i.text =
      .ok (if fitsInt64 i.value then some (Int64.ofInt i.value) else none) := by
  rw [readInt64?, readInteger?_text, if_neg (Nat.not_lt.2 h)]
  by_cases hfits : fitsInt64 i.value = true <;> simp [Except.map, Option.filter, hfits]

theorem readInt64?_overlong {i : IntegerSource} (h : digitLimit < i.length) :
    readInt64? i.text = .error (.tooManyDigits i.length) := by
  rw [readInt64?, readInteger?_text, if_pos h]
  rfl

theorem readInt64?_eq_none {s : String} (h : ∀ i : IntegerSource, i.text ≠ s) :
    readInt64? s = .ok none := by
  rw [readInt64?, readInteger?_eq_none h]
  rfl

/-! ## Decimal numbers -/

theorem readExponent?_chars (e : Option Exponent) :
    readExponent? (e.elim [] Exponent.chars) = some (e.elim 0 Exponent.value) := by
  cases e with
  | none => rfl
  | some e =>
    have hall : e.digits.chars.all Char.isDigit = true := List.all_eq_true.2 e.digits.allowed
    simp only [Option.elim, Exponent.chars, readExponent?, e.sign.split e.digits.ne_sign, e.isMark,
      e.digits.nonempty, hall, ne_eq, not_false_eq_true, and_self, if_true, Exponent.value]

theorem readExponent?_sound {cs : List Char} {n : Int} (h : readExponent? cs = some n) :
    ∃ e : Option Exponent, cs = e.elim [] Exponent.chars ∧ n = e.elim 0 Exponent.value := by
  cases cs with
  | nil =>
    cases h
    exact ⟨none, rfl, rfl⟩
  | cons mark cs =>
    obtain ⟨sign, rest, rfl, hsplit⟩ := exists_splitSign cs
    simp only [readExponent?, hsplit] at h
    split at h <;> cases h
    next hexponent =>
    obtain ⟨hmark, hne, hall⟩ := hexponent
    exact ⟨some ⟨mark, sign, ⟨rest, List.all_eq_true.1 hall, hne⟩, hmark⟩, rfl, rfl⟩

/-- An exponent begins with its letter. -/
theorem not_digit_exponent (e : Option Exponent) :
    ∀ c ∈ (e.elim [] Exponent.chars).head?, c.isDigit = false ∧ c ≠ '.' := by
  cases e with
  | none => exact fun _ hc => nomatch hc
  | some e =>
    intro c hc
    obtain rfl : e.mark = c := Option.some.inj hc
    rcases e.isMark with h | h <;> rw [h] <;> decide

theorem readDecimal?_unsigned (d : DecimalSource) : readDecimal? d.unsigned = some d.decimal := by
  have hexponent := readExponent?_chars d.exponent
  have hnot := not_digit_exponent d.exponent
  rw [DecimalSource.unsigned, DecimalSource.decimal]
  generalize d.exponent.elim [] Exponent.chars = rest at *
  cases d.mantissa with
  | whole ds =>
    refine (readDecimal?_whole ds.allowed ds.nonempty hnot hexponent).trans ?_
    simp only [Mantissa.decimal, Decimal.shift, Int.zero_add]
  | pointed ds fraction allowed =>
    have hne : ¬(ds.chars = [] ∧ fraction = []) := fun h => ds.nonempty h.1
    rw [Mantissa.chars, List.append_assoc]
    refine (readDecimal?_point ds.allowed hne allowed
      (fun c hc => (hnot c hc).1) hexponent).trans ?_
    simp only [Mantissa.decimal, Decimal.shift, Int.sub_eq_add_neg, Int.add_comm]
  | fractional ds =>
    have hne : ¬([] = ([] : List Char) ∧ ds.chars = []) := fun h => ds.nonempty h.2
    refine (readDecimal?_point (List.forall_mem_nil _) hne ds.allowed (fun c hc => (hnot c hc).1)
      hexponent).trans ?_
    simp only [Mantissa.decimal, Decimal.shift, Int.sub_eq_add_neg, Int.add_comm, List.nil_append]

theorem allDigits_takeWhile (cs : List Char) : AllDigits (cs.takeWhile Char.isDigit) :=
  List.all_eq_true.1 List.all_takeWhile

/-- Digits with a point among or beside them, or without. -/
theorem exists_mantissa {whole : List Char} (hwhole : AllDigits whole) (rest : List Char)
    (hne : ¬(whole = [] ∧ (splitFraction rest).1 = [])) :
    ∃ m : Mantissa, whole ++ rest = m.chars ++ (splitFraction rest).2 ∧
      m.decimal =
        ⟨ofDigits (whole ++ (splitFraction rest).1), -((splitFraction rest).1.length : Int)⟩ := by
  unfold splitFraction at *
  split at hne
  · next cs =>
    have hfraction := allDigits_takeWhile cs
    have hcs := (List.takeWhile_append_dropWhile (p := Char.isDigit) (l := cs)).symm
    generalize cs.takeWhile Char.isDigit = fraction at *
    generalize cs.dropWhile Char.isDigit = behind at *
    subst hcs
    cases whole with
    | nil =>
      refine ⟨.fractional ⟨fraction, hfraction, fun h => hne ⟨rfl, h⟩⟩, rfl, rfl⟩
    | cons c whole =>
      refine ⟨.pointed ⟨c :: whole, hwhole, List.cons_ne_nil c whole⟩ fraction hfraction, ?_, rfl⟩
      simp [Mantissa.chars]
  · refine ⟨.whole ⟨whole, hwhole, fun h => hne ⟨h, rfl⟩⟩, rfl, ?_⟩
    simp [Mantissa.decimal]

theorem readDecimal?_sound {cs : List Char} {decimal : Decimal}
    (h : readDecimal? cs = some decimal) :
    ∀ sign : Sign, ∃ d : DecimalSource, d.sign = sign ∧ cs = d.unsigned := by
  intro sign
  simp only [readDecimal?] at h
  split at h
  · cases h
  next hne =>
  obtain ⟨n, hexponent, -⟩ := Option.map_eq_some_iff.1 h
  obtain ⟨e, he, -⟩ := readExponent?_sound hexponent
  obtain ⟨m, hm, -⟩ := exists_mantissa (allDigits_takeWhile cs) _ hne
  rw [List.takeWhile_append_dropWhile, he] at hm
  exact ⟨⟨sign, m, e⟩, rfl, hm⟩

theorem Mantissa.exists_cons (m : Mantissa) :
    ∃ c cs, m.chars = c :: cs ∧ (c.isDigit = true ∨ c = '.') := by
  cases m with
  | whole ds =>
    obtain ⟨c, cs, hcs, hc⟩ := ds.exists_cons
    exact ⟨c, cs, hcs, .inl hc⟩
  | pointed ds fraction =>
    obtain ⟨c, cs, hcs, hc⟩ := ds.exists_cons
    exact ⟨c, cs ++ '.' :: fraction, by rw [chars, hcs, List.cons_append], .inl hc⟩
  | fractional ds => exact ⟨'.', ds.chars, rfl, .inr rfl⟩

theorem Mantissa.exists_digit (m : Mantissa) : ∃ c ∈ m.chars, c.isDigit = true := by
  cases m with
  | whole ds | pointed ds | fractional ds =>
    obtain ⟨c, cs, hcs, hc⟩ := ds.exists_cons
    exact ⟨c, by simp [chars, hcs], hc⟩

theorem DecimalSource.exists_cons (d : DecimalSource) :
    ∃ c cs, d.unsigned = c :: cs ∧ (c.isDigit = true ∨ c = '.') := by
  obtain ⟨c, cs, hcs, hc⟩ := d.mantissa.exists_cons
  exact ⟨c, cs ++ d.exponent.elim [] Exponent.chars, by rw [unsigned, hcs, List.cons_append], hc⟩

theorem DecimalSource.ne_sign (d : DecimalSource) : ∀ c ∈ d.unsigned.head?, c ≠ '+' ∧ c ≠ '-' := by
  obtain ⟨c, cs, hcs, hc⟩ := d.exists_cons
  rw [hcs]
  rintro _ ⟨⟩
  rcases hc with hc | rfl
  · exact ne_sign_of_isDigit hc
  · decide

theorem readFinite?_text (d : DecimalSource) : readFinite? d.text = some d.value := by
  simp only [readFinite?, DecimalSource.text, String.toList_ofList, d.sign.split d.ne_sign,
    readDecimal?_unsigned, Option.map_some, DecimalSource.value]

theorem readFinite?_eq_none {s : String} (h : ∀ d : DecimalSource, d.text ≠ s) :
    readFinite? s = none := by
  obtain ⟨sign, rest, hs, hsplit⟩ := exists_signed s
  simp only [readFinite?, hsplit, Option.map_eq_none_iff]
  cases hread : readDecimal? rest with
  | none => rfl
  | some decimal =>
    obtain ⟨d, rfl, rfl⟩ := readDecimal?_sound hread sign
    exact absurd hs.symm (h d)

/-- Every integer is a decimal number. -/
def IntegerSource.decimal (i : IntegerSource) : DecimalSource := ⟨i.sign, .whole i.digits, none⟩

@[simp] theorem IntegerSource.text_decimal (i : IntegerSource) : i.decimal.text = i.text := by
  rw [DecimalSource.text, DecimalSource.unsigned]
  exact congrArg String.ofList (congrArg (i.sign.chars ++ ·) (List.append_nil i.digits.chars))

/-! ## Special doubles -/

theorem isLetter_iff (letter c : Char) :
    isLetter letter c = true ↔ IsCaseOf letter c ∨ letter = 'i' ∧ IsDottedOther c := by
  simp only [isLetter, IsCaseOf, IsDottedOther, Bool.or_eq_true, Bool.and_eq_true, beq_iff_eq]

theorem spells_iff (word cs : List Char) :
    spells word cs = true ↔
      List.Forall₂ (fun letter c => IsCaseOf letter c ∨ letter = 'i' ∧ IsDottedOther c)
        word cs := by
  induction word generalizing cs with
  | nil => cases cs <;> simp [spells]
  | cons letter word ih => cases cs <;> simp [spells, ih, isLetter_iff]

namespace SpecialName

variable {name : SpecialName} {cs : List Char}

theorem forall_mem_letters {P : Char → Prop} (name : SpecialName)
    (h : P 'i' ∧ P 'n' ∧ P 'f' ∧ P 't' ∧ P 'y' ∧ P 'a') : ∀ letter ∈ name.letters, P letter := by
  cases name <;> simp [letters, h]

theorem spells_letters : spells name.letters cs = true ↔ name.IsSpelled cs := spells_iff ..

/-- What holds of the letters of a name in both cases, and of the two others, holds of all letters
that it is spelled with. -/
theorem IsSpelled.forall {P : Char → Prop} (h : name.IsSpelled cs)
    (hname : ∀ letter ∈ name.letters, P letter ∧ P letter.toUpper) (hother : P 'İ' ∧ P 'ı') :
    ∀ c ∈ cs, P c := by
  unfold IsSpelled at h
  generalize name.letters = word at *
  induction h with
  | nil => exact List.forall_mem_nil _
  | @cons letter c _ _ hc _ ih =>
    obtain ⟨hletter, hword⟩ := List.forall_mem_cons.1 hname
    refine List.forall_mem_cons.2 ⟨?_, ih hword⟩
    rcases hc with (rfl | rfl) | ⟨-, rfl | rfl⟩
    · exact hletter.1
    · exact hletter.2
    · exact hother.1
    · exact hother.2

/-- A name is spelled with its own letters if with none of the two others. -/
theorem forall₂_isCaseOf_iff : List.Forall₂ IsCaseOf name.letters cs ↔
    name.IsSpelled cs ∧ ∀ c ∈ cs, ¬IsDottedOther c := by
  have hname : ∀ letter ∈ name.letters, ¬IsDottedOther letter ∧ ¬IsDottedOther letter.toUpper :=
    name.forall_mem_letters (by decide)
  unfold IsSpelled
  generalize name.letters = word at *
  induction word generalizing cs with
  | nil => cases cs <;> simp
  | cons letter word ih =>
    obtain ⟨hletter, hword⟩ := List.forall_mem_cons.1 hname
    cases cs with
    | nil => simp
    | cons c cs =>
      have hc : IsCaseOf letter c → ¬IsDottedOther c := by
        rintro (rfl | rfl)
        · exact hletter.1
        · exact hletter.2
      simp only [List.forall₂_cons, ih hword, List.forall_mem_cons]
      tauto

/-- No number is spelled with these letters. -/
theorem IsSpelled.not_numeric (h : name.IsSpelled cs) :
    ∀ c ∈ cs, c.isDigit = false ∧ c ∉ ['.', '+', '-'] :=
  h.forall (name.forall_mem_letters (by decide)) (by decide)

theorem IsSpelled.any_foreign (h : name.IsSpelled cs) :
    cs.any (128 ≤ ·.toNat) = true ↔ ∃ c ∈ cs, IsDottedOther c := by
  have hall : ∀ c ∈ cs, c.toNat < 128 ∨ IsDottedOther c :=
    h.forall (name.forall_mem_letters (by decide)) (by decide)
  rw [List.any_eq_true]
  refine exists_congr fun c => and_congr_right fun hc => ?_
  constructor
  · intro hforeign
    exact (hall c hc).resolve_left (Nat.not_lt.2 (of_decide_eq_true hforeign))
  · rintro (rfl | rfl) <;> rfl

theorem IsSpelled.ne_sign (h : name.IsSpelled cs) : ∀ c ∈ cs.head?, c ≠ '+' ∧ c ≠ '-' := by
  intro c hc
  have hnot := (h.not_numeric c (List.mem_of_mem_head? hc)).2
  simp only [List.mem_cons, List.not_mem_nil, or_false, not_or] at hnot
  exact hnot.2

/-- No text spells both a name of an infinity and that of NaN. -/
theorem IsSpelled.not_nan (h : name.IsSpelled cs) (hname : name ≠ nan) : ¬nan.IsSpelled cs := by
  have hi : ∀ {letter c : Char}, letter = 'i' → IsCaseOf letter c ∨ letter = 'i' ∧ IsDottedOther c →
      c ∈ ['i', 'I', 'İ', 'ı'] := by
    rintro _ c rfl ((rfl | rfl) | ⟨-, rfl | rfl⟩) <;> decide
  have hn : ∀ {c : Char}, IsCaseOf 'n' c ∨ 'n' = 'i' ∧ IsDottedOther c → c ∈ ['n', 'N'] := by
    rintro c ((rfl | rfl) | ⟨h, -⟩)
    · decide
    · decide
    · exact absurd h (by decide)
  intro hnan
  cases hnan with
  | cons hc _ =>
    have hc := hn hc
    cases name with
    | nan => exact hname rfl
    | inf | infinity =>
      cases h with
      | cons hc' _ =>
        have hc' := hi rfl hc'
        simp only [List.mem_cons, List.not_mem_nil, or_false] at hc hc'
        rcases hc with rfl | rfl <;> revert hc' <;> decide

end SpecialName

/-- Whether a text is the name of an infinity, or at least that of some special double. -/
theorem readSpecial?_eq {s : String} {negative : Bool} {cs : List Char}
    (hsplit : splitSign s.toList = (negative, cs)) :
    readSpecial? s =
      if !(spells SpecialName.inf.letters cs || spells SpecialName.infinity.letters cs) &&
          !spells SpecialName.nan.letters cs then .ok none
      else if cs.any (128 ≤ ·.toNat) then .error (.specialNumber s)
      else .ok (some (
        if spells SpecialName.inf.letters cs || spells SpecialName.infinity.letters cs then
        .infinity negative else .nan)) := by
  rw [readSpecial?, hsplit]
  rfl

theorem readSpecial?_of_isSpelled {s : String} {negative : Bool} {name : SpecialName}
    {cs : List Char}
    (hsplit : splitSign s.toList = (negative, cs)) (h : name.IsSpelled cs) :
    readSpecial? s = if cs.any (128 ≤ ·.toNat) then .error (.specialNumber s)
      else .ok (some (name.double negative)) := by
  have hspells := SpecialName.spells_letters.2 h
  rw [readSpecial?_eq hsplit]
  cases name with
  | inf =>
    rw [hspells, Bool.true_or]
    rfl
  | infinity =>
    rw [hspells, Bool.or_true]
    rfl
  | nan =>
    have hnot : ∀ other : SpecialName, other ≠ .nan → spells other.letters cs = false :=
        fun other hne =>
      Bool.eq_false_iff.2 fun hother => (SpecialName.spells_letters.1 hother).not_nan hne h
    rw [hspells, hnot .inf (by decide), hnot .infinity (by decide)]
    rfl

theorem readSpecial?_eq_none {s : String} {negative : Bool} {cs : List Char}
    (hsplit : splitSign s.toList = (negative, cs)) (h : ∀ name : SpecialName, ¬name.IsSpelled cs) :
    readSpecial? s = .ok none := by
  have hnot : ∀ name : SpecialName, spells name.letters cs = false := fun name =>
    Bool.eq_false_iff.2 fun hspells => h name (SpecialName.spells_letters.1 hspells)
  rw [readSpecial?_eq hsplit, hnot, hnot, hnot]
  rfl

theorem SpecialSource.split (n : SpecialSource) :
    splitSign n.text.toList = (n.sign.negative, n.letters) := by
  rw [text, String.toList_ofList,
    n.sign.split (SpecialName.forall₂_isCaseOf_iff.1 n.spelled).1.ne_sign]

theorem MisspelledSource.split (n : MisspelledSource) :
    splitSign n.text.toList = (n.sign.negative, n.letters) := by
  rw [text, String.toList_ofList, n.sign.split n.spelled.ne_sign]

end TagTemplate.Number
