/-
The tokens that can be read from a text, and that their canonical texts read back as them.

Every such token is written as one lexeme of a tag (`Token.exists_word`), and no lexeme
reads as any other token (`Token.isCanonical_of_ofLexeme`).
-/
import TagTemplate.Item.Classify
import TagTemplate.Proofs.Number.ReadBack
import TagTemplate.Proofs.Steps
import TagTemplate.Proofs.Syntax.Source
import TagTemplate.Proofs.Text.Quoting

namespace TagTemplate.Token

open Number

/-- A token that some text is read as: a known operator, a name that is an identifier, a
number that has a text, or a string of characters that need no escape but those of line
breaks and tabs. -/
def IsCanonical : Token → Prop
  | operator symbol => symbol ∈ (["+", "-", "*", "/"] : List Text)
  | function name | loopVariable name => isIdentifier name = true
  | integer n => -0x8000000000000000 ≤ n ∧ n < 0x8000000000000000
  | double x => x.isNaN = false
  | text s => ∀ c ∈ s.toList, c ≠ '"' ∧ c ≠ '\\'

/-! ## Words that are no operators -/

theorem ofSymbol?_isSome_iff (s : Text) :
    (Operation.ofSymbol? s).isSome = true ↔ s ∈ (["+", "-", "*", "/"] : List Text) := by
  rw [Operation.ofSymbol?, List.find?_isSome]
  constructor
  · rintro ⟨op, -, hop⟩
    rw [← beq_iff_eq.1 hop]
    cases op <;> decide
  · intro hs
    simp only [List.mem_cons, List.not_mem_nil, or_false] at hs
    rcases hs with rfl | rfl | rfl | rfl
    · exact ⟨.add, by decide, rfl⟩
    · exact ⟨.sub, by decide, rfl⟩
    · exact ⟨.mul, by decide, rfl⟩
    · exact ⟨.div, by decide, rfl⟩

/-- A word with a letter or a digit is no operator. -/
theorem ofSymbol?_eq_none {cs : List CodePoint} {c : CodePoint} (h : c ∈ cs)
    (hc : c.isAlphanum = true) :
    ¬(Operation.ofSymbol? (.ofList cs)).isSome = true := by
  rw [ofSymbol?_isSome_iff]
  intro hs
  simp only [List.mem_cons, List.not_mem_nil, or_false, ← Text.toList_inj] at hs
  rcases hs with rfl | rfl | rfl | rfl <;> rw [List.mem_singleton.1 h] at hc <;> cases hc

theorem isAlphanum_of_isAlpha {c : CodePoint} (h : c.isAlpha = true) : c.isAlphanum = true := by
  cases c with
  | scalar c => exact Bool.or_eq_true_iff.2 (.inl h)
  | surrogate offset => cases h

theorem isAlphanum_of_isDigit {c : CodePoint} (h : c.isDigit = true) : c.isAlphanum = true := by
  cases c with
  | scalar c => exact Bool.or_eq_true_iff.2 (.inr h)
  | surrogate offset => cases h

theorem isAlpha_of_isDigit {c : Char} (h : c.isDigit = true) : c.isAlpha = false := by
  have hnine : c.toNat ≤ 57 := (Char.isDigit_iff_toNat.1 h).2
  rw [Bool.eq_false_iff]
  intro halpha
  have hcases : (c.isUpper || c.isLower) = true := halpha
  rcases Bool.or_eq_true_iff.1 hcases with hupper | hlower
  · have hlow : 65 ≤ c.toNat := (of_decide_eq_true hupper).1
    omega
  · have hlow : 97 ≤ c.toNat := of_decide_eq_true (Bool.and_eq_true_iff.1 hlower).1
    omega

/-- A character that may stand anywhere in a bare lexeme. -/
def IsBareChar (c : CodePoint) : Prop := isBlank c = false ∧ c ≠ '$'

instance (c : CodePoint) : Decidable (IsBareChar c) := inferInstanceAs (Decidable (_ ∧ _))

theorem isBareChar_of_isAlphanum {c : CodePoint} (h : c.isAlphanum = true) :
    IsBareChar c ∧ c ≠ '"' := by
  have hne : ∀ d : CodePoint, d.isAlphanum = false → c ≠ d := by
    rintro d hd rfl
    rw [h] at hd
    cases hd
  refine ⟨⟨?_, hne '$' rfl⟩, hne '"' rfl⟩
  simp only [isBlank, Bool.or_eq_false_iff, beq_eq_false_iff_ne]
  exact ⟨⟨⟨⟨⟨hne _ rfl, hne _ rfl⟩, hne _ rfl⟩, hne _ rfl⟩, hne _ rfl⟩, hne _ rfl⟩

/-! ## Names -/

theorem exists_letter_of_isIdentifier {s : Text} (h : isIdentifier s = true) :
    ∃ c cs, s.toList = c :: cs ∧ c.isAlpha = true ∧ ∀ d ∈ c :: cs, IsBareChar d := by
  unfold isIdentifier at h
  split at h
  · cases h
  · next c cs hs =>
    obtain ⟨hc, hcs⟩ := Bool.and_eq_true_iff.1 h
    refine ⟨c, cs, hs, hc, fun d hd => ?_⟩
    rcases List.mem_cons.1 hd with rfl | hd
    · exact (isBareChar_of_isAlphanum (isAlphanum_of_isAlpha hc)).1
    · have hrest := List.all_eq_true.1 hcs d hd
      simp only [isIdentifierRest, Bool.or_eq_true, beq_iff_eq] at hrest
      rcases hrest with hrest | rfl
      · exact (isBareChar_of_isAlphanum hrest).1
      · decide

theorem ofWord_variable {name : Text} (h : isIdentifier name = true) :
    ofWord name = .ok (loopVariable name) := by
  obtain ⟨c, cs, hs, hc, -⟩ := exists_letter_of_isIdentifier h
  have hop : ¬(Operation.ofSymbol? name).isSome = true := by
    rw [← Text.ofList_toList (s := name), hs]
    exact ofSymbol?_eq_none (List.mem_cons_self ..) (isAlphanum_of_isAlpha hc)
  rw [ofWord, if_neg hop]
  split
  · next heq =>
    rw [hs] at heq
    rw [(List.cons.inj heq).1] at hc
    cases hc
  · rw [if_pos h]

theorem ofWord_function {name : Text} (h : isIdentifier name = true) :
    ofWord ("@" ++ name) = .ok (function name) := by
  obtain ⟨c, cs, hs, hc, -⟩ := exists_letter_of_isIdentifier h
  have hlist : ("@" ++ name).toList = ↑ '@' :: name.toList := by rw [Text.toList_append]; rfl
  have hop : ¬(Operation.ofSymbol? ("@" ++ name)).isSome = true := by
    rw [← Text.ofList_toList (s := "@" ++ name), hlist, hs]
    exact ofSymbol?_eq_none (by simp) (isAlphanum_of_isAlpha hc)
  simp only [ofWord, hop, hlist, Text.ofList_toList, h, Bool.false_eq_true, if_false, if_true]

/-! ## Numbers -/

theorem ofNumeral?_ofString (s : String) :
    ofNumeral? s = (do
      match ← readInt64? s with
      | some n => return some (integer n.toInt)
      | none => return (readFinite? s).map double) := by
  unfold ofNumeral?
  split
  next h => exact nomatch (Text.string?_ofString s).symm.trans h
  next characters h =>
    obtain rfl : s = characters := Option.some.inj ((Text.string?_ofString s).symm.trans h)
    rfl

/-- A word with a digit that does not begin as a name is a number, if it is anything. -/
theorem ofWord_of_digit {s : String} {d : Char} (hd : d ∈ s.toList) (hdigit : d.isDigit = true)
    (hfirst : ∀ c ∈ s.toList.head?, c ≠ '@' ∧ c.isAlpha = false) :
    ofWord s = (do
      match ← readInt64? s with
      | some n => return integer n.toInt
      | none =>
        match readFinite? s with
        | some x => return double x
        | none => throw (.malformed (.unknownWord s))) := by
  have hmem : ↑d ∈ (s : Text).toList := List.mem_map_of_mem hd
  have hop := ofSymbol?_eq_none hmem (isAlphanum_of_isDigit hdigit)
  rw [Text.ofList_toList] at hop
  have hid : isIdentifier s = false := by
    unfold isIdentifier
    split
    · rfl
    · next c cs hs =>
      obtain ⟨c', cs', hs', rfl, -⟩ := List.map_eq_cons_iff.1 hs
      have halpha : CodePoint.isAlpha c' = false := (hfirst c' (by simp [hs'])).2
      rw [halpha, Bool.false_and]
  rw [ofWord, if_neg hop]
  split
  · next heq =>
    obtain ⟨c', cs', hs', hc', -⟩ := List.map_eq_cons_iff.1 heq
    cases hc'
    exact absurd rfl (hfirst '@' (by simp [hs'])).1
  · rw [if_neg (by rw [hid]; exact Bool.false_ne_true), ofNumeral?_ofString]
    cases readInt64? s with
    | error fault => rfl
    | ok n? =>
      cases n? with
      | some n => rfl
      | none => cases readFinite? s <;> rfl

/-- Only characters are a numeral. -/
theorem ofNumeral?_eq_some {s : Text} {t : Token} (h : ofNumeral? s = .ok (some t)) :
    ∃ characters : String, s = characters ∧
      ((∃ n, readInt64? characters = .ok (some n) ∧ t = integer n.toInt) ∨
        ∃ x, readInt64? characters = .ok none ∧ readFinite? characters = some x ∧
          t = double x) := by
  cases hcharacters : s.string? with
  | none =>
    rw [ofNumeral?, hcharacters] at h
    cases h
  | some characters =>
    obtain rfl := Text.string?_eq_some_iff.1 hcharacters
    refine ⟨characters, rfl, ?_⟩
    rw [ofNumeral?_ofString] at h
    cases hint : readInt64? characters with
    | error fault =>
      rw [hint] at h
      cases h
    | ok n? =>
      rw [hint] at h
      cases n? with
      | some n =>
        cases h
        exact .inl ⟨n, rfl, rfl⟩
      | none =>
        obtain ⟨x, hx, rfl⟩ := Option.map_eq_some_iff.1 (Except.ok.inj h)
        exact .inr ⟨x, rfl, hx, rfl⟩

/-- What a word can be read as. -/
theorem ofWord_cases {s : Text} {t : Token} (h : ofWord s = .ok t) :
    (∃ symbol, (Operation.ofSymbol? symbol).isSome = true ∧ t = operator symbol) ∨
    (∃ name, isIdentifier name = true ∧ (t = function name ∨ t = loopVariable name)) ∨
    ofNumeral? s = .ok (some t) := by
  rw [ofWord] at h
  split at h
  · next hop =>
    cases h
    exact .inl ⟨s, hop, rfl⟩
  split at h
  · simp only at h
    split at h <;> cases h
    next hid => exact .inr (.inl ⟨_, hid, .inl rfl⟩)
  split at h
  · next hid =>
    cases h
    exact .inr (.inl ⟨s, hid, .inr rfl⟩)
  obtain ⟨t?, ht?, h⟩ := except_bind_eq_ok.1 h
  cases t? with
  | none => cases h
  | some t' =>
    cases h
    exact .inr (.inr ht?)

section Numbers

variable {cs : List Char} (h : IsMagnitude cs) (negative : Bool)
include h

theorem exists_first : ∃ c rest, minus negative ++ cs = c :: rest ∧ c ≠ '@' ∧ c ≠ '"' ∧
    c.isAlpha = false := by
  obtain ⟨c, rest, rfl, hc⟩ := h.first
  cases negative with
  | true => exact ⟨'-', c :: rest, rfl, by decide, by decide, rfl⟩
  | false =>
    refine ⟨c, rest, rfl, ?_, ?_, isAlpha_of_isDigit hc⟩ <;> rintro rfl <;> cases hc

theorem isBareChar_of_isMagnitude : ∀ c ∈ minus negative ++ cs, IsBareChar c := by
  intro c hc
  rcases List.mem_append.1 hc with hc | hc
  · cases negative <;> simp only [minus, if_true, Bool.false_eq_true, if_false, List.mem_singleton,
      List.not_mem_nil] at hc
    subst hc
    decide
  · rcases h.allowed c hc with hdigit | hother
    · exact (isBareChar_of_isAlphanum (isAlphanum_of_isDigit (c := c) hdigit)).1
    · simp only [List.mem_cons, List.not_mem_nil, or_false] at hother
      rcases hother with rfl | rfl | rfl | rfl <;> decide

/-- A word with the look of a number is nothing else. -/
theorem ofWord_number {t : Token}
    (ht : readInt64? (.ofList (minus negative ++ cs)) = .ok none ∧
        (∃ x, readFinite? (.ofList (minus negative ++ cs)) = some x ∧ t = double x) ∨
      ∃ n, readInt64? (.ofList (minus negative ++ cs)) = .ok (some n) ∧ t = integer n.toInt) :
    ofWord (String.ofList (minus negative ++ cs)) = .ok t := by
  obtain ⟨d, hd, hdigit⟩ : ∃ d ∈ minus negative ++ cs, d.isDigit = true := by
    obtain ⟨d, rest, rfl, hd⟩ := h.first
    exact ⟨d, by simp, hd⟩
  obtain ⟨c, rest, hfirst, hat, -, halpha⟩ := exists_first h negative
  rw [ofWord_of_digit (by rwa [String.toList_ofList]) hdigit (by simp [hfirst, hat, halpha])]
  rcases ht with ⟨hint, x, hx, rfl⟩ | ⟨n, hint, rfl⟩
  · rw [hint]
    simp only [bind, Except.bind, hx]
    rfl
  · rw [hint]
    rfl

end Numbers

/-! ## Strings -/

/-- Characters that need no other escape are written as they are read. -/
theorem exists_glyphs {cs : List CodePoint} (h : ∀ c ∈ cs, c ≠ '"' ∧ c ≠ '\\') :
    ∃ gs : Glyphs '"', gs.chars = cs.flatMap escapeChar ∧ gs.content = cs := by
  induction cs with
  | nil => exact ⟨[], rfl, rfl⟩
  | cons c cs ih =>
    obtain ⟨gs, hchars, hcontent⟩ := ih fun d hd => h d (by simp [hd])
    obtain ⟨g, hg, hg'⟩ : ∃ g : Glyph '"', g.chars = escapeChar c ∧ g.content = [c] := by
      unfold escapeChar
      split
      · next hr => exact ⟨.escape 'r', rfl, by rw [hr]; rfl⟩
      split
      · next hn => exact ⟨.escape 'n', rfl, by rw [hn]; rfl⟩
      split
      · next ht => exact ⟨.escape 't', rfl, by rw [ht]; rfl⟩
      · exact ⟨.plain c (h c (by simp)), rfl, rfl⟩
    refine ⟨g :: gs, ?_, ?_⟩
    · rw [Glyphs.chars, List.flatMap_cons, hg, List.flatMap_cons]
      exact congrArg (escapeChar c ++ ·) hchars
    · rw [Glyphs.content, List.flatMap_cons, hg']
      exact congrArg (c :: ·) hcontent

/-! ## Round trip -/

theorem fitsInt64_iff (n : Int) : fitsInt64 n = true ↔ (integer n).IsCanonical :=
  fitsInt64_eq_true_iff n

theorem toInt_ofInt {n : Int} (h : (integer n).IsCanonical) : (Int64.ofInt n).toInt = n :=
  Int64.toInt_ofInt_of_le h.1 h.2

/-- Some characters are a lexeme that reads as the token. -/
def IsReadFrom (t : Token) (cs : List CodePoint) : Prop :=
  ∃ w : Word, w.chars = cs ∧ ofLexeme w.lexeme = .ok t

theorem isReadFrom_bare {t : Token} {cs : List CodePoint} (hne : cs ≠ [])
    (hall : ∀ c ∈ cs, IsBareChar c)
    (hquote : cs.head? ≠ some ↑ '"') (ht : ofWord (.ofList cs) = .ok t) : t.IsReadFrom cs :=
  ⟨.bare cs hne hall hquote, rfl, ht⟩

theorem isReadFrom_operator {symbol : Text} (h : (operator symbol).IsCanonical) :
    (operator symbol).IsReadFrom symbol.toList := by
  have hop : ofWord symbol = .ok (operator symbol) := by
    rw [ofWord, if_pos ((ofSymbol?_isSome_iff symbol).2 h)]
  obtain ⟨c, rfl, hc, hquote⟩ : ∃ c, symbol = .ofList [c] ∧ IsBareChar c ∧ c ≠ '"' := by
    simp only [IsCanonical, List.mem_cons, List.not_mem_nil, or_false] at h
    rcases h with rfl | rfl | rfl | rfl <;> exact ⟨_, rfl, by decide, by decide⟩
  rw [Text.toList_ofList]
  refine isReadFrom_bare (List.cons_ne_nil c []) (fun d hd => ?_) (by simpa using hquote) hop
  rw [List.mem_singleton.1 hd]
  exact hc

theorem isReadFrom_variable {name : Text} (h : isIdentifier name = true) :
    (loopVariable name).IsReadFrom name.toList := by
  obtain ⟨c, cs, hs, hc, hall⟩ := exists_letter_of_isIdentifier h
  refine isReadFrom_bare (by simp [hs]) (fun d hd => hall d (hs ▸ hd)) ?_ ?_
  · have hquote := (isBareChar_of_isAlphanum (isAlphanum_of_isAlpha hc)).2
    rw [hs]
    simpa using hquote
  · rw [Text.ofList_toList]
    exact ofWord_variable h

theorem isReadFrom_function {name : Text} (h : isIdentifier name = true) :
    (function name).IsReadFrom ("@" ++ name).toList := by
  obtain ⟨c, cs, hs, -, hall⟩ := exists_letter_of_isIdentifier h
  have hlist : ("@" ++ name).toList = ↑ '@' :: name.toList := by
    rw [Text.toList_append]
    rfl
  have hword := ofWord_function h
  rw [← Text.ofList_toList (s := "@" ++ name), hlist] at hword
  rw [hlist]
  refine isReadFrom_bare (List.cons_ne_nil _ _) (fun d hd => ?_) (by simp) hword
  rcases List.mem_cons.1 hd with rfl | hd
  · decide
  · exact hall d (hs ▸ hd)

theorem isReadFrom_number {t : Token} {cs : List Char} (hcs : IsMagnitude cs) (negative : Bool)
    (ht : ofWord (String.ofList (minus negative ++ cs)) = .ok t) :
    t.IsReadFrom (String.ofList (minus negative ++ cs) : Text).toList := by
  obtain ⟨c, rest, hfirst, -, hquote, -⟩ := exists_first hcs negative
  have hallowed := isBareChar_of_isMagnitude hcs negative
  rw [hfirst] at ht hallowed ⊢
  refine isReadFrom_bare (by simp) (fun d hd => ?_) (by simpa using hquote) ht
  rw [Text.toList_ofString, String.toList_ofList] at hd
  obtain ⟨c, hc, rfl⟩ := List.mem_map.1 hd
  exact hallowed c hc

theorem isReadFrom_integer {n : Int} (h : (integer n).IsCanonical) :
    (integer n).IsReadFrom (integerText n : Text).toList := by
  have hread := readInt64?_integerText ((fitsInt64_iff n).2 h)
  rw [integerText_eq] at hread
  rw [integerText_eq]
  have hdigits := isMagnitude_toDigits n.natAbs
  refine isReadFrom_number hdigits _ (ofWord_number hdigits _ ?_)
  exact .inr ⟨_, hread, by rw [toInt_ofInt h]⟩

theorem isReadFrom_double (negative : Bool) {rank : Nat} (h : rank ≤ Double.infinityRank) :
    (double (.ranked negative rank h)).IsReadFrom
      (doubleText (.ranked negative rank h) : Text).toList := by
  obtain ⟨cs, hcs, htext⟩ := exists_doubleText negative h
  rw [htext]
  refine isReadFrom_number hcs.magnitude negative (ofWord_number hcs.magnitude negative ?_)
  exact .inl ⟨readInt64?_of_readsAs hcs negative, _, readFinite?_of_readsAs hcs negative h, rfl⟩

theorem isReadFrom_text {s : Text} (h : (text s).IsCanonical) :
    (text s).IsReadFrom ("\"" ++ escape s ++ "\"").toList := by
  obtain ⟨gs, hchars, hcontent⟩ := exists_glyphs h
  refine ⟨.quoted gs, ?_, ?_⟩
  · rw [Word.chars, hchars, Text.toList_append, Text.toList_append, escape,
      Text.toList_ofList,
      Text.toList_ofList]
    rfl
  · rw [Word.lexeme, hcontent, Text.ofList_toList]
    rfl

/-- **The canonical text of a token is a lexeme that reads as it.** -/
theorem exists_word {t : Token} (h : t.IsCanonical) :
    ∃ w : Word, w.chars = t.canonical.toList ∧ ofLexeme w.lexeme = .ok t := by
  cases t with
  | operator symbol => exact isReadFrom_operator h
  | function name => exact isReadFrom_function h
  | loopVariable name => exact isReadFrom_variable h
  | integer n => exact isReadFrom_integer h
  | double x =>
    cases x with
    | nan => cases h
    | ranked negative rank bounded => exact isReadFrom_double negative bounded
  | text s => exact isReadFrom_text h

theorem canonical_ne_nil {t : Token} (h : t.IsCanonical) : t.canonical.toList ≠ [] := by
  obtain ⟨w, hw, -⟩ := exists_word h
  rw [← hw]
  exact w.chars_ne_nil

/-- In a tag line breaks are escaped. -/
theorem isLine_canonical {t : Token} (h : t.IsCanonical) : Text.IsLine t.canonical := by
  obtain ⟨w, hw, ht⟩ := exists_word h
  intro c hc
  cases w with
  | bare cs _ allowed _ =>
    rw [← hw] at hc
    have hblank := (allowed c hc).1
    constructor <;> rintro rfl <;> exact absurd hblank (by decide)
  | quoted gs =>
    cases ht
    have hescape : ∀ d, ∀ e ∈ escapeChar d, e ≠ '\n' ∧ e ≠ '\r' := by
      intro d
      unfold escapeChar
      grind
    simp only [canonical, escape, Text.toList_append, List.mem_append, List.mem_flatMap] at hc
    rcases hc with (hc | ⟨d, -, hc⟩) | hc
    · rw [List.mem_singleton.1 hc]
      decide
    · exact hescape d c hc
    · rw [List.mem_singleton.1 hc]
      decide

/-! ## Image -/

theorem isCanonical_of_ofWord {s : Text} {t : Token} (h : ofWord s = .ok t) :
    t.IsCanonical := by
  rcases ofWord_cases h with ⟨symbol, hop, rfl⟩ | ⟨name, hid, rfl | rfl⟩ | hnumeral
  · exact (ofSymbol?_isSome_iff symbol).1 hop
  · exact hid
  · exact hid
  · obtain ⟨_, -, ⟨n, -, rfl⟩ | ⟨x, -, hx, rfl⟩⟩ := ofNumeral?_eq_some hnumeral
    · exact ⟨n.le_toInt, n.toInt_lt⟩
    · obtain ⟨d, -, rfl⟩ := Option.map_eq_some_iff.1 hx
      rfl

/-- **What is read from a lexeme is canonical.** -/
theorem isCanonical_of_ofLexeme (w : Word) {t : Token} (h : ofLexeme w.lexeme = .ok t) :
    t.IsCanonical := by
  cases w with
  | bare => exact isCanonical_of_ofWord h
  | quoted gs =>
    cases h
    intro c hc
    rw [Word.lexeme, Text.toList_ofList] at hc
    rcases gs.mem_content hc with hc | hc
    · exact hc
    · simp only [List.mem_cons, List.not_mem_nil, or_false] at hc
      rcases hc with rfl | rfl | rfl <;> decide

end TagTemplate.Token
