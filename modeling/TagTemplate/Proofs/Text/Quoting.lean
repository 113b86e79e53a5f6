/-
A quoted text stays on one line and tells what it quotes: its first character is the quote in use,
and behind it one character of the text after another can be read off the front.
-/
import Mathlib.Algebra.Group.Nat.Defs
import TagTemplate.Text.Quoted

namespace TagTemplate

namespace Text

/-! ## Lines -/

/-- A text without line breaks. -/
def IsLine (s : Text) : Prop := ∀ c ∈ s.toList, c ≠ '\n' ∧ c ≠ '\r'

instance (s : Text) : Decidable (IsLine s) :=
  List.decidableBAll (fun c : CodePoint => c ≠ '\n' ∧ c ≠ '\r') s.toList

theorem IsLine.append {s t : Text} (hs : IsLine s) (ht : IsLine t) : IsLine (s ++ t) := by
  intro c hc
  rw [Text.toList_append, List.mem_append] at hc
  exact hc.elim (hs c) (ht c)

/-! ## Hexadecimal digits -/

def hexValue (c : CodePoint) : Nat := if c.isDigit then c.toNat - 48 else c.toNat - 87

def ofHexDigits (cs : List CodePoint) : Nat := cs.foldl (fun n c => 16 * n + hexValue c) 0

theorem hexValue_digitChar : ∀ n < 16, hexValue (Nat.digitChar n) = n := by decide

theorem digitChar_not_break :
    ∀ n < 16, (↑(Nat.digitChar n) : CodePoint) ≠ '\n' ∧
      (↑(Nat.digitChar n) : CodePoint) ≠ '\r' := by
  decide

@[simp] theorem length_hexDigits (width n : Nat) : (hexDigits width n).length = width := by
  induction width generalizing n with
  | zero => rfl
  | succ width ih => rw [hexDigits, List.length_append, ih, List.length_singleton]

theorem ofHexDigits_hexDigits (width n : Nat) :
    ofHexDigits (hexDigits width n) = n % 16 ^ width := by
  induction width generalizing n with
  | zero => rw [Nat.pow_zero, Nat.mod_one]; rfl
  | succ width ih =>
    have hinit := ih (n / 16)
    rw [ofHexDigits] at hinit ⊢
    rw [hexDigits, List.foldl_append, hinit, List.foldl_cons, List.foldl_nil,
      hexValue_digitChar _ (Nat.mod_lt n (by decide)), Nat.pow_succ', Nat.mod_mul, Nat.add_comm]

theorem mem_hexDigits {width n : Nat} {c : CodePoint} (h : c ∈ hexDigits width n) :
    c ≠ '\n' ∧ c ≠ '\r' := by
  induction width generalizing n with
  | zero => cases h
  | succ width ih =>
    rw [hexDigits, List.mem_append, List.mem_singleton] at h
    rcases h with h | rfl
    · exact ih h
    · exact digitChar_not_break _ (Nat.mod_lt n (by decide))

end Text

/-! ## Numbers of code points -/

namespace CodePoint

/-- The code point with a number. -/
def ofNat (n : Nat) : CodePoint :=
  if h : n - 0xd800 < 0x800 ∧ 0xd800 ≤ n then surrogate ⟨n - 0xd800, h.1⟩ else Char.ofNat n

theorem toNat_lt (c : CodePoint) : c.toNat < 16 ^ 8 := by
  cases c with
  | scalar c => exact c.val.toNat_lt
  | surrogate offset =>
    have hoffset := offset.isLt
    simp only [toNat]
    omega

theorem ofNat_toNat (c : CodePoint) : ofNat c.toNat = c := by
  cases c with
  | scalar c =>
    -- The numbers between the two ranges of characters belong to none of them.
    have hvalid : c.toNat < 0xd800 ∨ 0xdfff < c.toNat ∧ c.toNat < 0x110000 := c.valid
    have hno : ¬(c.toNat - 0xd800 < 0x800 ∧ 0xd800 ≤ c.toNat) := by omega
    rw [toNat, ofNat, dif_neg hno, Char.ofNat_toNat]
  | surrogate offset =>
    have hoffset : 0xd800 + offset.val - 0xd800 = offset.val := Nat.add_sub_cancel_left ..
    have hyes : 0xd800 + offset.val - 0xd800 < 0x800 ∧ 0xd800 ≤ 0xd800 + offset.val := by
      have hlt := offset.isLt
      omega
    rw [toNat, ofNat, dif_pos hyes]
    simp only [hoffset]

end CodePoint

namespace Text

/-! ## Characters between quotes -/

/-- The character with a number of some digits, and what follows it. -/
def readNumbered (width : Nat) (cs : List CodePoint) : CodePoint × List CodePoint :=
  (CodePoint.ofNat (ofHexDigits (cs.take width)), cs.drop width)

/-- What an escape with this letter stands for. -/
def readEscape (letter : CodePoint) (cs : List CodePoint) : CodePoint × List CodePoint :=
  match letter with
  | 'n' => ('\n', cs)
  | 'r' => ('\r', cs)
  | 't' => ('\t', cs)
  | 'x' => readNumbered 2 cs
  | 'u' => readNumbered 4 cs
  | 'U' => readNumbered 8 cs
  | c => (c, cs)

/-- The first of the characters that some quoted characters stand for, and those behind it. -/
def readQuotedChar? : List CodePoint → Option (CodePoint × List CodePoint)
  | '\\' :: letter :: cs => some (readEscape letter cs)
  | c :: cs => some (c, cs)
  | [] => none

theorem readNumbered_hexDigits {width : Nat} {c : CodePoint} (h : c.toNat < 16 ^ width)
    (cs : List CodePoint) :
    readNumbered width (hexDigits width c.toNat ++ cs) = (c, cs) := by
  rw [readNumbered, List.take_left' (length_hexDigits ..), List.drop_left' (length_hexDigits ..),
    ofHexDigits_hexDigits, Nat.mod_eq_of_lt h, CodePoint.ofNat_toNat]

def IsQuote (c : CodePoint) : Prop := c = '\'' ∨ c = '"'

theorem isQuote_quoteFor (cs : List CodePoint) : IsQuote (quoteFor cs) := by
  unfold quoteFor
  split
  · exact .inr rfl
  · exact .inl rfl

/-- **A quoted character is read back**, whatever follows it. -/
theorem readQuotedChar?_quotedChar {quote : CodePoint} (h : IsQuote quote) (c : CodePoint)
    (cs : List CodePoint) :
    readQuotedChar? (quotedChar quote c ++ cs) = some (c, cs) := by
  unfold quotedChar
  split
  · next hc =>
    rcases hc with rfl | rfl
    · rfl
    · rcases h with rfl | rfl <;> rfl
  split
  · next hc => rw [hc]; rfl
  split
  · next hc => rw [hc]; rfl
  split
  · next hc => rw [hc]; rfl
  split
  · next hother _ _ _ _ =>
    rw [List.singleton_append, readQuotedChar?]
    rintro letter cs rfl
    exact absurd (.inl rfl) hother
  split
  · next h =>
    have hsmall : c.toNat < 16 ^ 2 := h
    exact congrArg some (readNumbered_hexDigits hsmall cs)
  split
  · next h =>
    have hsmall : c.toNat < 16 ^ 4 := h
    exact congrArg some (readNumbered_hexDigits hsmall cs)
  · exact congrArg some (readNumbered_hexDigits c.toNat_lt cs)

theorem flatMap_quotedChar_inj {quote : CodePoint} (h : IsQuote quote) {cs ds : List CodePoint}
    (heq : cs.flatMap (quotedChar quote) = ds.flatMap (quotedChar quote)) : cs = ds := by
  induction cs generalizing ds with
  | nil =>
    cases ds with
    | nil => rfl
    | cons d ds =>
      have hread := readQuotedChar?_quotedChar h d (ds.flatMap (quotedChar quote))
      rw [← List.flatMap_cons, ← heq] at hread
      cases hread
  | cons c cs ih =>
    have hread := readQuotedChar?_quotedChar h c (cs.flatMap (quotedChar quote))
    rw [← List.flatMap_cons, heq] at hread
    cases ds with
    | nil => cases hread
    | cons d ds =>
      rw [List.flatMap_cons, readQuotedChar?_quotedChar h, Option.some.injEq,
        Prod.mk.injEq] at hread
      rw [hread.1, ih hread.2.symm]

/-- **Two texts that are quoted alike are the same.** -/
theorem quoted_inj {s t : Text} (h : quoted s = quoted t) : s = t := by
  have hchars : quotedChars s.toList = quotedChars t.toList := Text.ofList_injective h
  obtain ⟨hquote, hbody⟩ := List.cons.inj hchars
  rw [hquote] at hbody
  exact Text.toList_inj.1
    (flatMap_quotedChar_inj (isQuote_quoteFor _) (List.append_cancel_right hbody))

/-! ## One line -/

theorem IsQuote.not_break {quote : CodePoint} (h : IsQuote quote) :
    quote ≠ '\n' ∧ quote ≠ '\r' := by
  rcases h with rfl | rfl <;> decide

theorem forall_mem_escape {letter : CodePoint} {cs : List CodePoint}
    (hletter : letter ≠ '\n' ∧ letter ≠ '\r')
    (hcs : ∀ c ∈ cs, c ≠ '\n' ∧ c ≠ '\r') : ∀ c ∈ ↑ '\\' :: letter :: cs, c ≠ '\n' ∧ c ≠ '\r' :=
  List.forall_mem_cons.2 ⟨by decide, List.forall_mem_cons.2 ⟨hletter, hcs⟩⟩

theorem forall_mem_quotedChar {quote : CodePoint} (h : IsQuote quote) (c : CodePoint) :
    ∀ d ∈ quotedChar quote c, d ≠ '\n' ∧ d ≠ '\r' := by
  have hnone := List.forall_mem_nil fun d : CodePoint => d ≠ '\n' ∧ d ≠ '\r'
  unfold quotedChar
  split
  · next hc =>
    refine forall_mem_escape ?_ hnone
    rcases hc with rfl | rfl
    · decide
    · exact h.not_break
  split
  · exact forall_mem_escape (by decide) hnone
  split
  · exact forall_mem_escape (by decide) hnone
  split
  · exact forall_mem_escape (by decide) hnone
  split
  · next hfeed hreturn _ _ => exact List.forall_mem_cons.2 ⟨⟨hfeed, hreturn⟩, hnone⟩
  split
  · exact forall_mem_escape (by decide) fun _ => mem_hexDigits
  split
  · exact forall_mem_escape (by decide) fun _ => mem_hexDigits
  · exact forall_mem_escape (by decide) fun _ => mem_hexDigits

/-- **A quoted text stays on one line.** -/
theorem isLine_quoted (s : Text) : IsLine (quoted s) := by
  have hquote := isQuote_quoteFor s.toList
  intro c hc
  rw [quoted, Text.toList_ofList, quotedChars, List.mem_append, List.mem_cons, List.mem_flatMap,
    List.mem_singleton] at hc
  rcases hc with (rfl | ⟨d, -, hc⟩) | rfl
  · exact hquote.not_break
  · exact forall_mem_quotedChar hquote d c hc
  · exact hquote.not_break

end Text

end TagTemplate
