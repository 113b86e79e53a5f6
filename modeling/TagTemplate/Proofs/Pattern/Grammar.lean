/-
The grammar of pattern texts. A `Source` is a text with its structure: one subpattern or two,
in each a number part between two affixes, and in the number part signs and zeros where they
may stand. Each piece carries the proof that it is well formed, and `chars` forgets the structure.

`NumberSource.Gives` is what a pattern takes from the characters of its number part.
-/
import TagTemplate.Pattern.Reader

namespace TagTemplate.Pattern

/-! ## Affixes -/

/-- A character that stands for itself in an affix. -/
def IsLiteral (c : CodePoint) : Prop :=
  c.isDigit = false ∧ c ∉ [↑ '#', ↑ ',', ↑ '.', ↑ ';', ↑ '\'', ↑ '%', ↑ '‰']

/-- A piece of an affix as it is written. -/
inductive AffixPiece where
  | plain (c : CodePoint) (allowed : IsLiteral c)
  | percent
  | perMille
  /-- Any text between quotes. -/
  | quoted (content : List CodePoint)

/-- A text with each quote in it written twice. -/
def doubled (content : List CodePoint) : List CodePoint :=
  content.flatMap fun c => if c = ↑ '\'' then ['\'', '\''] else [c]

namespace AffixPiece

def chars : AffixPiece → List CodePoint
  | plain c _ => [c]
  | percent => ['%']
  | perMille => ['‰']
  | quoted content => ↑ '\'' :: doubled content ++ [↑ '\'']

def multiplier? : AffixPiece → Option Nat
  | percent => some 100
  | perMille => some 1000
  | _ => none

end AffixPiece

abbrev AffixSource := List AffixPiece

namespace AffixSource

def chars (a : AffixSource) : List CodePoint := a.flatMap AffixPiece.chars

/-- The multiplier of the last sign that is not quoted. -/
def multiplier? (a : AffixSource) : Option Nat := (a.filterMap AffixPiece.multiplier?).getLast?

theorem multiplier?_percent (a : AffixSource) :
    multiplier? (.percent :: a) = some (a.multiplier?.getD 100) := List.getLast?_cons

theorem multiplier?_perMille (a : AffixSource) :
    multiplier? (.perMille :: a) = some (a.multiplier?.getD 1000) := List.getLast?_cons

end AffixSource

/-! ## Number parts -/

/-- A run of one sign and commas, which begins with the sign unless it is empty. -/
structure IsRun (sign : CodePoint) (cs : List CodePoint) : Prop where
  all : ∀ c ∈ cs, c = sign ∨ c = ','
  first : ∀ c ∈ cs.head?, c = sign

/-- The part before the point: number signs, then zeros, with commas among them. -/
structure IntegerSource where
  signs : List CodePoint
  zeros : List CodePoint
  isRun_signs : IsRun '#' signs
  isRun_zeros : IsRun '0' zeros
  nonempty : signs ++ zeros ≠ []
  closed : (signs ++ zeros).getLast? ≠ some ↑ ','

def IntegerSource.chars (i : IntegerSource) : List CodePoint := i.signs ++ i.zeros

/-- The point and the part after it: this many zeros, then this many number signs. -/
structure FractionSource where
  zeros : Nat
  signs : Nat

def FractionSource.chars (f : FractionSource) : List CodePoint :=
  '.' :: (List.replicate f.zeros ('0' : CodePoint) ++ List.replicate f.signs ('#' : CodePoint))

/-- A number part. -/
structure NumberSource where
  integer : Option IntegerSource
  fraction : Option FractionSource
  /-- The zeros of the exponent. Without any there is no exponent. -/
  exponent : Nat
  nonempty : integer.isSome ∨ fraction.isSome

namespace NumberSource

def integerChars (n : NumberSource) : List CodePoint := n.integer.elim [] IntegerSource.chars

def fractionChars (n : NumberSource) : List CodePoint := n.fraction.elim [] FractionSource.chars

def exponentChars (n : NumberSource) : List CodePoint :=
  if n.exponent = 0 then [] else ↑ 'E' :: List.replicate n.exponent ('0' : CodePoint)

def chars (n : NumberSource) : List CodePoint :=
  n.integerChars ++ n.fractionChars ++ n.exponentChars

/-- There is a fraction, and no zero asks for a digit. -/
def LacksZeros (n : NumberSource) : Prop :=
  n.fraction.isSome ∧ ↑ '0' ∉ n.integerChars ∧ ↑ '0' ∉ n.fractionChars

instance (n : NumberSource) : Decidable n.LacksZeros := inferInstanceAs (Decidable (_ ∧ _ ∧ _))

/-- What a pattern takes from this number part. Where there is a fraction and no zero asks for a
digit, one next to the point is asked for all the same: before the point if a part stands there. -/
structure Gives (n : NumberSource) (p : Pattern) : Prop where
  minInteger : p.minInteger =
    if n.LacksZeros ∧ n.integer.isSome then 1 else n.integerChars.count ↑ '0'
  minFraction : p.minFraction =
    if n.LacksZeros ∧ n.integer.isNone then min 1 p.maxFraction else n.fractionChars.count ↑ '0'
  maxFraction : p.maxFraction = n.fractionChars.length - 1
  minExponent : p.minExponent = n.exponentChars.length - 1
  ungrouped : ↑ ',' ∉ n.integerChars → p.grouping = 0
  /-- Groups are as long as what follows the last comma. -/
  grouping : ∀ before after : List CodePoint, n.integerChars = before ++ ↑ ',' :: after →
    ↑ ',' ∉ after →
    p.grouping = after.length

end NumberSource

/-! ## Patterns -/

structure SubpatternSource where
  before : AffixSource
  number : NumberSource
  after : AffixSource

namespace SubpatternSource

def chars (s : SubpatternSource) : List CodePoint :=
  s.before.chars ++ s.number.chars ++ s.after.chars

/-- The larger multiplier of the two affixes. -/
def multiplier (s : SubpatternSource) : Nat :=
  max (s.before.multiplier?.getD 1) (s.after.multiplier?.getD 1)

end SubpatternSource

/-- The structure of a pattern text that is not empty. -/
structure Source where
  first : SubpatternSource
  second : Option SubpatternSource

namespace Source

def chars (s : Source) : List CodePoint :=
  s.first.chars ++ s.second.elim [] fun t => ↑ ';' :: t.chars

def text (s : Source) : Text := Text.ofList s.chars

end Source

end TagTemplate.Pattern
