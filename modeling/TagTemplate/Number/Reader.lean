/-
Reading numbers from texts. An integer is an optional sign and digits; a decimal
number may also have a point and an exponent; and the special doubles are read
from their names in any case. Digits are the ten of ASCII.
-/
import TagTemplate.Number.Basic

namespace TagTemplate.Number

/-- An optional sign: whether it is a minus, and what follows it. -/
def splitSign : List Char → Bool × List Char
  | '-' :: cs => (true, cs)
  | '+' :: cs => (false, cs)
  | cs => (false, cs)

/-- The number that a list of decimal digits denotes. -/
def ofDigits (ds : List Char) : Nat := Nat.ofDigitChars 10 ds 0

def signed (negative : Bool) (n : Nat) : Int := if negative then -n else n

/-- The integer of any size that a text denotes, if it is the text of one. Leading zeros
count as digits like any others. -/
def readInteger? (s : String) : Except Fault (Option Int) :=
  let (negative, ds) := splitSign s.toList
  if ds.isEmpty || !ds.all Char.isDigit then .ok none
  else if digitLimit < ds.length then .error (.tooManyDigits ds.length)
  else .ok (some (signed negative (ofDigits ds)))

def fitsInt64 (n : Int) : Bool :=
  Int64.minValue.toInt ≤ n && n ≤ Int64.maxValue.toInt

/-- The integer of 64 bits that a text denotes, if it is the text of one. -/
def readInt64? (s : String) : Except Fault (Option Int64) :=
  (readInteger? s).map fun n? => (n?.filter fitsInt64).map Int64.ofInt

/-- The exponent part at the end of a decimal text; an absent one is zero. -/
def readExponent? : List Char → Option Int
  | [] => some 0
  | c :: cs =>
    let (negative, ds) := splitSign cs
    if (c = 'e' ∨ c = 'E') ∧ ds ≠ [] ∧ ds.all Char.isDigit then
      some (signed negative (ofDigits ds))
    else none

/-- The digits after a point, if there is one, and the rest. -/
def splitFraction : List Char → List Char × List Char
  | '.' :: cs => (cs.takeWhile Char.isDigit, cs.dropWhile Char.isDigit)
  | cs => ([], cs)

/-- An unsigned decimal text: digits with at most one point among or beside them,
and perhaps an exponent. -/
def readDecimal? (cs : List Char) : Option Decimal :=
  let whole := cs.takeWhile Char.isDigit
  let (fraction, rest) := splitFraction (cs.dropWhile Char.isDigit)
  if whole = [] ∧ fraction = [] then none
  else (readExponent? rest).map fun e =>
    ⟨ofDigits (whole ++ fraction), e - fraction.length⟩

/-- The double nearest to the decimal number that a text denotes. -/
def readFinite? (s : String) : Option Double :=
  let (negative, cs) := splitSign s.toList
  (readDecimal? cs).map (Double.ofDecimal negative)

/-- Whether a character is a given small letter, its capital, or, for `i`, one of
the two letters that only differ from it by the dot. -/
def isLetter (letter c : Char) : Bool :=
  c == letter || c == letter.toUpper || (letter == 'i' && (c == 'İ' || c == 'ı'))

def spells : List Char → List Char → Bool
  | [], [] => true
  | letter :: word, c :: cs => isLetter letter c && spells word cs
  | _, _ => false

/-- The special double that a text names. A name that is recognised only by the
foreign forms of `i` is refused. -/
def readSpecial? (s : String) : Except Fault (Option Double) :=
  let (negative, cs) := splitSign s.toList
  let isInfinity := spells "inf".toList cs || spells "infinity".toList cs
  if !isInfinity && !spells "nan".toList cs then .ok none
  else if cs.any (128 ≤ ·.toNat) then .error (.specialNumber s)
  else .ok (some (if isInfinity then .infinity negative else .nan))

def readDouble? (s : String) : Except Fault (Option Double) :=
  match readFinite? s with
  | some x => .ok (some x)
  | none => readSpecial? s

/-- The number that characters denote: an integer of 64 bits if they read as one, else
a double. -/
def ofString? (s : String) : Except Fault (Option Number) := do
  match ← readInt64? s with
  | some n => return some (.integer n)
  | none => return (← readDouble? s).map .double

/-- The number that a text denotes. Only characters denote one. -/
def ofText? (s : Text) : Except Fault (Option Number) :=
  match s.string? with
  | some characters => ofString? characters
  | none => .ok none

theorem ofText?_ofString (s : String) : ofText? s = ofString? s := by
  rw [ofText?, Text.string?_ofString]

end TagTemplate.Number
