/-
Formatting numbers by a pattern. A double counts as the decimal number that its
shortest text denotes; everything after that is decimal arithmetic, which rounds
halves to even.
-/
import TagTemplate.Double.Text
import TagTemplate.Number.Reader
import TagTemplate.Pattern.Reader

namespace TagTemplate.Pattern

/-- The digits that products with the multiplier keep. -/
def productDigits : Nat := 28

/-- How many digits a formatted number may have besides those after the point. -/
def integerDigits : Nat := 400

/-- The digits of a positive number; zero has none. -/
def positiveDigits (n : Nat) : List Char := if n = 0 then [] else Decimal.digits n

/-- Zeros in front of digits up to a width. -/
def padLeft (width : Nat) (ds : List Char) : List Char :=
  List.replicate (width - ds.length) '0' ++ ds

/-- Zeros behind digits up to a width. -/
def padRight (width : Nat) (ds : List Char) : List Char :=
  ds ++ List.replicate (width - ds.length) '0'

/-- The digits before and after the point, as few as the pattern allows but not none
at all. -/
def places (p : Pattern) (d : Decimal) : Except Fault (List Char × List Char) :=
  let n := d.scaledTo (-p.maxFraction)
  if n ≠ 0 ∧ integerDigits + p.maxFraction < Decimal.size n then .error .precision
  else
    let unit := Nat.pow 10 p.maxFraction
    let whole := padLeft p.minInteger (positiveDigits (n / unit))
    let fraction := padLeft p.maxFraction (positiveDigits (n % unit))
    let fraction := padRight p.minFraction (Double.dropFinalZeros fraction)
    .ok (if whole.isEmpty && fraction.isEmpty then ['0'] else whole, fraction)

/-- A comma before every group of `size` digits but the first. -/
def grouped (size : Nat) : List Char → List Char
  | [] => []
  | d :: ds =>
    if size ≠ 0 ∧ ds ≠ [] ∧ ds.length % size = 0 then d :: ',' :: grouped size ds
    else d :: grouped size ds

/-- The digits with a point between them, if any follow it. -/
def pointed (whole fraction : List Char) : List Char :=
  if fraction.isEmpty then whole else whole ++ '.' :: fraction

def fixed (p : Pattern) (d : Decimal) : Except Fault (List Char) := do
  let (whole, fraction) ← p.places d
  return pointed (grouped p.grouping whole) fraction

/-- As many digits before the point as the pattern asks for, and the power of ten that
makes up for it. Where rounding brings one digit more, the next power is taken. -/
def scientific (p : Pattern) (d : Decimal) : Except Fault (List Char) := do
  let width := max p.minInteger 1
  let exponent := if d.coefficient = 0 then 0 else d.leadingExponent - (width - 1)
  let (whole, fraction) ← p.places (d.shift (-exponent))
  if width < whole.length then
    let (whole, fraction) ← p.places (d.shift (-(exponent + 1)))
    return pointed whole fraction ++ exponentPart (exponent + 1)
  else return pointed whole fraction ++ exponentPart exponent
where
  exponentPart (e : Int) : List Char :=
    'E' :: (if e < 0 then ['-'] else []) ++ padLeft p.minExponent (Decimal.digits e.natAbs)

/-- A decimal number without its sign. -/
def body (p : Pattern) (d : Decimal) : Except Fault (List Char) :=
  let product := ((d.significant productDigits).times p.multiplier).significant productDigits
  if p.minExponent = 0 then p.fixed product else p.scientific product

def surround (p : Pattern) (negative : Bool) (body : List Char) : Text :=
  let a := if negative then p.negative else p.positive
  a.before ++ String.ofList body ++ a.after

def formatInteger (p : Pattern) (n : Int) : Except Fault Text :=
  p.surround (n < 0) <$> p.body ⟨n.natAbs, 0⟩

/-- NaN stands alone; a negative zero is not negative. -/
def formatDouble (p : Pattern) : Double → Except Fault Text
  | .nan => .ok "NaN"
  | .ranked negative rank _ =>
    if rank = Double.infinityRank then .ok (p.surround negative ['∞'])
    else if rank = 0 then p.surround false <$> p.body ⟨0, 0⟩
    else p.surround negative <$> p.body (Double.shortestDecimal rank)

def format (p : Pattern) : Number → Except Fault Text
  | .integer n => p.formatInteger n.toInt
  | .double x => p.formatDouble x

end TagTemplate.Pattern
