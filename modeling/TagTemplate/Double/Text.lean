/-
The text of a binary64 number: the digits of its shortest decimal, written with a
point where the number is neither very large nor very small, and with an
exponent elsewhere.
-/
import TagTemplate.Double.Shortest

namespace TagTemplate.Double

/-- Digits with a point before the `point`-th of them, and at least one digit on
each side of it. -/
def positional (ds : List Char) (point : Int) : List Char :=
  if point ≤ 0 then '0' :: '.' :: List.replicate (-point).toNat '0' ++ ds
  else
    let whole := point.toNat
    if ds.length ≤ whole then ds ++ List.replicate (whole - ds.length) '0' ++ ['.', '0']
    else ds.take whole ++ '.' :: ds.drop whole

/-- An exponent shows its sign and at least two digits. -/
def exponentText (e : Int) : List Char :=
  let ds := Nat.toDigits 10 e.natAbs
  (if e < 0 then '-' else '+') :: List.replicate (2 - ds.length) '0' ++ ds

/-- Digits with a point after the first of them, if there are more, and the power
of ten that puts the point before the `point`-th. -/
def scientific (ds : List Char) (point : Int) : List Char :=
  ds.take 1 ++ (if ds.length ≤ 1 then [] else '.' :: ds.drop 1) ++ 'e' :: exponentText (point - 1)

/-- The digits without the zeros at their end. -/
def dropFinalZeros (ds : List Char) : List Char :=
  (ds.reverse.dropWhile (· = '0')).reverse

/-- From `10^-4` up to but not including `10^16` a magnitude is written without an
exponent. -/
def magnitudeText (rank : Nat) : List Char :=
  if rank = infinityRank then "inf".toList
  else if rank = 0 then "0.0".toList
  else
    let d := shortestDecimal rank
    let all := Decimal.digits d.coefficient
    let point := all.length + d.exponent
    let ds := dropFinalZeros all
    if -4 < point ∧ point ≤ 16 then positional ds point else scientific ds point

def chars : Double → List Char
  | nan => "nan".toList
  | ranked negative rank _ => (if negative then ['-'] else []) ++ magnitudeText rank

def text (x : Double) : String := String.ofList x.chars

end TagTemplate.Double
