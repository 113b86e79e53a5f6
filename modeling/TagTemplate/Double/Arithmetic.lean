/-
Arithmetic on binary64 numbers. Each operation on finite numbers takes the exact
result, a ratio of natural numbers of units with a sign, and rounds it once;
infinities, NaN and zero divisors follow the rules of the format.
-/
import TagTemplate.Double.Basic

namespace TagTemplate.Double

/-- A finite number in units, with its sign. -/
def signedUnits (negative : Bool) (rank : Nat) : Int :=
  if negative then -units rank else units rank

def neg : Double → Double
  | nan => nan
  | ranked negative rank bounded => ranked (!negative) rank bounded

/-- A sum of zero is negative only when both summands are. -/
def add : Double → Double → Double
  | ranked n r hr, ranked m s hs =>
    if r = infinityRank then
      if s = infinityRank ∧ n ≠ m then nan else ranked n r hr
    else if s = infinityRank then ranked m s hs
    else
      let sum := signedUnits n r + signedUnits m s
      ofUnits (if sum = 0 then n && m else sum < 0) sum.natAbs 1
  | _, _ => nan

def sub (a b : Double) : Double := add a (neg b)

def mul : Double → Double → Double
  | ranked n r _, ranked m s _ =>
    if r = infinityRank ∨ s = infinityRank then
      if r = 0 ∨ s = 0 then nan else infinity (n != m)
    else ofUnits (n != m) (units r * units s) one
  | _, _ => nan

/-- Division by zero gives an infinity, except that zero by zero is NaN. -/
def div : Double → Double → Double
  | ranked n r _, ranked m s _ =>
    if r = infinityRank then
      if s = infinityRank then nan else infinity (n != m)
    else if s = infinityRank then ofRank (n != m) 0
    else if s = 0 then
      if r = 0 then nan else infinity (n != m)
    else ofUnits (n != m) (units r * one) (units s)
  | _, _ => nan

/-- The sign bit, which stands above all ranks. -/
def signBit : Nat := 0x8000000000000000

/-- The sign bit, then the rank. -/
def toBits : Double → UInt64
  | nan => 0x7ff8000000000000
  | ranked negative rank _ => UInt64.ofNat ((if negative then signBit else 0) + rank)

def ofBits (bits : UInt64) : Double :=
  let rank := bits.toNat % signBit
  if rank ≤ infinityRank then ofRank (signBit ≤ bits.toNat) rank else nan

/-- The double nearest to the ratio of a circle's circumference to its diameter. -/
def pi : Double := ofRank false 0x400921fb54442d18

/-- The sine of an angle in degrees, which is first brought to radians in two
rounded steps; an infinite angle has none. -/
def sinDegrees? (degrees : Double) : Option Double :=
  let radians := div (mul degrees pi) (ofInt 180)
  if radians.isInfinite then none
  else some (ofBits (Float.sin (Float.ofBits radians.toBits)).toBits)

end TagTemplate.Double
