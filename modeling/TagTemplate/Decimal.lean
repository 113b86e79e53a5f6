/-
Decimal numbers without a sign: a coefficient and a power of ten.
-/
import TagTemplate.Rounding

namespace TagTemplate

/-- The number `coefficient * 10^exponent`. One number has many such forms. -/
structure Decimal where
  coefficient : Nat
  exponent : Int
  deriving DecidableEq

namespace Decimal

/-- The digits of a natural number, without leading zeros but for zero itself. -/
def digits (n : Nat) : List Char := Nat.toDigits 10 n

/-- How many digits a natural number has; zero has one. -/
def size (n : Nat) : Nat := (digits n).length

/-- The coefficient, in the unit `10^exponent`, rounded half to even. -/
def scaledTo (d : Decimal) (exponent : Int) : Nat :=
  if exponent ≤ d.exponent then d.coefficient * Nat.pow 10 (d.exponent - exponent).toNat
  else roundHalfEven d.coefficient (Nat.pow 10 (exponent - d.exponent).toNat)

/-- Rounded half to even to `width` significant digits, if there are more. -/
def significant (d : Decimal) (width : Nat) : Decimal :=
  let excess := size d.coefficient - width
  if excess = 0 then d
  else ⟨d.scaledTo (d.exponent + excess), d.exponent + excess⟩

/-- The number times `factor`. -/
def times (d : Decimal) (factor : Nat) : Decimal :=
  ⟨d.coefficient * factor, d.exponent⟩

/-- The number times `10^places`. -/
def shift (d : Decimal) (places : Int) : Decimal :=
  ⟨d.coefficient, d.exponent + places⟩

/-- The power of ten of the first digit of a positive number. -/
def leadingExponent (d : Decimal) : Int :=
  size d.coefficient - 1 + d.exponent

end Decimal

end TagTemplate
