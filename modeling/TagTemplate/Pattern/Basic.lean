/-
Patterns for formatting numbers, as compiled from their texts.
-/
import TagTemplate.Text.Basic

namespace TagTemplate

/-- The texts around a formatted number. -/
structure Affixes where
  before : Text
  after : Text
  deriving DecidableEq

/-- A compiled pattern. -/
structure Pattern where
  /-- Around numbers that are not negative. -/
  positive : Affixes
  /-- Around negative numbers. -/
  negative : Affixes
  /-- The least number of digits before the point. -/
  minInteger : Nat
  /-- The number of digits between two commas; zero means no commas. -/
  grouping : Nat
  /-- The least number of digits after the point. -/
  minFraction : Nat
  /-- The greatest number of digits after the point. -/
  maxFraction : Nat
  /-- The least number of digits of the exponent; zero means no exponent. -/
  minExponent : Nat
  /-- What a number is multiplied by before it is formatted. -/
  multiplier : Nat
  deriving DecidableEq

namespace Pattern

/-- More fraction digits than the shortest decimal of any double has. -/
def allFractionDigits : Nat := 340

/-- The pattern of the empty text: every digit, and none that is not needed. -/
def plain : Pattern :=
  { positive := ⟨"", ""⟩, negative := ⟨"-", ""⟩, minInteger := 0, grouping := 0,
    minFraction := 0, maxFraction := allFractionDigits, minExponent := 0, multiplier := 1 }

end Pattern

end TagTemplate
