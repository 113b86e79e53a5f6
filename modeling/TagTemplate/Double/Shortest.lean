/-
Binary64 numbers as decimal numbers, in both directions: the double nearest to a
decimal, and the shortest decimal whose nearest double is the given one.
-/
import TagTemplate.Decimal
import TagTemplate.Double.Basic

namespace TagTemplate.Double

/-- The rank nearest to a decimal number. Powers of ten so large or so small that
the result is plainly infinity or zero are not computed. -/
def rankOfDecimal (d : Decimal) : Nat :=
  if d.coefficient = 0 then 0
  else if 310 ≤ d.exponent then infinityRank
  else if 0 ≤ d.exponent then nearestRank (d.coefficient * Nat.pow 10 d.exponent.toNat * one) 1
  else if d.coefficient.log2 + 1 + d.exponent < -326 then 0
  else nearestRank (d.coefficient * one) (Nat.pow 10 (-d.exponent).toNat)

/-- The double nearest to a decimal number with a sign. -/
def ofDecimal (negative : Bool) (d : Decimal) : Double :=
  ofRank negative (rankOfDecimal d)

/-- A finite magnitude as a decimal number, exactly: `2^-n` is `5^n * 10^-n`. -/
def exactDecimal (rank : Nat) : Decimal :=
  let s := shift rank
  if 1074 ≤ s then ⟨significand rank * Nat.pow 2 (s - 1074), 0⟩
  else ⟨significand rank * Nat.pow 5 (1074 - s), -(1074 - s : Nat)⟩

/-- The nearest of the decimals that lack the last `excess` digits of an exact one and
read back as the magnitude of this rank, if there is one. Such a decimal is next to the
exact one, below or above; of two equally near the even one is taken. -/
def shortened? (rank : Nat) (exact : Decimal) (excess : Nat) : Option Decimal :=
  let unit := Nat.pow 10 excess
  let exponent := exact.exponent + excess
  let below := exact.coefficient / unit
  let near := roundHalfEven exact.coefficient unit
  let far := if near = below then below + 1 else below
  if rankOfDecimal ⟨near, exponent⟩ = rank then some ⟨near, exponent⟩
  else if rankOfDecimal ⟨far, exponent⟩ = rank then some ⟨far, exponent⟩
  else none

/-- The decimal of fewest digits that reads back as the finite magnitude of this
rank, and the nearest of those. Seventeen digits always suffice. -/
def shortestDecimal (rank : Nat) : Decimal :=
  let exact := exactDecimal rank
  let size := Decimal.size exact.coefficient
  ((List.range' 1 17).findSome? fun width => shortened? rank exact (size - width)).getD exact

end TagTemplate.Double
