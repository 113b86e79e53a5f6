/-
Binary64 numbers. A number is a sign and a rank: the magnitudes `0`, `2^-1074`,
`2 * 2^-1074`, ... up to the largest finite one, and infinity after it, have the
ranks `0`, `1`, `2`, ... in this order. So comparing magnitudes is comparing
ranks, and the rank is what the format stores below the sign bit.

Every finite magnitude is a natural multiple (`units`) of `2^-1074`, and
`nearestRank` rounds any ratio of natural numbers, taken in these units, to the
nearest magnitude.
-/
import TagTemplate.Rounding

namespace TagTemplate

/-- A binary64 number. There is one NaN, which has no sign. -/
inductive Double where
  | nan
  | ranked (negative : Bool) (rank : Nat) (bounded : rank ≤ 0x7ff0000000000000)
  deriving DecidableEq

namespace Double

/-- The rank of infinity: every finite magnitude has a smaller one. -/
abbrev infinityRank : Nat := 0x7ff0000000000000

/-- The number of this sign and rank; a rank beyond infinity is infinity. -/
def ofRank (negative : Bool) (rank : Nat) : Double :=
  .ranked negative (min rank infinityRank) (Nat.min_le_right ..)

instance : Inhabited Double := ⟨ofRank false 0⟩

def infinity (negative : Bool) : Double := .ranked negative infinityRank (Nat.le_refl _)

/-- The number of ranks from one power of two to the next, `2^52`. -/
abbrev binade : Nat := 0x10000000000000

/-- A magnitude is its significand times `2^(shift - 1074)`. -/
def significand (rank : Nat) : Nat :=
  if rank < binade then rank else binade + rank % binade

def shift (rank : Nat) : Nat := rank / binade - 1

/-- A finite magnitude counted in `2^-1074`. -/
def units (rank : Nat) : Nat := significand rank * Nat.pow 2 (shift rank)

/-- The units of the number one. -/
def one : Nat := Nat.pow 2 1074

/-- The rank nearest to `num / den` units: below `2^53` units every integer has a
rank, and each further doubling doubles the step. Of two ranks equally near the
even one is taken. Whatever rounds beyond the finite magnitudes is infinity. -/
def nearestRank (num den : Nat) : Nat :=
  let shift := (num / den).log2 - 52
  min (shift * binade + roundHalfEven num (den * Nat.pow 2 shift)) infinityRank

/-- The double nearest to `num / den` units, with the sign given. -/
def ofUnits (negative : Bool) (num den : Nat) : Double :=
  ofRank negative (nearestRank num den)

/-- The double nearest to an integer. -/
def ofInt (n : Int) : Double :=
  ofUnits (n < 0) (n.natAbs * one) 1

def isNaN : Double → Bool
  | nan => true
  | ranked .. => false

def isInfinite : Double → Bool
  | nan => false
  | ranked _ rank _ => rank == infinityRank

/-- Whether the sign is set, also on a zero; NaN has none. -/
def isNegative : Double → Bool
  | nan => false
  | ranked negative .. => negative

/-- The place on the number line, counted in ranks; both zeros have place zero. -/
def place (negative : Bool) (rank : Nat) : Int :=
  if negative then -rank else rank

/-- The order of numbers: NaN is neither below nor above anything. -/
def lt : Double → Double → Bool
  | ranked n r _, ranked m s _ => place n r < place m s
  | _, _ => false

/-- Equality of numbers: the zeros are equal, and NaN equals nothing. -/
def sameNumber : Double → Double → Bool
  | ranked n r _, ranked m s _ => place n r == place m s
  | _, _ => false

end Double

end TagTemplate
