/-
Compiling patterns from their texts. A text is one subpattern, or two around a
semicolon; a subpattern is a number part between two affixes. Affixes are plain
characters, percent and per mille signs, and quoted runs; the number part is made
of `#`, `0`, commas, a point and `E`. The second subpattern only gives its affixes.
-/
import TagTemplate.Fault
import TagTemplate.Pattern.Basic

namespace TagTemplate.Pattern

/-- The text of an affix, with the multiplier of the last sign in it that has one. -/
structure Affix where
  text : List CodePoint
  multiplier : Option Nat
  deriving DecidableEq

namespace Affix

def empty : Affix := ⟨[], none⟩

def cons (c : CodePoint) (a : Affix) : Affix := ⟨c :: a.text, a.multiplier⟩

/-- An affix with a sign put in front, which counts only if no other one follows. -/
def consSign (c : CodePoint) (multiplier : Nat) (a : Affix) : Affix :=
  ⟨c :: a.text, some (a.multiplier.getD multiplier)⟩

end Affix

/-- The characters that end an affix: those of number parts, and the semicolon. -/
def endsAffix (c : CodePoint) : Bool :=
  c == '#' || c.isDigit || c == ',' || c == '.' || c == ';'

mutual

/-- The affix at the front of a text, and the rest. -/
def splitAffix : List CodePoint → Option (Affix × List CodePoint)
  | [] => some (.empty, [])
  | '\'' :: cs => splitQuoted true cs
  | '%' :: cs => (splitAffix cs).map fun (a, rest) => (a.consSign '%' 100, rest)
  | '‰' :: cs => (splitAffix cs).map fun (a, rest) => (a.consSign '‰' 1000, rest)
  | c :: cs =>
    if endsAffix c then some (.empty, c :: cs)
    else (splitAffix cs).map fun (a, rest) => (a.cons c, rest)

/-- The same inside a quoted run, of which nothing has been read yet if `atStart`. In
it a quote is written twice, and a run of nothing is a quote by itself. -/
def splitQuoted (atStart : Bool) : List CodePoint → Option (Affix × List CodePoint)
  | [] => none
  | '\'' :: '\'' :: cs => (splitQuoted false cs).map fun (a, rest) => (a.cons '\'', rest)
  | '\'' :: cs => (splitAffix cs).map fun (a, rest) => (if atStart then a.cons '\'' else a, rest)
  | c :: cs => (splitQuoted false cs).map fun (a, rest) => (a.cons c, rest)

end

/-- The number part of a subpattern: what stands before the point, the zeros and the
number signs after it, and the zeros of the exponent. -/
structure NumberPart where
  integer : Option (List CodePoint)
  fraction : Option (Nat × Nat)
  exponent : Nat
  deriving DecidableEq

/-- The integer part at the front: number signs and commas, then zeros and commas. It
is absent where neither sign stands first. -/
def splitInteger (cs : List CodePoint) : Option (List CodePoint) × List CodePoint :=
  match cs with
  | '#' :: _ =>
    let optional := cs.takeWhile fun c => c == ↑ '#' || c == ↑ ','
    let (required, rest) := splitZeros (cs.dropWhile fun c => c == ↑ '#' || c == ↑ ',')
    (some (optional ++ required), rest)
  | '0' :: _ => let (required, rest) := splitZeros cs; (some required, rest)
  | _ => (none, cs)
where
  /-- Zeros and commas from a zero on. -/
  splitZeros (cs : List CodePoint) : List CodePoint × List CodePoint :=
    match cs with
    | '0' :: _ =>
      (cs.takeWhile fun c => c == ↑ '0' || c == ↑ ',',
        cs.dropWhile fun c => c == ↑ '0' || c == ↑ ',')
    | _ => ([], cs)

/-- A point, zeros and number signs at the front. -/
def splitFraction (cs : List CodePoint) : Option (Nat × Nat) × List CodePoint :=
  match cs with
  | '.' :: cs =>
    let signs := cs.dropWhile (· == ↑ '0')
    (some ((cs.takeWhile (· == ↑ '0')).length, (signs.takeWhile (· == ↑ '#')).length),
      signs.dropWhile (· == ↑ '#'))
  | _ => (none, cs)

/-- An `E` and at least one zero at the front; without the zero the `E` is left to the
affix. -/
def splitExponent (cs : List CodePoint) : Nat × List CodePoint :=
  match cs with
  | 'E' :: '0' :: rest =>
    ((rest.takeWhile (· == ↑ '0')).length + 1, rest.dropWhile (· == ↑ '0'))
  | _ => (0, cs)

/-- The number part at the front, and the rest. It needs an integer part or a fraction,
and no comma may stand last in the integer part. -/
def splitNumber (cs : List CodePoint) : Option (NumberPart × List CodePoint) :=
  let (integer, cs) := splitInteger cs
  let (fraction, cs) := splitFraction cs
  if integer = none ∧ fraction = none then none
  else if integer.any (·.getLast? == some ↑ ',') then none
  else
    let (exponent, cs) := splitExponent cs
    some (⟨integer, fraction, exponent⟩, cs)

/-- A subpattern. -/
structure Subpattern where
  before : Affix
  number : NumberPart
  after : Affix
  deriving DecidableEq

def splitSubpattern (cs : List CodePoint) : Option (Subpattern × List CodePoint) := do
  let (before, cs) ← splitAffix cs
  let (number, cs) ← splitNumber cs
  let (after, cs) ← splitAffix cs
  return (⟨before, number, after⟩, cs)

/-- The subpatterns of a text that is not empty. -/
def splitPattern (cs : List CodePoint) : Option (Subpattern × Option Subpattern) :=
  match splitSubpattern cs with
  | some (first, []) => some (first, none)
  | some (first, ';' :: cs) =>
    match splitSubpattern cs with
    | some (second, []) => some (first, some second)
    | _ => none
  | _ => none

namespace NumberPart

def integerZeros (n : NumberPart) : Nat := (n.integer.getD []).count ↑ '0'

def fractionZeros (n : NumberPart) : Nat := (n.fraction.getD (0, 0)).1

/-- All digits that the fraction may have. -/
def fractionDigits (n : NumberPart) : Nat :=
  let (zeros, signs) := n.fraction.getD (0, 0)
  zeros + signs

/-- Whether there is a fraction and no zero asks for a digit. Then one digit next to the
point is asked for all the same, before it if there is an integer part. -/
def lacksZeros (n : NumberPart) : Bool :=
  n.fraction.isSome && n.integerZeros == 0 && n.fractionZeros == 0

def minInteger (n : NumberPart) : Nat :=
  if n.lacksZeros ∧ n.integer.isSome then 1 else n.integerZeros

def minFraction (n : NumberPart) : Nat :=
  if n.lacksZeros ∧ n.integer.isNone then min 1 n.fractionDigits else n.fractionZeros

/-- The distance from the last comma to the end of the integer part. -/
def grouping (n : NumberPart) : Nat :=
  let cs := n.integer.getD []
  if ↑ ',' ∈ cs then (cs.reverse.takeWhile (· != ↑ ',')).length else 0

end NumberPart

def Subpattern.affixes (s : Subpattern) : Affixes :=
  ⟨Text.ofList s.before.text, Text.ofList s.after.text⟩

/-- The larger multiplier of the two affixes. -/
def Subpattern.multiplier (s : Subpattern) : Nat :=
  max (s.before.multiplier.getD 1) (s.after.multiplier.getD 1)

/-- Without a second subpattern negative numbers have a minus sign before the affixes. -/
def ofSubpatterns (first : Subpattern) (second : Option Subpattern) : Pattern :=
  { positive := first.affixes
    negative := (second.map Subpattern.affixes).getD
      ⟨"-" ++ first.affixes.before, first.affixes.after⟩
    minInteger := first.number.minInteger
    grouping := first.number.grouping
    minFraction := first.number.minFraction
    maxFraction := first.number.fractionDigits
    minExponent := first.number.exponent
    multiplier := first.multiplier }

/-- The pattern that a text is compiled to. -/
def compile (s : Text) : Except Fault Pattern :=
  if s.isEmpty then .ok plain
  else
    match splitPattern s.toList with
    | some (first, second) => .ok (ofSubpatterns first second)
    | none => .error (.malformedPattern s)

end TagTemplate.Pattern
