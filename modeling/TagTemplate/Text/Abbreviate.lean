/-
A text cut down to its two ends for display.
-/
import TagTemplate.Text.Basic

namespace TagTemplate.Text

/-- The place in a list of `size` members that index `i` means: a negative index
counts from the end, and an index beyond either end is that end. -/
def cutPoint (size : Nat) (i : Int) : Nat :=
  if i < 0 then (size + i).toNat else min i.toNat size

/-- A text of more than `width` characters keeps the first and the last
`width / 2` of them around three dots. A width may be negative, and both cuts
read `width / 2` as `cutPoint` does: so a half of zero keeps the whole text as
its end, since the end starts at index `-0`. -/
def abbreviate (s : Text) (width : Int) : Text :=
  let cs := s.toList
  if (cs.length : Int) ≤ width then s
  else
    let half := width.fdiv 2
    Text.ofList (cs.take (cutPoint cs.length half)) ++ "..." ++
      Text.ofList (cs.drop (cutPoint cs.length (-half)))

/-- The width of a text abbreviated for a log line. -/
def abbreviateWidth : Int := 64

end TagTemplate.Text
