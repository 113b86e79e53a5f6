/-
Quotients of natural numbers rounded to the nearest natural number.
-/

namespace TagTemplate

/-- `num / den` rounded to the nearest natural number, a half to the even one. -/
def roundHalfEven (num den : Nat) : Nat :=
  let q := num / den
  let twice := 2 * (num % den)
  if twice < den then q
  else if den < twice then q + 1
  else q + q % 2

end TagTemplate
