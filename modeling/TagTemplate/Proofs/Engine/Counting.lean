/-
What a loop counts through: the numbers that its header gives, and the values that come of
adding the step again and again.

The values need not grow. They wrap around, a step may be zero, and a double may be too
large for a step to change it. But there are fewer numbers than a loop may make passes, so
one that comes to an end at all does so within `passLimit`.
-/
import Mathlib.Data.Finset.Card
import Mathlib.Logic.Function.Iterate
import TagTemplate.Engine.Basic
import TagTemplate.Proofs.Number.ReadBack
import TagTemplate.Proofs.Steps

namespace TagTemplate

/-! ## Constants -/

/-- The number that a numeric constant stands for. An integer beyond 64 bits is the nearest
double, and one with more digits than can be read stands for none. -/
def Token.constant? : Token → Option Number
  | .integer n =>
    if Number.digitLimit < Decimal.size n.natAbs then none
    else some (if Number.fitsInt64 n then .integer (Int64.ofInt n) else .double (Double.ofInt n))
  | .double x => some (.double x)
  | _ => none

/-- Start, stop and step of a loop whose header has numeric constants. -/
def Loop.range? (header : Loop) : Option (Number × Number × Number) := do
  let start ← header.start.constant?
  let stop ← header.stop.constant?
  let step ← match header.step with
    | none => some (.integer 1)
    | some token => token.constant?
  return (start, stop, step)

namespace Number

theorem ofString?_quoted (cs : List Char) : ofString? (.ofList ('"' :: cs)) = .ok none := by
  have hread : readInt64? (.ofList ('"' :: cs)) = .ok none := by
    simp [readInt64?, readInteger?, splitSign, Except.map, Option.filter]
  have hfinite : readFinite? (.ofList ('"' :: cs)) = none := by
    simp [readFinite?, splitSign, readDecimal?, splitFraction]
  have hspecial : readSpecial? (.ofList ('"' :: cs)) = .ok none := by
    simp [readSpecial?, splitSign, spells, isLetter]
  rw [ofString?, hread, readDouble?, hfinite, hspecial]
  rfl

/-- Its quotes keep a text constant from being a number. -/
theorem ofText?_quoted (cs : List CodePoint) : ofText? (.ofList (↑ '"' :: cs)) = .ok none := by
  rw [ofText?]
  split
  · next characters h =>
    obtain ⟨cs', rfl⟩ := Text.exists_of_string?_cons h
    exact ofString?_quoted cs'
  · rfl

end Number

theorem Operand.toNumber_of_ofText? {s : Text} {v : Number}
    (h : Number.ofText? s = .ok (some v)) : (text s).toNumber = .ok v := by
  rw [toNumber_text, h]
  rfl

theorem Operand.toNumber_of_ofString? {s : String} {v : Number}
    (h : Number.ofString? s = .ok (some v)) : (text s).toNumber = .ok v :=
  toNumber_of_ofText? ((Number.ofText?_ofString s).trans h)

namespace Engine

/-- A token is a bound of a loop exactly if it is a numeric constant, and is read from its
text as the number that it stands for. -/
theorem bound_eq_ok_iff (token : Token) (v : Number) :
    bound token = .ok v ↔ token.constant? = some v := by
  cases token with
  | integer n =>
    have hwritten : bound (.integer n) =
        Number.writeInteger n >>= fun s => (Operand.text s).toNumber :=
      rfl
    rw [hwritten, Token.constant?]
    split
    · next hlong =>
      rw [Number.writeInteger_of_lt hlong]
      exact ⟨fun h => (by cases h), fun h => (by cases h)⟩
    · next hshort =>
      have hread := Number.ofString?_integerText (Nat.not_lt.1 hshort)
      rw [Number.writeInteger_of_le (Nat.not_lt.1 hshort), except_ok_bind,
        Operand.toNumber_of_ofString? hread, Except.ok.injEq, Option.some.injEq]
  | double x =>
    have hread := Operand.toNumber_of_ofString? (Number.ofString?_doubleText x)
    have hwritten : (Token.double x).written = .ok (Token.doubleText x) := rfl
    rw [bound, hwritten, except_ok_bind, hread, Token.constant?, Except.ok.injEq, Option.some.injEq]
  | text s =>
    have hquoted :
        (Token.text s).canonical = .ofList (↑ '"' :: (Token.escape s ++ "\"").toList) := by
      simp [Token.canonical, ← Text.toList_inj]
    have hwritten : (Token.text s).written = .ok (Token.text s).canonical := rfl
    rw [bound, hwritten, except_ok_bind, Operand.toNumber_text, hquoted, Number.ofText?_quoted]
    exact ⟨fun h => (by cases h), fun h => (by cases h)⟩
  | operator _ | function _ | loopVariable _ =>
    exact ⟨fun h => (by cases h), fun h => (by cases h)⟩

theorem bounds_eq_ok_iff (header : Loop) (start stop step : Number) :
    bounds header = .ok (start, stop, step) ↔ header.range? = some (start, stop, step) := by
  obtain ⟨name, first, last, _ | increment⟩ := header <;>
    simp only [bounds, Loop.range?, except_bind_eq_ok, Option.bind_eq_bind, Option.bind_eq_some_iff,
      bound_eq_ok_iff, pure, Except.pure, Except.ok.injEq, Option.some.injEq]

end Engine

/-! ## Passes -/

namespace Number

/-- The value of a loop variable after so many passes. -/
def counted (start step : Number) (passes : Nat) : Number := (·.plus step)^[passes] start

theorem counted_zero (start step : Number) : start.counted step 0 = start := rfl

theorem counted_succ (start step : Number) (passes : Nat) :
    start.counted step (passes + 1) = (start.plus step).counted step passes := rfl

theorem counted_add (start step : Number) (m n : Nat) :
    start.counted step (m + n) = (start.counted step m).counted step n := by
  rw [counted, Nat.add_comm, Function.iterate_add_apply]
  rfl

/-- The integers of 64 bits counted first, then NaN and the doubles of each sign. -/
def code : Number → Nat
  | integer n => n.toUInt64.toNat
  | double .nan => 18446744073709551616 + 9223372036854775807
  | double (.ranked negative rank _) =>
    18446744073709551616 + (if negative then 9223372036854775808 else 0) + rank

theorem code_lt (v : Number) : v.code < Engine.passLimit := by
  have hlimit : Engine.passLimit = 36893488147419103232 := by decide
  rw [hlimit]
  match v with
  | integer n =>
    have := n.toUInt64.toNat_lt
    simp only [code]
    omega
  | double .nan => decide
  | double (.ranked negative rank bounded) =>
    simp only [code]
    split <;> omega

theorem code_injective : Function.Injective code := by
  intro v w h
  match v, w with
  | integer ⟨m⟩, integer ⟨n⟩ =>
    obtain rfl : m = n := UInt64.toNat_inj.1 h
    rfl
  | integer m, double y =>
    have := m.toUInt64.toNat_lt
    cases y <;> simp only [code] at h <;> omega
  | double x, integer n =>
    have := n.toUInt64.toNat_lt
    cases x <;> simp only [code] at h <;> omega
  | double .nan, double .nan => rfl
  | double .nan, double (.ranked negative rank bounded)
  | double (.ranked negative rank bounded), double .nan =>
    simp only [code] at h
    split at h <;> omega
  | double (.ranked negative rank bounded), double (.ranked negative' rank' bounded') =>
    simp only [code] at h
    cases negative <;> cases negative' <;> simp at h <;> grind

/-- **A loop that ends makes fewer passes than the limit.** If the value went past the stop
only after so many passes, two of the values before would be equal, and the later one would
come to the stop in fewer passes than it is away from it. -/
theorem lt_passLimit {start stop step : Number} {passes : Nat}
    (hbefore : ∀ k < passes, (start.counted step k).order stop ≠ .gt)
    (hafter : (start.counted step passes).order stop = .gt) : passes < Engine.passLimit := by
  by_contra hlong
  obtain ⟨i, hi, j, hj, hne, hcode⟩ := Finset.exists_ne_map_eq_of_card_lt_of_maps_to
    (s := Finset.range (Engine.passLimit + 1)) (t := Finset.range Engine.passLimit)
    (f := fun k => (start.counted step k).code) (by simp only [Finset.card_range]; omega)
    (fun k _ => Finset.mem_coe.2 (Finset.mem_range.2 (code_lt _)))
  have hequal := code_injective hcode
  rw [Finset.mem_range] at hi hj
  wlog hij : i < j generalizing i j
  · exact this j hj i hi hne.symm hcode.symm hequal.symm (by omega)
  obtain ⟨rest, rfl⟩ := Nat.exists_eq_add_of_le (show j ≤ passes by omega)
  refine hbefore (i + rest) (by omega) ?_
  rwa [counted_add, hequal, ← counted_add]

end Number

end TagTemplate
