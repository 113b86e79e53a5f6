/-
What the operators make of two integers. Each gives the exact result, wrapped to 64 bits: the one
integer of 64 bits that differs from it by a multiple of `2^64`. To wrap after every operator
or once at the end comes to the same, so sums and products of any depth may overflow on the way.

Only division is no operation modulo `2^64`. It goes toward zero, and the one quotient that
has no 64 bits is that of the least integer by minus one.
-/
import Mathlib.Data.Int.ModEq
import Mathlib.Tactic.Ring
import TagTemplate.Operand

namespace TagTemplate

/-! ## Wrapped integers -/

/-- The integer `n` of 64 bits is what `x` wraps to. -/
structure IsWrapped (x n : Int) : Prop where
  lower : -2 ^ 63 ≤ n
  upper : n < 2 ^ 63
  congruent : n ≡ x [ZMOD 2 ^ 64]

theorem IsWrapped.unique {x m n : Int} (hm : IsWrapped x m) (hn : IsWrapped x n) : m = n := by
  have hmod : m % 2 ^ 64 = n % 2 ^ 64 := hm.congruent.trans hn.congruent.symm
  have := hm.lower
  have := hm.upper
  have := hn.lower
  have := hn.upper
  omega

theorem isWrapped_wrap (x : Int) : IsWrapped x (Number.wrap x).toInt where
  lower := Int64.le_toInt _
  upper := Int64.toInt_lt _
  congruent := by
    rw [Number.wrap, Int64.toInt_ofInt]
    exact Int.bmod_emod

theorem isWrapped_iff {x n : Int} : IsWrapped x n ↔ n = (Number.wrap x).toInt := by
  constructor
  · intro h
    exact h.unique (isWrapped_wrap x)
  · rintro rfl
    exact isWrapped_wrap x

/-! ## Quotients -/

/-- The quotient of `a` by `b` toward zero: what it leaves of `a` is smaller than `b`, and has
the sign of `a`. -/
def IsQuotient (a b q : Int) : Prop := ∃ r, a = q * b + r ∧ |r| < |b| ∧ (r = 0 ∨ r.sign = a.sign)

theorem isQuotient_tdiv (a : Int) {b : Int} (hb : b ≠ 0) : IsQuotient a b (a.tdiv b) := by
  refine ⟨a.tmod b, ?_, ?_, ?_⟩
  · rw [Int.mul_comm]
    exact (Int.mul_tdiv_add_tmod a b).symm
  · rw [Int.abs_eq_natAbs, Int.abs_eq_natAbs, Int.natAbs_tmod]
    exact_mod_cast Nat.mod_lt _ (Int.natAbs_pos.2 hb)
  · rw [Int.sign_tmod]
    by_cases hdvd : b ∣ a
    · exact .inl (Int.tmod_eq_zero_of_dvd hdvd)
    · exact .inr (if_neg hdvd)

theorem isQuotient_iff {a b q : Int} (hb : b ≠ 0) : IsQuotient a b q ↔ q = a.tdiv b := by
  constructor
  · rintro ⟨r, hsum, hsmall, hsign⟩
    rw [Int.abs_eq_natAbs, Int.abs_eq_natAbs] at hsmall
    have hsum : r + b * q = a := by rw [hsum]; ring
    rcases Int.le_total 0 a with ha | ha
    · have hr : 0 ≤ r := by
        rcases hsign with rfl | hsign
        · exact Int.le_refl 0
        · exact Int.sign_nonneg_iff.1 (hsign ▸ Int.sign_nonneg_iff.2 ha)
      exact ((Int.tdiv_tmod_unique ha hb).2 ⟨hsum, hr, by omega⟩).1.symm
    · have hr : r ≤ 0 := by
        rcases hsign with rfl | hsign
        · exact Int.le_refl 0
        · exact Int.sign_nonpos_iff.1 (hsign ▸ Int.sign_nonpos_iff.2 ha)
      exact ((Int.tdiv_tmod_unique' ha hb).2 ⟨hsum, by omega, hr⟩).1.symm
  · rintro rfl
    exact isQuotient_tdiv a hb

/-! ## Operators -/

namespace Operation

/-- What an operation makes of integers of any size. -/
def exact : Operation → Int → Int → Int
  | add => (· + ·)
  | sub => (· - ·)
  | mul => (· * ·)
  | div => Int.tdiv

/-- Whether an operation can be done modulo any number. -/
def isModular : Operation → Bool
  | add | sub | mul => true
  | div => false

end Operation

namespace Number

theorem operate_number (op : Operation) (a b : Number) :
    operate (.number a) op.symbol (.number b) = apply op a b := by
  cases op <;> rfl

/-- The exact result, wrapped, unless zero divides. -/
theorem apply_integer {op : Operation} {a b : Int64} (h : op = .div → b ≠ 0) :
    apply op (integer a) (integer b) = .ok (integer (wrap (op.exact a.toInt b.toInt))) := by
  have hwrap : applyIntegers op a b = .ok (wrap (op.exact a.toInt b.toInt)) := by
    cases op with
    | add => simp only [applyIntegers, Operation.exact, wrap, Int64.ofInt_add, Int64.ofInt_toInt]
    | sub => simp only [applyIntegers, Operation.exact, wrap, Int64.ofInt_sub, Int64.ofInt_toInt]
    | mul => simp only [applyIntegers, Operation.exact, wrap, Int64.ofInt_mul, Int64.ofInt_toInt]
    | div =>
      have hquotient : wrap (a.toInt.tdiv b.toInt) = a / b := by
        rw [wrap, Int64.ofInt_eq_iff_bmod_eq_toInt, Int64.toInt_div]
      simp only [applyIntegers, Operation.exact, hquotient, if_neg (h rfl)]
  rw [apply, hwrap]
  rfl

theorem apply_div_zero (a : Int64) :
    apply .div (integer a) (integer 0) = .error .divisionByZero := rfl

/-- Only the quotient of the least integer by minus one overflows. -/
theorem toInt_wrap_tdiv {a b : Int64} (h : ¬(a.toInt = -2 ^ 63 ∧ b.toInt = -1)) :
    (wrap (a.toInt.tdiv b.toInt)).toInt = a.toInt.tdiv b.toInt := by
  have hquotient : (wrap (a.toInt.tdiv b.toInt)).toInt = (a / b).toInt := by
    rw [wrap, Int64.toInt_ofInt, Int64.toInt_div]
  rw [hquotient]
  by_cases ha : a = Int64.minValue
  · refine Int64.toInt_div_of_ne_right a b ?_
    rintro rfl
    exact h ⟨by rw [ha]; rfl, rfl⟩
  · exact Int64.toInt_div_of_ne_left a b ha

end Number

/-! ## Expressions -/

/-- An expression over integers, without divisions. -/
inductive Formula where
  | integer (n : Int64)
  | operation (op : Operation) (modular : op.isModular = true) (left right : Formula)

namespace Formula

/-- The value as an echo finds it, operator by operator. -/
def eval : Formula → Except Fault Number
  | integer n => .ok (.integer n)
  | operation op _ left right => do
    let a ← left.eval
    let b ← right.eval
    Number.operate (.number a) op.symbol (.number b)

/-- The value in integers of any size. -/
def exact : Formula → Int
  | integer n => n.toInt
  | operation op _ left right => op.exact left.exact right.exact

/-- To wrap the operands of an operation changes its result by a multiple of `2^64`. -/
theorem wrap_exact_wrap {op : Operation} (modular : op.isModular = true) (x y : Int) :
    Number.wrap (op.exact (Number.wrap x).toInt (Number.wrap y).toInt) =
      Number.wrap (op.exact x y) := by
  cases op with
  | add => simp only [Operation.exact, Number.wrap, Int64.ofInt_add, Int64.ofInt_toInt]
  | sub => simp only [Operation.exact, Number.wrap, Int64.ofInt_sub, Int64.ofInt_toInt]
  | mul => simp only [Operation.exact, Number.wrap, Int64.ofInt_mul, Int64.ofInt_toInt]
  | div => cases modular

/-- **To wrap at every operator is to wrap once.** -/
theorem eval_eq (t : Formula) : t.eval = .ok (.integer (Number.wrap t.exact)) := by
  induction t with
  | integer n => simp only [eval, exact, Number.wrap, Int64.ofInt_toInt]
  | operation op modular left right ihl ihr =>
    have hdiv : op = .div → Number.wrap right.exact ≠ 0 := by
      rintro rfl
      cases modular
    simp only [eval, ihl, ihr, bind, Except.bind]
    rw [Number.operate_number, Number.apply_integer hdiv, wrap_exact_wrap modular, exact]

end Formula

namespace Number

/-- The numbers that there can be: made from raw ones, read from operands of any kind, and
computed from such numbers and operands. -/
inductive Reachable : Number → Prop
  | raw {o : Operand} {v : Number} : o.raw = .ok v → Reachable v
  | read {o : Operand} {v : Number} : (∀ w, o = .number w → Reachable w) → o.toNumber = .ok v →
      Reachable v
  | operate {a v : Number} {symbol : String} {o : Operand} : Reachable a →
      (∀ w, o = .number w → Reachable w) → operate (.number a) symbol o = .ok v → Reachable v

/-- An integer among the `2^64` from `-2^63` on, or a double. -/
def HasRange : Number → Prop
  | integer n => -2 ^ 63 ≤ n.toInt ∧ n.toInt ≤ 2 ^ 63 - 1
  | double _ => True

/-- The type of numbers has no others. -/
theorem Reachable.hasRange {v : Number} (_ : Reachable v) : v.HasRange := by
  cases v with
  | integer n => exact ⟨n.le_toInt, Int.le_sub_one_of_lt n.toInt_lt⟩
  | double x => trivial

/-- **Integers are computed modulo `2^64`.** Sums, differences and products of integers are the
exact ones wrapped, also those of whole expressions that are evaluated operator by operator.
A quotient is the exact one toward zero, but that of the least integer by minus one, which is
the least integer again; and only division by zero fails. A raw integer of any size wraps
when it is made a number, and no number that there can be holds any other integer than one
of 64 bits. -/
theorem integer_arithmetic :
    (∀ (op : Operation) (a b : Int64), op.isModular = true →
      ∃ n : Int64,
        operate (.number (.integer a)) op.symbol (.number (.integer b)) = .ok (.integer n) ∧
        ∀ m, IsWrapped (op.exact a.toInt b.toInt) m ↔ m = n.toInt) ∧
    (∀ a b : Int64,
      (∀ f, operate (.number (.integer a)) "/" (.number (.integer b)) = .error f ↔
        b = 0 ∧ f = .divisionByZero) ∧
      (b ≠ 0 → ∃ q : Int64,
        operate (.number (.integer a)) "/" (.number (.integer b)) = .ok (.integer q) ∧
          if a.toInt = -2 ^ 63 ∧ b.toInt = -1 then q.toInt = -2 ^ 63
          else ∀ m, IsQuotient a.toInt b.toInt m ↔ m = q.toInt)) ∧
    (∀ t : Formula, ∃ n : Int64, t.eval = .ok (.integer n) ∧
      ∀ m, IsWrapped t.exact m ↔ m = n.toInt) ∧
    (∀ x : Int, ∃ n : Int64, (Operand.integer x).raw = .ok (.integer n) ∧
      ∀ m, IsWrapped x m ↔ m = n.toInt) ∧
    ∀ v, Reachable v → v.HasRange := by
  refine ⟨fun op a b hop => ?_, fun a b => ?_, fun t => ⟨_, t.eval_eq, fun m => isWrapped_iff⟩,
    fun x => ⟨_, rfl, fun m => isWrapped_iff⟩, fun v hv => hv.hasRange⟩
  · have hdiv : op = .div → b ≠ 0 := by
      rintro rfl
      cases hop
    rw [operate_number, apply_integer hdiv]
    exact ⟨_, rfl, fun m => isWrapped_iff⟩
  · have hsymbol := operate_number .div (.integer a) (.integer b)
    rw [Operation.symbol] at hsymbol
    rw [hsymbol]
    by_cases hb : b = 0
    · subst hb
      rw [apply_div_zero]
      refine ⟨fun f => ?_, fun h => absurd rfl h⟩
      rw [Except.error.injEq, eq_comm]
      exact (and_iff_right rfl).symm
    · rw [apply_integer fun _ => hb]
      refine ⟨fun f => ⟨fun h => (by cases h), fun h => absurd h.1 hb⟩, fun _ => ⟨_, rfl, ?_⟩⟩
      have hb : b.toInt ≠ 0 := fun h => hb (Int64.toInt_inj.1 h)
      split
      · next hmin =>
        rw [hmin.1, hmin.2]
        rfl
      · next hmin =>
        intro m
        rw [Operation.exact, toInt_wrap_tdiv hmin]
        exact isQuotient_iff hb

/-- The greatest integer plus one, squared: both operators overflow. And the one quotient that
does. -/
theorem integer_arithmetic_overflow :
    let greatest : Int64 := Int64.maxValue
    let sum : Formula := .operation .add rfl (.integer greatest) (.integer 1)
    let square : Formula := .operation .mul rfl sum sum
    (∃ n : Int64, square.eval = .ok (.integer n) ∧ ∀ m, IsWrapped (2 ^ 126) m ↔ m = n.toInt) ∧
      (-1 : Int64) ≠ 0 ∧
      ∃ q : Int64, operate (.number (.integer Int64.minValue)) "/" (.number (.integer (-1))) =
        .ok (.integer q) ∧ q.toInt = -2 ^ 63 := by
  intro greatest sum square
  have hne : (-1 : Int64) ≠ 0 := by decide
  have hexact : square.exact = 2 ^ 126 := by decide
  obtain ⟨q, hq, hmin⟩ := (integer_arithmetic.2.1 Int64.minValue (-1)).2 hne
  exact ⟨hexact ▸ integer_arithmetic.2.2.1 square, hne, q, hq, hmin⟩

end Number

end TagTemplate
