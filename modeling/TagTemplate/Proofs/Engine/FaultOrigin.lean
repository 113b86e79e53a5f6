/-
Where the faults of a run come from. Reading, computing and formatting numbers fail with
faults of their own kind (`Fault.IsNumeric`), a token fails besides with an underflow
of the stack or, if it is a loop variable, for want of a binding, and a loop header
fails with a numeric fault or one that names a bound.
-/
import TagTemplate.Engine.Basic

namespace TagTemplate

/-- A fault of reading, computing or formatting a number. -/
def Fault.IsNumeric : Fault → Prop
  | .notNumeric _ | .tooManyDigits _ | .integerTooLong | .specialNumber _ | .unknownOperator _
  | .divisionByZero | .malformedPattern _ | .sineOfInfinity | .precision => True
  | _ => False

/-- Every fault that a computation can end with has the property. -/
def FailsOnly (p : Fault → Prop) (r : Except Fault α) : Prop := ∀ f, r = .error f → p f

namespace FailsOnly

variable {p q : Fault → Prop}

theorem ok (a : α) : FailsOnly p (.ok a) := fun _ h => nomatch h

theorem error {f : Fault} (h : p f) : FailsOnly p (.error f : Except Fault α) := by
  rintro g ⟨⟩
  exact h

theorem bind {r : Except Fault α} {k : α → Except Fault β} (hr : FailsOnly p r)
    (hk : ∀ a, FailsOnly p (k a)) : FailsOnly p (r >>= k) := by
  cases r with
  | ok a => exact hk a
  | error f => exact .error (hr f rfl)

theorem map {r : Except Fault α} (k : α → β) (hr : FailsOnly p r) : FailsOnly p (k <$> r) := by
  cases r with
  | ok a => exact .ok (k a)
  | error f => exact .error (hr f rfl)

theorem mono {r : Except Fault α} (hr : FailsOnly p r) (h : ∀ f, p f → q f) : FailsOnly q r :=
  fun f hf => h f (hr f hf)

end FailsOnly

/-! ## Numbers -/

namespace Number

theorem writeInteger_failsOnly (n : Int) : FailsOnly (· = .integerTooLong) (writeInteger n) := by
  simp only [writeInteger]
  split
  · exact .error rfl
  · exact .ok _

theorem readInteger?_failsOnly (s : String) : FailsOnly Fault.IsNumeric (readInteger? s) := by
  simp only [readInteger?]
  split
  · exact .ok none
  · split
    · exact .error trivial
    · exact .ok _

theorem readSpecial?_failsOnly (s : String) : FailsOnly Fault.IsNumeric (readSpecial? s) := by
  simp only [readSpecial?]
  split
  · exact .ok none
  · split
    · exact .error trivial
    · exact .ok _

theorem readDouble?_failsOnly (s : String) : FailsOnly Fault.IsNumeric (readDouble? s) := by
  simp only [readDouble?]
  split
  · exact .ok _
  · exact readSpecial?_failsOnly s

theorem ofString?_failsOnly (s : String) : FailsOnly Fault.IsNumeric (ofString? s) := by
  refine .bind (.map _ (readInteger?_failsOnly s)) fun n? => ?_
  split
  · exact .ok _
  · exact .bind (readDouble?_failsOnly s) fun _ => .ok _

theorem ofText?_failsOnly (s : Text) : FailsOnly Fault.IsNumeric (ofText? s) := by
  rw [ofText?]
  split
  · exact ofString?_failsOnly _
  · exact .ok _

theorem apply_failsOnly (op : Operation) (a b : Number) :
    FailsOnly Fault.IsNumeric (apply op a b) := by
  simp only [apply]
  split
  · refine .map _ ?_
    cases op with
    | add | sub | mul => exact .ok _
    | div =>
      simp only [applyIntegers]
      split
      · exact .error trivial
      · exact .ok _
  · exact .ok _

end Number

theorem Fault.isNumeric_of_eq {f : Fault} (h : f = .integerTooLong) : f.IsNumeric := by
  rw [h]
  trivial

namespace Operand

mutual

theorem shown_failsOnly : ∀ o : Operand, FailsOnly (· = .integerTooLong) o.shown
  | integer n => Number.writeInteger_failsOnly n
  | list members => .bind (shownAll_failsOnly members) fun _ => .ok _
  | none | bool _ | double _ | text _ | number _ => .ok _

theorem shownAll_failsOnly : ∀ os : List Operand, FailsOnly (· = .integerTooLong) (shownAll os)
  | [] => .ok []
  | o :: os => .bind o.shown_failsOnly fun _ => .bind (shownAll_failsOnly os) fun _ => .ok _

end

theorem toText_failsOnly (o : Operand) : FailsOnly (· = .integerTooLong) o.toText := by
  cases o with
  | text | number => exact .ok _
  | none | bool | integer | double | list => exact shown_failsOnly _

theorem toNumber_failsOnly (o : Operand) : FailsOnly Fault.IsNumeric o.toNumber := by
  cases o with
  | none | number _ | double _ => exact .ok _
  | integer n =>
    simp only [toNumber]
    split
    · exact .ok _
    · exact .bind ((Number.writeInteger_failsOnly n).mono fun _ => Fault.isNumeric_of_eq)
        fun _ => .ok _
  | bool _ | text _ | list _ =>
    refine .bind ((toText_failsOnly _).mono fun _ => Fault.isNumeric_of_eq) fun s =>
      .bind (Number.ofText?_failsOnly s) fun v? => ?_
    cases v? with
    | some v => exact .ok v
    | none =>
      refine .bind ?_ fun _ => .error trivial
      exact (shown_failsOnly _).mono fun _ => Fault.isNumeric_of_eq

end Operand

theorem Datum.toText_failsOnly (d : Datum) : FailsOnly (· = .integerTooLong) d.toText :=
  d.operand.toText_failsOnly

theorem Number.operate_failsOnly (left : Operand) (symbol : Text) (right : Operand) :
    FailsOnly Fault.IsNumeric (operate left symbol right) := by
  refine .bind left.toNumber_failsOnly fun a => ?_
  split
  · exact .bind right.toNumber_failsOnly fun b => apply_failsOnly _ a b
  · exact .error trivial

/-! ## Formatting -/

namespace Pattern

theorem compile_failsOnly (s : Text) : FailsOnly Fault.IsNumeric (compile s) := by
  simp only [compile]
  split
  · exact .ok _
  · split
    · exact .ok _
    · exact .error trivial

theorem places_failsOnly (p : Pattern) (d : Decimal) :
    FailsOnly Fault.IsNumeric (p.places d) := by
  simp only [places]
  split
  · exact .error trivial
  · exact .ok _

theorem body_failsOnly (p : Pattern) (d : Decimal) : FailsOnly Fault.IsNumeric (p.body d) := by
  simp only [body]
  split
  · exact .bind (places_failsOnly p _) fun _ => .ok _
  · refine .bind (places_failsOnly p _) fun (whole, fraction) => ?_
    simp only
    split
    · exact .bind (places_failsOnly p _) fun _ => .ok _
    · exact .ok _

theorem format_failsOnly (p : Pattern) (v : Number) : FailsOnly Fault.IsNumeric (p.format v) := by
  cases v with
  | integer n => exact .map _ (body_failsOnly p _)
  | double x =>
    cases x with
    | nan => exact .ok _
    | ranked negative rank bounded =>
      simp only [format, formatDouble]
      split
      · exact .ok _
      · split
        · exact .map _ (body_failsOnly p _)
        · exact .map _ (body_failsOnly p _)

end Pattern

namespace Builtin

theorem sine_failsOnly (d : Datum) : FailsOnly Fault.IsNumeric (sine d) := by
  refine .bind d.operand.toNumber_failsOnly fun v => ?_
  split
  · exact .ok _
  · exact .error trivial

theorem formatted_failsOnly (value : Datum) (pattern : Text) :
    FailsOnly Fault.IsNumeric (formatted value pattern) :=
  .bind value.operand.toNumber_failsOnly fun v =>
    .bind (Pattern.compile_failsOnly pattern) fun p =>
      .bind (Pattern.format_failsOnly p v) fun _ => .ok _

end Builtin

/-! ## Tokens -/

/-- A fault that evaluating a token may end with: a numeric one, an underflow at the token,
or that a loop variable has no binding. -/
def Token.CausesFault (lookup : Echo.Lookup) (token : Token) (f : Fault) : Prop :=
  f.IsNumeric ∨ f = .underflow token.canonical ∨
    ∃ name, token = .loopVariable name ∧ lookup name = none ∧ f = .unknownName name

theorem Stack.pop_failsOnly (token : Token) (stack : Stack) :
    FailsOnly (· = .underflow token.canonical) (stack.pop token) := by
  cases stack with
  | nil => exact .error rfl
  | cons d rest => exact .ok _

theorem Stack.popText_failsOnly (token : Token) (stack : Stack) :
    FailsOnly (fun f => f.IsNumeric ∨ f = .underflow token.canonical) (stack.popText token) :=
  .bind ((stack.pop_failsOnly token).mono fun _ => .inr) fun (d, _) =>
    .bind (d.toText_failsOnly.mono fun _ h => .inl (Fault.isNumeric_of_eq h)) fun _ => .ok _

theorem Stack.popTwo_failsOnly (token : Token) (stack : Stack) :
    FailsOnly (· = .underflow token.canonical) (stack.popTwo token) := by
  unfold popTwo
  split
  · exact .ok _
  · exact .error rfl

/-- The same for steps that may act on a sink. -/
def ActsOrFailsOnly (p : Fault → Prop) (a : Action α) : Prop :=
  ∀ sink f sink', a sink = .error f sink' → p f

namespace ActsOrFailsOnly

variable {p : Fault → Prop}

theorem pure (a : α) : ActsOrFailsOnly p (Pure.pure a) := fun _ _ _ h => nomatch h

theorem throw {f : Fault} (h : p f) : ActsOrFailsOnly p (MonadExcept.throw f : Action α) := by
  rintro _ _ _ ⟨⟩
  exact h

theorem ofExcept {r : Except Fault α} (h : FailsOnly p r) : ActsOrFailsOnly p (.ofExcept r) := by
  intro sink f sink' hf
  simp only [Action.ofExcept] at hf
  split at hf
  · cases hf
  · cases hf
    exact h _ rfl

theorem change (f : Sink → Sink) : ActsOrFailsOnly p (.change f) := fun _ _ _ h => nomatch h

theorem read (f : Sink → α) : ActsOrFailsOnly p (.read f) := fun _ _ _ h => nomatch h

theorem bind {a : Action α} {k : α → Action β} (ha : ActsOrFailsOnly p a)
    (hk : ∀ x, ActsOrFailsOnly p (k x)) : ActsOrFailsOnly p (a >>= k) := by
  intro sink f sink' h
  simp only [Bind.bind, EStateM.bind] at h
  split at h
  · exact hk _ _ _ _ h
  · next heq =>
    cases h
    exact ha _ _ _ heq

end ActsOrFailsOnly

theorem Builtin.call_failsOnly (lookup : Echo.Lookup) (token : Token) (stack : Stack)
    (b : Builtin) : ActsOrFailsOnly (token.CausesFault lookup) (b.call token stack) := by
  have hpop (stack : Stack) : FailsOnly (token.CausesFault lookup) (stack.pop token) :=
    (stack.pop_failsOnly token).mono fun _ h => .inr (.inl h)
  have hpopTwo : FailsOnly (token.CausesFault lookup) (stack.popTwo token) :=
    (stack.popTwo_failsOnly token).mono fun _ h => .inr (.inl h)
  have hpopText (stack : Stack) : FailsOnly (token.CausesFault lookup) (stack.popText token) :=
    (stack.popText_failsOnly token).mono fun _ h => h.imp_right .inl
  cases b with
  | sin =>
    refine .ofExcept (.bind (hpop _) fun (x, rest) => .bind ?_ fun _ => .ok _)
    exact (sine_failsOnly x).mono fun _ => .inl
  | decfmt =>
    refine .ofExcept (.bind (hpopText _) fun (pattern, rest) =>
      .bind (hpop rest) fun (value, rest) =>
      .bind ?_ fun _ => .ok _)
    exact (formatted_failsOnly value pattern).mono fun _ => .inl
  | dup => exact .ofExcept (.bind (hpop _) fun _ => .ok _)
  | swap => exact .ofExcept (.bind hpopTwo fun _ => .ok _)
  | setMimeType | persistentDel | temporaryDel =>
    exact .bind (.ofExcept (hpopText _)) fun _ => .bind (.change _) fun _ => .pure _
  | paramGet | temporaryGet =>
    exact .bind (.ofExcept (hpop _)) fun (_, rest) => .bind (.ofExcept (hpopText rest)) fun _ =>
      .bind (.read _) fun _ => .pure _
  | persistentGet =>
    exact .bind (.ofExcept (hpop _)) fun (_, rest) => .bind (.ofExcept (hpopText rest)) fun _ =>
      .bind (fun _ _ _ h => nomatch h) fun _ => .pure _
  | persistentSet | temporarySet =>
    exact .bind (.ofExcept (hpopText _)) fun (_, rest) => .bind (.ofExcept (hpopText rest)) fun _ =>
      .bind (.change _) fun _ => .pure _

theorem Echo.act_failsOnly (lookup : Echo.Lookup) (stack : Stack) (token : Token) :
    ActsOrFailsOnly (token.CausesFault lookup) (act lookup stack token) := by
  cases token with
  | integer n => exact .pure _
  | double x => exact .pure _
  | text s => exact .pure _
  | loopVariable name =>
    simp only [act]
    split
    · exact .pure _
    · next h => exact .throw (.inr (.inr ⟨name, rfl, h, rfl⟩))
  | operator symbol =>
    refine .bind (.ofExcept ?_) fun (right, left, rest) => .bind (.ofExcept ?_) fun _ => .pure _
    · exact (stack.popTwo_failsOnly _).mono fun _ h => .inr (.inl h)
    · exact (Number.operate_failsOnly left.operand symbol right.operand).mono fun _ => .inl
  | function name =>
    simp only [act]
    split
    · exact Builtin.call_failsOnly lookup _ stack _
    · exact .pure _

/-! ## Loop headers -/

/-- A fault of a loop header: a bound is no number, or no constant at all. -/
def Loop.CausesFault (f : Fault) : Prop := f.IsNumeric ∨ ∃ token, f = .loopBound token

theorem Token.written_failsOnly (token : Token) :
    FailsOnly (· = .integerTooLong) token.written := by
  cases token with
  | integer n => exact Number.writeInteger_failsOnly n
  | operator | function | loopVariable | double | text => exact .ok _

theorem Engine.bound_failsOnly (token : Token) : FailsOnly Loop.CausesFault (bound token) := by
  have hconstant : FailsOnly Loop.CausesFault
      (do (Operand.text (← token.written)).toNumber : Except Fault Number) :=
    .bind (token.written_failsOnly.mono fun _ h => .inl (Fault.isNumeric_of_eq h)) fun _ =>
      (Operand.toNumber_failsOnly _).mono fun _ => .inl
  unfold bound
  split
  · exact hconstant
  · exact hconstant
  · exact hconstant
  · exact .error (.inr ⟨_, rfl⟩)

theorem Engine.bounds_failsOnly (header : Loop) :
    FailsOnly Loop.CausesFault (bounds header) := by
  refine .bind (bound_failsOnly _) fun start => .bind (bound_failsOnly _) fun stop => ?_
  split
  · exact .bind (.ok _) fun step => .ok _
  · exact .bind (bound_failsOnly _) fun step => .ok _

end TagTemplate
