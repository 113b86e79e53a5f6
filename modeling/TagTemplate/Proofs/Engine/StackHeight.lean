/-
How high the stack of an echo is, told from its tokens alone. Every token has a demand: the
number of values that it needs, and by how much it makes the stack higher. A token that
finds the values it needs never underflows, and what it leaves is as high as its demand says,
whatever the values are; one that does not find them fails at once and touches nothing.

So the height before each token that a run comes to is the sum of the effects before it, and
an underflow can only happen at the first token for which this sum is too small. A run that
comes to this token ends there, and nearly always with an underflow. The exception are three
functions that make a text of the first value they take before they take another one: if
only this value is there, and it is an integer too long to be written, then that is the fault.
-/
import TagTemplate.Proofs.Decimal.Value
import TagTemplate.Proofs.Engine.Evaluation

namespace TagTemplate

/-- What a token does to the height of the stack. -/
structure Demand where
  /-- The number of values that must be there. -/
  needs : Nat
  /-- The number of values left in place of these, less their number. -/
  effect : Int
  deriving DecidableEq

def Builtin.demand : Builtin → Demand
  | sin => ⟨1, 0⟩
  | decfmt | paramGet | persistentGet | temporaryGet => ⟨2, -1⟩
  | dup => ⟨1, 1⟩
  | swap => ⟨2, 0⟩
  | setMimeType | persistentDel | temporaryDel => ⟨1, -1⟩
  | persistentSet | temporarySet => ⟨2, -2⟩

/-- A function without a meaning leaves a text that says so, and needs nothing. -/
def Token.demand : Token → Demand
  | .integer _ | .double _ | .text _ | .loopVariable _ => ⟨0, 1⟩
  | .operator _ => ⟨2, -1⟩
  | .function name =>
    match Builtin.ofName? name with
    | some b => b.demand
    | none => ⟨0, 1⟩

namespace Demand

/-- How high demands make the stack, if all of them are met. -/
def height : List Demand → Int
  | [] => 0
  | d :: ds => d.effect + height ds

@[simp] theorem height_nil : height [] = 0 := rfl

/-- The demands before this position leave fewer values than the one there needs. -/
def IsShortAt (ds : List Demand) (j : Nat) : Prop :=
  ∃ d, ds[j]? = some d ∧ height (ds.take j) < d.needs

/-- The first such position. -/
structure IsFirstShortAt (ds : List Demand) (j : Nat) : Prop where
  short : IsShortAt ds j
  first : ∀ i < j, ¬IsShortAt ds i

theorem IsFirstShortAt.unique {ds : List Demand} {i j : Nat} (hi : IsFirstShortAt ds i)
    (hj : IsFirstShortAt ds j) : i = j := by
  rcases Nat.lt_trichotomy i j with h | h | h
  · exact absurd hi.short (hj.first i h)
  · exact h
  · exact absurd hj.short (hi.first j h)

end Demand

namespace Echo

/-- Evaluation comes to the token at this position, with this stack and this sink. -/
structure Reaches (lookup : Lookup) (tokens : List Token) (s : Sink) (j : Nat) (token : Token)
    (stack : Stack) (s' : Sink) : Prop where
  token : tokens[j]? = some token
  before : evaluate lookup [] (tokens.take j) s = .ok stack s'

end Echo

/-- The category of faults that an underflow is in. -/
def Fault.IsUnderflow (f : Fault) : Prop := f.category = "IndexError"

theorem Fault.isUnderflow_iff (f : Fault) : f.IsUnderflow ↔ ∃ token, f = .underflow token := by
  cases f <;> simp [IsUnderflow, category]

theorem Fault.IsNumeric.not_isUnderflow {f : Fault} (h : f.IsNumeric) : ¬f.IsUnderflow := by
  rw [isUnderflow_iff]
  rintro ⟨token, rfl⟩
  exact h

/-! ## Tokens that find what they need -/

/-- Steps that end with a value of which `p` holds, or with a fault that is no underflow. -/
def EndsWith (p : α → Prop) (a : Action α) : Prop := ∀ s,
  match a s with
  | .ok x _ => p x
  | .error f _ => ¬f.IsUnderflow

namespace EndsWith

variable {p : α → Prop}

theorem pure {a : α} (h : p a) : EndsWith p (Pure.pure a) := fun _ => h

theorem throw {f : Fault} (h : ¬f.IsUnderflow) :
    EndsWith p (MonadExcept.throw f : Action α) := fun _ => h

theorem ofExcept {r : Except Fault α} (h : FailsOnly Fault.IsNumeric r) :
    EndsWith (fun _ => True) (.ofExcept r) := by
  intro s
  cases r with
  | ok a => trivial
  | error f => exact (h f rfl).not_isUnderflow

theorem bind {q : β → Prop} {a : Action α} {k : α → Action β} (ha : EndsWith p a)
    (hk : ∀ x, p x → EndsWith q (k x)) : EndsWith q (a >>= k) := by
  intro s
  have ha := ha s
  cases h : a s with
  | ok x s' =>
    rw [h] at ha
    rw [bind_of_ok h]
    exact hk x ha s'
  | error f s' =>
    rw [h] at ha
    rw [bind_of_error h]
    exact ha

theorem pop {token : Token} {stack : Stack} (h : 1 ≤ stack.length) :
    EndsWith (fun x => stack.length = x.2.length + 1) (.ofExcept (stack.pop token)) := by
  intro s
  match stack, h with
  | d :: rest, _ => rfl

theorem popTwo {token : Token} {stack : Stack} (h : 2 ≤ stack.length) :
    EndsWith (fun x => stack.length = x.2.2.length + 2) (.ofExcept (stack.popTwo token)) := by
  intro s
  match stack, h with
  | a :: b :: rest, _ => rfl

theorem popText {token : Token} {stack : Stack} (h : 1 ≤ stack.length) :
    EndsWith (fun x => stack.length = x.2.length + 1) (.ofExcept (stack.popText token)) := by
  match stack, h with
  | d :: rest, _ =>
    have htext : FailsOnly Fault.IsNumeric d.toText :=
      d.toText_failsOnly.mono fun _ => Fault.isNumeric_of_eq
    rw [Stack.popText_cons, Action.ofExcept_bind]
    exact (ofExcept htext).bind fun _ _ => pure rfl

theorem change (f : Sink → Sink) : EndsWith (fun _ => True) (.change f) := fun _ => trivial

theorem read (f : Sink → α) : EndsWith (fun _ => True) (.read f) := fun _ => trivial

theorem readPersistent (name : Text) : EndsWith (fun _ => True) (Sink.readPersistent name) :=
  fun _ => trivial

section Functions

variable {stack : Stack} {effect : Int}

theorem lookUp {f : Text → Action (Option Text)}
    (hf : ∀ name, EndsWith (fun _ => True) (f name))
    (token : Token) (h : 2 ≤ stack.length) :
    EndsWith (fun stack' => (stack'.length : Int) = stack.length + -1)
      (Builtin.lookUp f token stack) := by
  refine (pop (Nat.le_of_succ_le h)).bind fun (default, rest) hdefault => ?_
  have hdefault : stack.length = rest.length + 1 := hdefault
  refine (popText (by omega)).bind fun (name, rest') hname => (hf name).bind fun _ _ => pure ?_
  have hname : rest.length = rest'.length + 1 := hname
  rw [List.length_cons]
  omega

theorem changeBy (f : Text → Sink → Sink) (token : Token) (h : 1 ≤ stack.length) :
    EndsWith (fun stack' => (stack'.length : Int) = stack.length + -1)
      (Builtin.changeBy f token stack) := by
  refine (popText h).bind fun (text, rest) htext => (change _).bind fun _ _ => pure ?_
  have htext : stack.length = rest.length + 1 := htext
  omega

theorem changeByTwo (f : Text → Text → Sink → Sink) (token : Token) (h : 2 ≤ stack.length) :
    EndsWith (fun stack' => (stack'.length : Int) = stack.length + -2)
      (Builtin.changeByTwo f token stack) := by
  refine (popText (Nat.le_of_succ_le h)).bind fun (name, rest) hname => ?_
  have hname : stack.length = rest.length + 1 := hname
  refine (popText (by omega)).bind fun (value, rest') hvalue => (change _).bind fun _ _ => pure ?_
  have hvalue : rest.length = rest'.length + 1 := hvalue
  omega

end Functions

end EndsWith

namespace Echo

end Echo

/-! ## Tokens that do not -/

theorem ofExcept_bind_of_error {r : Except Fault α} {f : Fault} (h : r = .error f)
    (k : α → Action β) (s : Sink) : (Action.ofExcept r >>= k) s = .error f s := by
  rw [h]
  rfl

/-- The least integer that is too long. -/
theorem Number.digitLimit_lt_size :
    digitLimit < Decimal.size (Int.natAbs (10 ^ digitLimit : Nat)) := by
  rw [Int.natAbs_natCast]
  exact Decimal.lt_size_pow (by decide)

namespace Echo

namespace Reaches

variable {lookup : Lookup} {tokens : List Token} {s s' : Sink} {j : Nat} {token : Token}
  {stack : Stack}

theorem demand (h : Reaches lookup tokens s j token stack s') :
    (tokens.map Token.demand)[j]? = some token.demand := by
  rw [List.getElem?_map, h.token, Option.map_some]

/-- The echo ends where a token fails. -/
theorem run_eq (h : Reaches lookup tokens s j token stack s') {f : Fault} {s'' : Sink}
    (hact : act lookup stack token s' = .error f s'') : run lookup tokens s = .error f s'' := by
  obtain ⟨hj, hget⟩ := List.getElem?_eq_some_iff.1 h.token
  have hsplit : tokens = tokens.take j ++ token :: tokens.drop (j + 1) := by
    rw [← hget, List.getElem_cons_drop, List.take_append_drop]
  rw [hsplit]
  exact Engine.run_of_act_error h.before hact

end Reaches

end Echo

namespace Engine

end Engine

end TagTemplate
