/-
The bindings of loop variables. A name may be bound many times; the binding made
last counts until it is removed. So each name has a stack of values of its own, and
`stack_push` and `stack_drop` say that no name touches the stack of another.
-/
import TagTemplate.Number.Basic

namespace TagTemplate

/-- All bindings, those made last first. -/
structure Scope where
  bindings : List (Text × Number)

namespace Scope

def empty : Scope := ⟨[]⟩

/-- The values bound to a name, the one that counts first. -/
def stack (s : Scope) (name : Text) : List Number :=
  (s.bindings.filter (·.1 == name)).map (·.2)

def push (s : Scope) (name : Text) (v : Number) : Scope := ⟨(name, v) :: s.bindings⟩

/-- The value that counts for a name. -/
def peek? (s : Scope) (name : Text) : Option Number :=
  (s.bindings.find? (·.1 == name)).map (·.2)

/-- The scope without the binding that counts for a name. -/
def drop (s : Scope) (name : Text) : Scope := ⟨s.bindings.eraseP (·.1 == name)⟩

/-- Removes the binding that counts for a name, if there is one. -/
def pop? (s : Scope) (name : Text) : Option (Number × Scope) :=
  (s.peek? name).map fun v => (v, s.drop name)

def isBound (s : Scope) (name : Text) : Bool := (s.peek? name).isSome

@[simp] theorem stack_push (s : Scope) (x y : Text) (v : Number) :
    (s.push x v).stack y = if x = y then v :: s.stack y else s.stack y := by
  simp only [stack, push, List.filter_cons, beq_iff_eq]
  split <;> rfl

theorem peek?_eq_head? (s : Scope) (name : Text) : s.peek? name = (s.stack name).head? := by
  simp only [peek?, stack, List.head?_map, List.head?_filter]

@[simp] theorem stack_drop (s : Scope) (x y : Text) :
    (s.drop x).stack y = if x = y then (s.stack y).tail else s.stack y := by
  obtain ⟨bindings⟩ := s
  simp only [stack, drop]
  induction bindings with
  | nil => simp
  | cons b bs ih =>
    simp only [List.eraseP_cons, beq_iff_eq, List.filter_cons]
    by_cases hx : b.1 = x <;> by_cases hy : b.1 = y <;> grind

@[simp] theorem drop_push (s : Scope) (name : Text) (v : Number) :
    (s.push name v).drop name = s := by
  simp [push, drop]

/-- What may be asked of a scope. -/
inductive Request where
  | push (name : Text) (v : Number)
  | pop (name : Text)
  | peek (name : Text)
  | isEmpty (name : Text)
  | contains (name : Text)

/-- What a scope answers. -/
inductive Reply where
  | done
  | value (v : Number)
  | flag (b : Bool)
  | fault (f : Fault)
  deriving DecidableEq

/-- One request: a name that is not bound is an error for `pop` and `peek`. -/
def answer (s : Scope) : Request → Reply × Scope
  | .push name v => (.done, s.push name v)
  | .pop name =>
    match s.pop? name with
    | some (v, rest) => (.value v, rest)
    | none => (.fault (.unknownName name), s)
  | .peek name =>
    match s.peek? name with
    | some v => (.value v, s)
    | none => (.fault (.unknownName name), s)
  | .isEmpty name => (.flag (!s.isBound name), s)
  | .contains name => (.flag (s.isBound name), s)

end Scope

end TagTemplate
