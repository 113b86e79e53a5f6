/-
Running a tree on a sink. Loop variables live in a scope; whether a loop's body ends
well or fails, the scope is afterwards what it was before.

A loop need not end, so runs have a limit on the passes of each loop. A run that
meets the limit has no result of its own, and with the limit `passLimit` it is one
that would never end.
-/
import TagTemplate.Engine.Echo
import TagTemplate.Node.Parser
import TagTemplate.Scope

namespace TagTemplate

/-- What runs a tree: the sink, the bindings of loop variables, and how many loops are
open. -/
structure Engine where
  sink : Sink
  scope : Scope
  depth : Nat

/-- Why a run stops before its end. -/
inductive Halt where
  | fault (f : Fault)
  /-- A loop has made all the passes it may make. -/
  | passLimit
  deriving DecidableEq

/-- Steps of an engine; what they did before they stopped stays. -/
abbrev Run := EStateM Halt Engine

namespace Engine

/-- An engine outside of all loops. -/
def onSink (sink : Sink) : Engine := ⟨sink, .empty, 0⟩

/-- There are fewer numbers than this. So a loop that has made as many passes has had
some number twice, and will never end. -/
def passLimit : Nat := Nat.pow 2 65

/-- Steps on the sink, which may look at the scope. -/
def act (a : Scope → Action α) : Run α := fun ⟨sink, scope, depth⟩ =>
  match a scope sink with
  | .ok x sink => .ok x ⟨sink, scope, depth⟩
  | .error f sink => .error (.fault f) ⟨sink, scope, depth⟩

def lift (r : Except Fault α) : Run α := fun e =>
  match r with
  | .ok x => .ok x e
  | .error f => .error (.fault f) e

/-- The number that a token is as a bound of a loop. Constants are read from their
canonical text, so a text is none: it has quotes. -/
def bound (token : Token) : Except Fault Number :=
  match token with
  | .integer _ | .double _ | .text _ => do (Operand.text (← token.written)).toNumber
  | _ => .error (.loopBound token.canonical)

def bind (name : Text) (v : Number) : Engine → Engine
  | ⟨sink, scope, depth⟩ => ⟨sink, scope.push name v, depth + 1⟩

def unbind (name : Text) : Engine → Engine
  | ⟨sink, scope, depth⟩ => ⟨sink, scope.drop name, depth - 1⟩

/-- Runs a body with a binding, which is removed however the body ends. -/
def binding (name : Text) (v : Number) (body : Run Unit) : Run Unit := fun e =>
  match body (e.bind name v) with
  | .ok x e => .ok x (e.unbind name)
  | .error h e => .error h (e.unbind name)

/-- Takes the value of a loop variable out of the scope and puts the next one in. -/
def advance (name : Text) (step : Number) : Run Number := fun ⟨sink, scope, depth⟩ =>
  match scope.pop? name with
  | some (v, rest) => .ok (v.plus step) ⟨sink, rest.push name (v.plus step), depth⟩
  | none => .error (.fault (.unknownName name)) ⟨sink, scope, depth⟩

/-- The passes of a loop from the value `current` of its variable on. -/
def passes (name : Text) (stop step : Number) (body : Run Unit) :
    (limit : Nat) → (current : Number) → Run Unit
  | limit, current =>
    if current.order stop = .gt then pure ()
    else
      match limit with
      | 0 => throw .passLimit
      | limit + 1 => do
        body
        let next ← advance name step
        passes name stop step body limit next

/-- The bounds of a loop: start, stop and step, read in this order. -/
def bounds (header : Loop) : Except Fault (Number × Number × Number) := do
  let start ← bound header.start
  let stop ← bound header.stop
  let step ← match header.step with
    | none => pure (.integer 1)
    | some token => bound token
  return (start, stop, step)

/-- A loop around a body. Nothing is greater than NaN, so a loop up to it has no pass. -/
def loop (limit : Nat) (header : Loop) (body : Run Unit) : Run Unit := do
  let (start, stop, step) ← lift (bounds header)
  if stop.isNaN then return
  binding header.name start (passes header.name stop step body limit start)

mutual

/-- Runs a node in the scope as it is, with at most `limit` passes of each loop. -/
def visit (limit : Nat) : Node → Run Unit
  | .document children => visitAll limit children
  | .text content => act fun _ => Sink.write content
  | .echo tokens => act fun scope => Echo.run scope.peek? tokens
  | .loop header children => loop limit header (visitAll limit children)

def visitAll (limit : Nat) : List Node → Run Unit
  | [] => pure ()
  | node :: nodes => do
    visit limit node
    visitAll limit nodes

end

/-- Runs a node outside of all loops. -/
def execute (limit : Nat) (node : Node) : Run Unit := fun e =>
  visit limit node (onSink e.sink)

/-- Reads a text and runs it. -/
def render (limit : Nat) (text : Text) : Run Unit := do
  execute limit (← lift (Node.parse text))

end Engine

/-- What a text comes to on a new sink with these request parameters. -/
def renderToText (limit : Nat) (text : Text) (parameters : Entries) : Except Halt Text :=
  let store := Store.bounded (.empty Recency.defaultCapacity)
  match Engine.render limit text (.onSink (.fresh .utf8 true parameters store)) with
  | .ok _ e => e.sink.contents.mapError Halt.fault
  | .error h _ => .error h

end TagTemplate
