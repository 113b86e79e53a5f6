/-
The functions that an echo may call. They are found by name in any case.
-/
import TagTemplate.Engine.Datum
import TagTemplate.Pattern.Format
import TagTemplate.Sink

namespace TagTemplate

inductive Builtin where
  | sin
  | decfmt
  | dup
  | swap
  | setMimeType
  | paramGet
  | persistentGet
  | persistentSet
  | persistentDel
  | temporaryGet
  | temporarySet
  | temporaryDel
  deriving DecidableEq

namespace Builtin

/-- The name in small letters. -/
def name : Builtin → Text
  | sin => "sin"
  | decfmt => "decfmt"
  | dup => "dup"
  | swap => "swap"
  | setMimeType => "setmimetype"
  | paramGet => "paramget"
  | persistentGet => "pparamget"
  | persistentSet => "pparamset"
  | persistentDel => "pparamdel"
  | temporaryGet => "tparamget"
  | temporarySet => "tparamset"
  | temporaryDel => "tparamdel"

def all : List Builtin :=
  [sin, decfmt, dup, swap, setMimeType, paramGet, persistentGet, persistentSet, persistentDel,
    temporaryGet, temporarySet, temporaryDel]

/-- No letter but those of ASCII has a small form that occurs in a name. -/
def ofName? (s : Text) : Option Builtin :=
  let small := s.map CodePoint.toLower
  all.find? (·.name == small)

end Builtin

namespace Action

/-- A computation that reads and changes no sink. -/
def ofExcept (r : Except Fault α) : Action α := fun s =>
  match r with
  | .ok a => .ok a s
  | .error f => .error f s

theorem ofExcept_pure (a : α) : ofExcept (pure a) = pure a := rfl

theorem ofExcept_bind (r : Except Fault α) (k : α → Except Fault β) :
    ofExcept (r >>= k) = ofExcept r >>= fun a => ofExcept (k a) := by
  cases r <;> rfl

/-- A change of the sink that cannot fail. -/
def change (f : Sink → Sink) : Action Unit := fun s => .ok () (f s)

/-- Something read off the sink. -/
def read (f : Sink → α) : Action α := fun s => .ok (f s) s

end Action

namespace Builtin

/-- A parameter's value, or the default if there is none. -/
def orDefault (value : Option Text) (default : Datum) : Datum :=
  match value with
  | some s => .text s
  | none => default

def sine (d : Datum) : Except Fault Datum := do
  match (← d.toNumber).toDouble.sinDegrees? with
  | some x => return .double x
  | none => throw .sineOfInfinity

/-- The number is read before the pattern is compiled. -/
def formatted (value : Datum) (pattern : Text) : Except Fault Datum := do
  let v ← value.toNumber
  let p ← Pattern.compile pattern
  return .text (← p.format v)

/-- Puts the value of a parameter in the place of its name and of the default on top of it. -/
def lookUp (read : Text → Action (Option Text)) (token : Token) (stack : Stack) :
    Action Stack := do
  let (default, rest) ← .ofExcept (stack.pop token)
  let (name, rest) ← .ofExcept (rest.popText token)
  return orDefault (← read name) default :: rest

/-- Changes the sink by the text on top of the stack. -/
def changeBy (f : Text → Sink → Sink) (token : Token) (stack : Stack) : Action Stack := do
  let (text, rest) ← .ofExcept (stack.popText token)
  .change (f text)
  return rest

/-- Changes the sink by the two texts on top of the stack, the topmost one first. -/
def changeByTwo (f : Text → Text → Sink → Sink) (token : Token) (stack : Stack) :
    Action Stack := do
  let (name, rest) ← .ofExcept (stack.popText token)
  let (value, rest) ← .ofExcept (rest.popText token)
  .change (f name value)
  return rest

/-- The effect of a function on the stack and on the sink. Before it touches the sink it has
taken all values that it needs from the stack, and what it needs as a text has been made one
as soon as it was taken. -/
def call (token : Token) (stack : Stack) : Builtin → Action Stack
  | sin => .ofExcept do
    let (x, rest) ← stack.pop token
    return (← sine x) :: rest
  | decfmt => .ofExcept do
    let (pattern, rest) ← stack.popText token
    let (value, rest) ← rest.pop token
    return (← formatted value pattern) :: rest
  | dup => .ofExcept do
    let (x, rest) ← stack.pop token
    return x :: x :: rest
  | swap => .ofExcept do
    let (a, b, rest) ← stack.popTwo token
    return b :: a :: rest
  | setMimeType => changeBy Sink.setMime token stack
  | paramGet => lookUp (fun name => .read (·.parameter? name)) token stack
  | persistentGet => lookUp Sink.readPersistent token stack
  | persistentSet => changeByTwo Sink.setPersistent token stack
  | persistentDel => changeBy Sink.erasePersistent token stack
  | temporaryGet => lookUp (fun name => .read (·.temporary? name)) token stack
  | temporarySet => changeByTwo Sink.setTemporary token stack
  | temporaryDel => changeBy Sink.eraseTemporary token stack

end Builtin

end TagTemplate
