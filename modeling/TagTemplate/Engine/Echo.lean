/-
Evaluating an echo: its tokens act one after another on a stack of values, and only
when all have done so the values are written, bottom to top.
-/
import TagTemplate.Engine.Builtin

namespace TagTemplate.Echo

/-- The value of a loop variable. -/
abbrev Lookup := Text → Option Number

/-- What a call of a function without a meaning leaves on the stack. -/
def unknownFunction (name : Text) : Datum := .text ("unknown function name: " ++ name)

/-- The effect of one token on the stack and on the sink. -/
def act (lookup : Lookup) (stack : Stack) (token : Token) : Action Stack :=
  match token with
  | .integer n => return .integer n :: stack
  | .double x => return .double x :: stack
  | .text s => return .text s :: stack
  | .loopVariable name =>
    match lookup name with
    | some v => return .ofNumber v :: stack
    | none => throw (.unknownName name)
  | .operator symbol => do
    let (right, left, rest) ← .ofExcept (stack.popTwo token)
    let v ← .ofExcept (Number.operate left.operand symbol right.operand)
    return .ofNumber v :: rest
  | .function name =>
    match Builtin.ofName? name with
    | some f => f.call token stack
    | none => return unknownFunction name :: stack

/-- The stack that a list of tokens leaves. -/
def evaluate (lookup : Lookup) (stack : Stack) (tokens : List Token) : Action Stack :=
  tokens.foldlM (act lookup) stack

/-- Writes a value, if it has a text. -/
def write (d : Datum) : Action Unit := do
  Sink.write (← .ofExcept d.toText)

/-- Each value is written by itself. -/
def writeAll (values : List Datum) : Action Unit := values.forM write

def run (lookup : Lookup) (tokens : List Token) : Action Unit := do
  let stack ← evaluate lookup [] tokens
  writeAll stack.reverse

end TagTemplate.Echo
