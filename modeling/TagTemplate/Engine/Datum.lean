/-
What an echo computes with: integers of any size, doubles and texts, on a stack.
-/
import TagTemplate.Operand
import TagTemplate.Token

namespace TagTemplate

/-- A value on the stack of an echo. -/
inductive Datum where
  | integer (n : Int)
  | double (x : Double)
  | text (s : Text)
  deriving DecidableEq

namespace Datum

def ofNumber : Number → Datum
  | .integer n => integer n.toInt
  | .double x => double x

def operand : Datum → Operand
  | integer n => .integer n
  | double x => .double x
  | text s => .text s

/-- The value as it is written out, if it can be. -/
def toText (d : Datum) : Except Fault Text := d.operand.toText

theorem toText_integer (n : Int) : (integer n).toText = Number.writeInteger n := rfl

/-- The number that the value stands for. -/
def toNumber (d : Datum) : Except Fault Number := d.operand.toNumber

end Datum

/-- The values of an echo, the one pushed last first. -/
abbrev Stack := List Datum

namespace Stack

/-- Takes the top value for a token. -/
def pop (token : Token) : Stack → Except Fault (Datum × Stack)
  | [] => .error (.underflow token.canonical)
  | d :: rest => .ok (d, rest)

/-- Takes the top value for a token, as a text. -/
def popText (token : Token) (stack : Stack) : Except Fault (Text × Stack) := do
  let (d, rest) ← stack.pop token
  return (← d.toText, rest)

theorem popText_cons (token : Token) (d : Datum) (rest : Stack) :
    popText token (d :: rest) = (do return (← d.toText, rest)) := rfl

theorem popText_of_toText {d : Datum} {text : Text} (h : d.toText = .ok text) (token : Token)
    (rest : Stack) : popText token (d :: rest) = .ok (text, rest) := by
  rw [popText_cons, h]
  rfl

/-- Takes two values for a token, the top one first. -/
def popTwo (token : Token) : Stack → Except Fault (Datum × Datum × Stack)
  | top :: second :: rest => .ok (top, second, rest)
  | _ => .error (.underflow token.canonical)

end Stack

end TagTemplate
