/-
What an operator accepts besides numbers: anything that has a text. Nothing at all
counts as zero, and everything else is read from its text.
-/
import TagTemplate.Number.Reader

namespace TagTemplate

inductive Operand where
  | none
  | bool (b : Bool)
  | integer (n : Int)
  | double (x : Double)
  | text (s : Text)
  | list (members : List Operand)
  | number (v : Number)

namespace Operand

mutual

/-- An operand as an error message shows it, if no integer in it is too long. -/
def shown : Operand → Except Fault Text
  | none => .ok "None"
  | bool b => .ok (if b then "True" else "False")
  | integer n => Number.writeInteger n
  | double x => .ok x.text
  | text s => .ok (Text.quoted s)
  | list members => do return "[" ++ Text.intercalate ", " (← shownAll members) ++ "]"
  | number v => .ok v.shown

def shownAll : List Operand → Except Fault (List Text)
  | [] => .ok []
  | o :: os => do return (← shown o) :: (← shownAll os)

end

/-- An operand as it is written out, if it can be. -/
def toText : Operand → Except Fault Text
  | text s => .ok s
  | number v => .ok v.text
  | o => o.shown

/-- The name of an operand's kind in error messages. -/
def kind : Operand → Text
  | none => "NoneType"
  | bool _ => "bool"
  | integer _ => "int"
  | double _ => "float"
  | text _ => "str"
  | list _ => "list"
  | number _ => "smartscript.value.Value"

/-- A plain number; an integer wraps to 64 bits. -/
def raw : Operand → Except Fault Number
  | integer n => .ok (.integer (Number.wrap n))
  | double x => .ok (.double x)
  | o => do throw (.notRaw o.kind (← o.shown))

/-- The number that an operand stands for. An integer beyond 64 bits, like its
text, is the nearest double, and one that is too long to have a text is none. -/
def toNumber : Operand → Except Fault Number
  | none => .ok (.integer 0)
  | number v => .ok v
  | double x => .ok (.double x)
  | integer n =>
    if Number.fitsInt64 n then .ok (.integer (Int64.ofInt n))
    else do
      let _ ← Number.writeInteger n
      return .double (Double.ofInt n)
  | o => do
    match ← Number.ofText? (← o.toText) with
    | some v => return v
    | Option.none => throw (.notNumeric (← o.shown))

theorem toNumber_text (s : Text) :
    (text s).toNumber = (do
      match ← Number.ofText? s with
      | some v => return v
      | Option.none => throw (.notNumeric (Text.quoted s))) := rfl

end Operand

namespace Number

/-- `left symbol right`: the left operand is read first, then the operator, then
the right operand. -/
def operate (left : Operand) (symbol : Text) (right : Operand) : Except Fault Number := do
  let a ← left.toNumber
  match Operation.ofSymbol? symbol with
  | some op => apply op a (← right.toNumber)
  | none => throw (.unknownOperator symbol)

end Number

end TagTemplate
