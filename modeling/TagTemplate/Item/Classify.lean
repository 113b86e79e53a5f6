/-
The token that a lexeme is. What reads in none of the ways tried in turn is no
token at all.
-/
import TagTemplate.Item.Basic
import TagTemplate.Number.Reader
import TagTemplate.Token

namespace TagTemplate.Token

/-- The constant that a text is the numeral of: an integer of 64 bits or a double. -/
def ofNumeral? (s : Text) : Except Fault (Option Token) := do
  match s.string? with
  | none => return none
  | some characters =>
    match ← Number.readInt64? characters with
    | some n => return some (integer n.toInt)
    | none => return (Number.readFinite? characters).map double

/-- A bare word as a token: an operator, a name after `@`, a variable, and last a
number, where an integer beyond 64 bits is a double. -/
def ofWord (s : Text) : Except Fault Token :=
  if (Operation.ofSymbol? s).isSome then .ok (operator s)
  else
    match s.toList with
    | '@' :: name =>
      let name := Text.ofList name
      if isIdentifier name then .ok (function name) else .error (.malformed (.functionName s))
    | _ =>
      if isIdentifier s then .ok (loopVariable s)
      else do
        match ← ofNumeral? s with
        | some token => return token
        | none => throw (.malformed (.unknownWord s))

def ofLexeme (l : Lexeme) : Except Fault Token :=
  if l.quoted then .ok (text l.text) else ofWord l.text

end TagTemplate.Token
