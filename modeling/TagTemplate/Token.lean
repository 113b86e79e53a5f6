/-
The tokens of a tag: operators, function and variable names, and constants.
-/
import TagTemplate.Number.Basic

namespace TagTemplate

/-- A token. Its parts may be anything: only tokens that are read from a text are
limited to known operators, identifiers and numbers that have a text. -/
inductive Token where
  | operator (symbol : Text)
  | function (name : Text)
  | loopVariable (name : Text)
  | integer (n : Int)
  | double (x : Double)
  | text (s : Text)
  deriving DecidableEq

namespace Token

instance : Inhabited Token := ⟨integer 0⟩

def isIdentifierRest (c : CodePoint) : Bool := c.isAlphanum || c == '_'

/-- A letter, then letters, digits and underscores, all of ASCII. -/
def isIdentifier (s : Text) : Bool :=
  match s.toList with
  | [] => false
  | c :: cs => c.isAlpha && cs.all isIdentifierRest

/-- The escape of a line break or a tab in a string constant. -/
def escapeChar (c : CodePoint) : List CodePoint :=
  if c = '\r' then ['\\', 'r']
  else if c = '\n' then ['\\', 'n']
  else if c = '\t' then ['\\', 't']
  else [c]

def escape (s : Text) : Text := Text.ofList (s.toList.flatMap escapeChar)

/-- An infinity is written as a number beyond all finite ones, since its name would
read as a variable. -/
def doubleText (x : Double) : String :=
  if x.isInfinite then (if x.isNegative then "-1e999" else "1e999") else x.text

/-- The token as it stands in a tag. -/
def canonical : Token → Text
  | operator symbol => symbol
  | function name => "@" ++ name
  | loopVariable name => name
  | integer n => Number.integerText n
  | double x => doubleText x
  | text s => "\"" ++ escape s ++ "\""

/-- The text of the token, unless it is an integer that is too long. -/
def written : Token → Except Fault Text
  | integer n => Number.writeInteger n
  | token => .ok token.canonical

end Token

end TagTemplate
