/-
What a template text consists of: stretches of plain text, and tags with the
lexemes between their braces.
-/
import TagTemplate.Text.Basic

namespace TagTemplate

/-- A word of a tag; a quoted one is a string whose escapes are resolved. -/
structure Lexeme where
  text : Text
  quoted : Bool
  deriving DecidableEq

/-- A tag: `=` or a command name in small letters, its lexemes, and the position of
its opening brace. -/
structure Tag where
  name : Text
  lexemes : List Lexeme
  pos : Nat
  deriving DecidableEq

inductive Item where
  | text (run : Text)
  | tag (t : Tag)
  deriving DecidableEq

end TagTemplate
