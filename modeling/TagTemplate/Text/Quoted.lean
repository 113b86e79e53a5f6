/-
A text between quotes on one line, as error messages and dumps show it. Single
quotes are used unless the text holds one and no double quote. The backslash,
the quote in use, the line breaks and the tab are escaped by a letter, other
unprintable characters by their number in hexadecimal.
-/
import TagTemplate.Text.Printable

namespace TagTemplate.Text

/-- The last `width` hexadecimal digits of `n`, in lower case. -/
def hexDigits : Nat → Nat → List CodePoint
  | 0, _ => []
  | width + 1, n => hexDigits width (n / 16) ++ [↑(Nat.digitChar (n % 16))]

/-- One character of a text quoted by `quote`. -/
def quotedChar (quote c : CodePoint) : List CodePoint :=
  if c = '\\' ∨ c = quote then ['\\', c]
  else if c = '\n' then ['\\', 'n']
  else if c = '\r' then ['\\', 'r']
  else if c = '\t' then ['\\', 't']
  else if isPrintable c then [c]
  else if c.toNat < 0x100 then '\\' :: 'x' :: hexDigits 2 c.toNat
  else if c.toNat < 0x10000 then '\\' :: 'u' :: hexDigits 4 c.toNat
  else '\\' :: 'U' :: hexDigits 8 c.toNat

/-- The quote for a text: the double one only to spare an escape. -/
def quoteFor (s : List CodePoint) : CodePoint :=
  if ↑ '\'' ∈ s ∧ ↑ '"' ∉ s then '"' else '\''

def quotedChars (s : List CodePoint) : List CodePoint :=
  let quote := quoteFor s
  quote :: s.flatMap (quotedChar quote) ++ [quote]

/-- The text between quotes. -/
def quoted (s : Text) : Text :=
  Text.ofList (quotedChars s.toList)

end TagTemplate.Text
