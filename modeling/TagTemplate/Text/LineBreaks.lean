/-
The line breaks of a text that is read in.
-/
import TagTemplate.Text.Basic

namespace TagTemplate.Text

def unifyChars : List CodePoint → List CodePoint
  | [] => []
  | '\r' :: '\n' :: cs => '\n' :: unifyChars cs
  | '\r' :: cs => '\n' :: unifyChars cs
  | c :: cs => c :: unifyChars cs

/-- Every line break becomes a line feed, a return before a line feed joining it. -/
def unifyLineBreaks (s : Text) : Text := Text.ofList (unifyChars s.toList)

end TagTemplate.Text
