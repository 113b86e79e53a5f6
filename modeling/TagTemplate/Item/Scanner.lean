/-
Scanning a template text into items, one character at a time. A scan ends with the
items found and, if the text is not well formed, with what is wrong at the first
character that nothing could follow.
-/
import TagTemplate.Fault
import TagTemplate.Item.Basic

namespace TagTemplate

/-- The whitespace of a tag. -/
def isBlank (c : CodePoint) : Bool :=
  c == ' ' || c == '\t' || c == '\n' || c == '\r' || c == '\x0c' || c == '\x0b'

/-- The character that an escape stands for: those of other letters stand for
nothing. -/
def unescape (c : CodePoint) : Option CodePoint :=
  match c with
  | 'r' => some '\r'
  | 'n' => some '\n'
  | 't' => some '\t'
  | _ => none

/-- Text with the escape of `c` put to its end. -/
def pushEscape (s : Text) (c : CodePoint) : Text :=
  match unescape c with
  | some e => s.push e
  | none => s

/-- Where in the text a scan is, with what it has collected and not yet given out. -/
inductive ScanState where
  /-- In plain text. -/
  | text (run : Text)
  /-- After a backslash in plain text. -/
  | textEscape (run : Text)
  /-- After the brace that opens a tag, before the dollar. -/
  | brace (start : Nat)
  /-- Before the name of a tag. -/
  | beforeName (start : Nat)
  /-- In the name of a tag. -/
  | name (start : Nat) (letters : Text)
  /-- Among the arguments, in a bare lexeme if `bare` is not empty. -/
  | arguments (tag : Tag) (bare : Text)
  /-- In a string. -/
  | string (tag : Tag) (chars : Text)
  /-- After a backslash in a string. -/
  | stringEscape (tag : Tag) (chars : Text)
  /-- Right after a string. -/
  | afterString (tag : Tag)
  /-- After the dollar that closes a tag, before the brace. -/
  | closing (tag : Tag)

namespace ScanState

/-- A stretch of text as an item, unless it is empty. -/
def textItem (run : Text) : Option Item :=
  if run.isEmpty then none else some (.text run)

/-- The tag with one more lexeme. -/
def withLexeme (tag : Tag) (text : Text) (quoted : Bool) : Tag :=
  { tag with lexemes := tag.lexemes ++ [⟨text, quoted⟩] }

/-- The tag with a bare lexeme, unless that is empty. -/
def withBare (tag : Tag) (bare : Text) : Tag :=
  if bare.isEmpty then tag else withLexeme tag bare false

/-- One character among the arguments. A quote starts a string only where no bare
lexeme has begun. -/
def argumentStep (tag : Tag) (bare : Text) (c : CodePoint) : ScanState :=
  if isBlank c then arguments (withBare tag bare) ""
  else if c = '$' then closing (withBare tag bare)
  else if c = '"' ∧ bare.isEmpty then string tag ""
  else arguments tag (bare.push c)

/-- One character of the text at position `pos`: the item that it completes, and
where the scan is after it. -/
def step (pos : Nat) (c : CodePoint) : ScanState → Except SyntaxFault (Option Item × ScanState)
  | text run =>
    if c = '\x7b' then .ok (textItem run, brace pos)
    else if c = '\\' then .ok (none, textEscape run)
    else .ok (none, text (run.push c))
  | textEscape run => .ok (none, text (pushEscape run c))
  | brace start =>
    if c = '$' then .ok (none, beforeName start)
    else if isBlank c then .ok (none, brace start)
    else .error (.dollarExpected pos)
  | beforeName start =>
    if c = '=' then .ok (none, arguments ⟨"=", [], start⟩ "")
    else if c.isAlpha then .ok (none, name start (.ofList [c]))
    else if isBlank c then .ok (none, beforeName start)
    else .error (.nameMissing pos)
  | name start letters =>
    if c.isAlpha then .ok (none, name start (letters.push c))
    else .ok (none, argumentStep ⟨letters.map CodePoint.toLower, [], start⟩ "" c)
  | arguments tag bare => .ok (none, argumentStep tag bare c)
  | string tag chars =>
    if c = '"' then .ok (none, afterString (withLexeme tag chars true))
    else if c = '\\' then .ok (none, stringEscape tag chars)
    else .ok (none, string tag (chars.push c))
  | stringEscape tag chars => .ok (none, string tag (pushEscape chars c))
  | afterString tag =>
    if isBlank c then .ok (none, arguments tag "")
    else if c = '$' then .ok (none, closing tag)
    else .error (.spaceExpected pos)
  | closing tag =>
    if c = '\x7d' then .ok (some (.tag tag), text "")
    else if isBlank c then .ok (none, closing tag)
    else .error (.closeExpected tag.pos)

/-- The end of the text: the item that it completes. A lone backslash there stands
for nothing. -/
def finish : ScanState → Except SyntaxFault (Option Item)
  | text run | textEscape run => .ok (textItem run)
  | string tag _ | stringEscape tag _ => .error (.stringOpen tag.pos)
  | brace start | beforeName start | name start _ => .error (.tagOpen start)
  | arguments tag _ | afterString tag | closing tag => .error (.tagOpen tag.pos)

end ScanState

/-- The items of a text up to its end or up to what is wrong with it. -/
structure Scan where
  items : List Item
  fault : Option SyntaxFault
  deriving DecidableEq

namespace Scan

/-- The scan of the characters from position `pos` on, where `found` holds the items
before, last one first. -/
def run (found : List Item) (pos : Nat) (state : ScanState) : List CodePoint → Scan
  | [] =>
    match state.finish with
    | .ok item? => ⟨(item?.toList ++ found).reverse, none⟩
    | .error fault => ⟨found.reverse, some fault⟩
  | c :: cs =>
    match state.step pos c with
    | .ok (item?, next) => run (item?.toList ++ found) (pos + 1) next cs
    | .error fault => ⟨found.reverse, some fault⟩

def ofText (s : Text) : Scan := run [] 0 (.text "") s.toList

end Scan

end TagTemplate
