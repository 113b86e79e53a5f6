/-
From items to a tree: a `for` tag opens a loop and the matching `end` tag closes
it. The first item that does not fit is what is wrong, even if the text is not
well formed further on.
-/
import TagTemplate.Item.Classify
import TagTemplate.Item.Scanner
import TagTemplate.Node.Basic

namespace TagTemplate

/-- The loops that are open at some place of a text, innermost first, each with the
nodes that stand before it on its own level, and the nodes of the innermost
level. All nodes are listed last one first. -/
structure Nest where
  level : List Node
  outer : List (Loop × List Node)

namespace Nest

def empty : Nest := ⟨[], []⟩

def add (n : Nest) (node : Node) : Nest := { n with level := node :: n.level }

/-- Opens a loop. -/
def enter (n : Nest) (header : Loop) : Nest := ⟨[], (header, n.level) :: n.outer⟩

/-- Closes the innermost loop, if one is open. -/
def leave? (n : Nest) : Option Nest :=
  match n.outer with
  | [] => none
  | (header, before) :: outer => some ⟨.loop header n.level.reverse :: before, outer⟩

end Nest

/-- The header of a `for` tag. All its lexemes have to be tokens before the first
one is looked at. -/
def Tag.loopHeader (tag : Tag) : Except Fault Loop :=
  if tag.lexemes.length < 3 ∨ 4 < tag.lexemes.length then
    .error (.malformed (.loopArguments tag.lexemes.length tag.pos))
  else do
    match ← tag.lexemes.mapM Token.ofLexeme with
    | .loopVariable name :: start :: stop :: step => return ⟨name, start, stop, step.head?⟩
    | tokens =>
      throw (.malformed (.loopVariable ((tokens.head?.map Token.canonical).getD "") tag.pos))

namespace Nest

def addTag (n : Nest) (tag : Tag) : Except Fault Nest :=
  if tag.name = "=" then return n.add (.echo (← tag.lexemes.mapM Token.ofLexeme))
  else if tag.name = "for" then return n.enter (← tag.loopHeader)
  else if tag.name = "end" then
    if !tag.lexemes.isEmpty then .error (.malformed (.endArguments tag.pos))
    else
      match n.leave? with
      | some outer => .ok outer
      | none => .error (.malformed (.endUnmatched tag.pos))
  else .error (.malformed (.unknownCommand tag.name tag.pos))

def addItem (n : Nest) : Item → Except Fault Nest
  | .text run => .ok (n.add (.text run))
  | .tag tag => n.addTag tag

/-- The whole tree, once every loop is closed. -/
def finish (n : Nest) : Except Fault Node :=
  if n.outer.isEmpty then .ok (.document n.level.reverse)
  else .error (.malformed (.loopsOpen n.outer.length))

end Nest

/-- The tree of the items found in a text, unless something is wrong with them or
with what follows them. -/
def Node.ofScan (scan : Scan) : Except Fault Node := do
  let nest ← scan.items.foldlM Nest.addItem Nest.empty
  match scan.fault with
  | some fault => throw (.malformed fault)
  | none => nest.finish

def Node.parse (s : Text) : Except Fault Node := ofScan (Scan.ofText s)

end TagTemplate
