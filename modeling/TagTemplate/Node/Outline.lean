/-
The outline of a tree: one line for every node, each level indented by two spaces.
-/
import TagTemplate.Node.Basic
import TagTemplate.Text.Quoted

namespace TagTemplate.Node

def countText (n : Nat) : Text := "[" ++ toString n ++ "]"

/-- A node without its children, whose number is shown. -/
def summary : Node → Text
  | document children => "Document" ++ countText children.length
  | text content => "Text(" ++ Text.quoted content ++ ")"
  | echo tokens => "Echo(" ++ Token.joined tokens ++ ")"
  | loop header children => "ForLoop(" ++ header.canonical ++ ")" ++ countText children.length

def indented (depth : Nat) (line : Text) : Text :=
  Text.ofList (List.replicate (2 * depth) ' ') ++ line

mutual

/-- A node's own line, then those of its children. -/
def outlineAt (depth : Nat) : Node → List Text
  | document children =>
    indented depth (summary (document children)) :: outlineAll (depth + 1) children
  | loop header children =>
    indented depth (summary (loop header children)) :: outlineAll (depth + 1) children
  | text content => [indented depth (summary (text content))]
  | echo tokens => [indented depth (summary (echo tokens))]

def outlineAll (depth : Nat) : List Node → List Text
  | [] => []
  | node :: nodes => outlineAt depth node ++ outlineAll depth nodes

end

/-- The lines for a tree whose tokens all have a text. -/
def outline (n : Node) : List Text := outlineAt 0 n

/-- The outline of the tree, if it has one. -/
def outlined (n : Node) : Except Fault (List Text) := do
  n.checkTokens
  return n.outline

end TagTemplate.Node
