/-
Templates as trees, and the canonical text of a tree.
-/
import TagTemplate.Token

namespace TagTemplate

/-- What a loop counts: its variable, from where, up to where, and by how much. -/
structure Loop where
  name : Text
  start : Token
  stop : Token
  step : Option Token
  deriving DecidableEq

/-- A part of a template. -/
inductive Node where
  | document (children : List Node)
  | text (content : Text)
  | echo (tokens : List Token)
  | loop (header : Loop) (children : List Node)

/-- The tokens of a loop header, in the order of the tag. -/
def Loop.tokens (l : Loop) : List Token :=
  [.loopVariable l.name, l.start, l.stop] ++ l.step.toList

/-- Tokens with single spaces between them. -/
def Token.joined (tokens : List Token) : Text :=
  Text.intercalate " " (tokens.map Token.canonical)

def Loop.canonical (l : Loop) : Text := Token.joined l.tokens

namespace Node

instance : Inhabited Node := ⟨document []⟩

mutual

/-- Equality of trees. -/
def same : Node → Node → Bool
  | document cs, document ds => sameAll cs ds
  | text s, text t => s == t
  | echo ts, echo us => ts == us
  | loop l cs, loop m ds => l == m && sameAll cs ds
  | _, _ => false

def sameAll : List Node → List Node → Bool
  | [], [] => true
  | c :: cs, d :: ds => same c d && sameAll cs ds
  | _, _ => false

end

mutual

theorem same_iff : ∀ a b : Node, same a b = true ↔ a = b
  | document cs, document ds => by simp only [same, sameAll_iff cs ds, document.injEq]
  | text s, text t => by simp only [same, beq_iff_eq, text.injEq]
  | echo ts, echo us => by simp only [same, beq_iff_eq, echo.injEq]
  | loop l cs, loop m ds => by
    simp only [same, Bool.and_eq_true, beq_iff_eq, sameAll_iff cs ds, loop.injEq]
  | document _, text _ | document _, echo _ | document _, loop .. | text _, document _
  | text _, echo _ | text _, loop .. | echo _, document _ | echo _, text _ | echo _, loop ..
  | loop .., document _ | loop .., text _ | loop .., echo _ => by simp [same]

theorem sameAll_iff : ∀ cs ds : List Node, sameAll cs ds = true ↔ cs = ds
  | [], [] => by simp only [sameAll]
  | c :: cs, d :: ds => by
    simp only [sameAll, Bool.and_eq_true, same_iff c d, sameAll_iff cs ds, List.cons.injEq]
  | [], _ :: _ | _ :: _, [] => by simp [sameAll]

end

instance : DecidableEq Node := fun a b => decidable_of_iff _ (same_iff a b)

mutual

/-- The tokens of a tree, in the order of its text. -/
def tokens : Node → List Token
  | document children => tokensAll children
  | text _ => []
  | echo tokens => tokens
  | loop header children => header.tokens ++ tokensAll children

def tokensAll : List Node → List Token
  | [] => []
  | node :: nodes => tokens node ++ tokensAll nodes

end

/-- Fails as the first token without a text does. -/
def checkTokens (node : Node) : Except Fault Unit :=
  node.tokens.forM fun token => do let _ ← token.written

/-- The canonical text of an echo tag. -/
def echoText (tokens : List Token) : Text :=
  "\x7b$= " ++ Text.join (tokens.map (·.canonical ++ " ")) ++ "$\x7d"

mutual

/-- The text that a tree is written as whose tokens all have a text. -/
def canonical : Node → Text
  | document children => canonicalAll children
  | text content => content
  | echo tokens => echoText tokens
  | loop header children =>
    "\x7b$ FOR " ++ header.canonical ++ " $\x7d" ++ canonicalAll children ++ "\x7b$END$\x7d"

def canonicalAll : List Node → Text
  | [] => ""
  | node :: nodes => canonical node ++ canonicalAll nodes

end

/-- The canonical text of the tree, if it has one. -/
def written (node : Node) : Except Fault Text := do
  node.checkTokens
  return node.canonical

end Node

end TagTemplate
