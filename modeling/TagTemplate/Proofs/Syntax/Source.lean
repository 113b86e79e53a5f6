/-
The grammar of template texts. A `Source` is a text with its structure: stretches of
plain text between tags, each tag with its name and its lexemes, and every blank and
escape where it is written. `Source.chars` forgets the structure, and `Source.items`
is what the text consists of.

Each piece carries the proof that it is well formed: which characters may stand in it,
and which lexemes may stand where without a blank.
-/
import TagTemplate.Item.Scanner

namespace TagTemplate

/-! ## Runs of characters -/

/-- A character of a run that ends at `stop`, as it is written: by itself, or as a backslash
and any character. -/
inductive Glyph (stop : CodePoint) where
  | plain (c : CodePoint) (allowed : c ≠ stop ∧ c ≠ '\\')
  | escape (c : CodePoint)

/-- A run of characters up to `stop`. -/
abbrev Glyphs (stop : CodePoint) := List (Glyph stop)

namespace Glyph

variable {stop : CodePoint}

def chars : Glyph stop → List CodePoint
  | plain c _ => [c]
  | escape c => [↑ '\\', c]

/-- What a glyph stands for; most escapes stand for nothing. -/
def content : Glyph stop → List CodePoint
  | plain c _ => [c]
  | escape c => (unescape c).toList

end Glyph

namespace Glyphs

variable {stop : CodePoint}

def chars (gs : Glyphs stop) : List CodePoint := gs.flatMap Glyph.chars

def content (gs : Glyphs stop) : List CodePoint := gs.flatMap Glyph.content

/-- What glyphs can stand for: backslashes and what ends the run are lost. -/
theorem mem_content {gs : Glyphs stop} {c : CodePoint} (h : c ∈ gs.content) :
    c ≠ stop ∧ c ≠ '\\' ∨ c ∈ [↑ '\r', ↑ '\n', ↑ '\t'] := by
  obtain ⟨g, -, hc⟩ := List.mem_flatMap.1 h
  cases g with
  | plain d allowed =>
    rw [List.mem_singleton.1 hc]
    exact .inl allowed
  | escape d =>
    refine .inr ?_
    simp only [Glyph.content, unescape] at hc
    split at hc
    · simp_all
    · simp_all
    · simp_all
    · cases hc

end Glyphs

/-- Whitespace between the parts of a tag. -/
abbrev Blanks := { cs : List CodePoint // ∀ c ∈ cs, isBlank c = true }

namespace Blanks

def none : Blanks := ⟨[], by simp⟩

def space : Blanks := ⟨[' '], by simp [isBlank]⟩

end Blanks

/-! ## Tags -/

/-- A lexeme as it is written. -/
inductive Word where
  | bare (cs : List CodePoint) (nonempty : cs ≠ [])
      (allowed : ∀ c ∈ cs, isBlank c = false ∧ c ≠ '$') (first : cs.head? ≠ some ↑ '"')
  | quoted (gs : Glyphs '"')

namespace Word

def chars : Word → List CodePoint
  | bare cs .. => cs
  | quoted gs => ↑ '"' :: gs.chars ++ [↑ '"']

theorem chars_ne_nil : ∀ w : Word, w.chars ≠ []
  | bare _ nonempty .. => nonempty
  | quoted _ => List.cons_ne_nil _ _

def lexeme : Word → Lexeme
  | bare cs .. => ⟨Text.ofList cs, false⟩
  | quoted gs => ⟨Text.ofList gs.content, true⟩

end Word

/-- The name of a tag as it is written. -/
inductive TagName where
  | echo
  | letters (cs : List CodePoint) (nonempty : cs ≠ []) (allowed : ∀ c ∈ cs, c.isAlpha = true)

namespace TagName

def chars : TagName → List CodePoint
  | echo => ['=']
  | letters cs .. => cs

/-- Letters count as small ones. -/
def name : TagName → Text
  | echo => "="
  | letters cs .. => Text.ofList (cs.map CodePoint.toLower)

/-- Whether a character may follow the name directly: a letter would belong to it. -/
def Ends : TagName → CodePoint → Prop
  | echo, _ => True
  | letters .., c => c.isAlpha = false

end TagName

/-- Lexemes, each with the blanks before it. -/
abbrev Arguments := List (Blanks × Word)

namespace Arguments

def chars (args : Arguments) : List CodePoint := args.flatMap fun a => a.1.val ++ a.2.chars

def lexemes (args : Arguments) : List Lexeme := args.map (·.2.lexeme)

end Arguments

/-- A tag from its opening brace to its last lexeme. -/
structure TagHead where
  /-- Between the brace and the dollar. -/
  outer : Blanks
  /-- Between the dollar and the name. -/
  inner : Blanks
  name : TagName
  args : Arguments
  /-- Blanks set the lexemes apart. -/
  spaced : ∀ a ∈ args.tail, a.1.val ≠ []
  /-- The first lexeme may follow the name directly, but a letter would belong to the name. -/
  apart : ∀ a ∈ args.head?, a.1.val = [] → ∀ c ∈ a.2.chars.head?, name.Ends c

namespace TagHead

/-- All of it but the brace. -/
def inside (h : TagHead) : List CodePoint :=
  h.outer.val ++ ↑ '$' :: h.inner.val ++ h.name.chars ++ h.args.chars

def chars (h : TagHead) : List CodePoint := ↑ '\x7b' :: h.inside

def tag (h : TagHead) (pos : Nat) : Tag := ⟨h.name.name, h.args.lexemes, pos⟩

end TagHead

/-- A whole tag: blanks may stand on both sides of the closing dollar. -/
structure TagSource where
  head : TagHead
  trailing : Blanks
  closing : Blanks

namespace TagSource

def chars (t : TagSource) : List CodePoint :=
  t.head.chars ++ t.trailing.val ++ ↑ '$' :: t.closing.val ++ (['\x7d'] : List CodePoint)

def tag (t : TagSource) (pos : Nat) : Tag := t.head.tag pos

end TagSource

/-! ## Templates -/

/-- Tags, each with the stretch of text before it. -/
abbrev Parts := List (Glyphs '\x7b' × TagSource)

/-- A stretch of text as an item, unless it stands for nothing. -/
def Glyphs.items (gs : Glyphs '\x7b') : List Item :=
  (ScanState.textItem (Text.ofList gs.content)).toList

namespace Parts

def chars (parts : Parts) : List CodePoint := parts.flatMap fun p => p.1.chars ++ p.2.chars

/-- The items of parts that begin at the position `pos`. -/
def items (pos : Nat) : Parts → List Item
  | [] => []
  | (gs, t) :: parts =>
    gs.items ++ .tag (t.tag (pos + gs.chars.length)) ::
      items (pos + gs.chars.length + t.chars.length) parts

end Parts

/-- A template: tags with the text before each of them, the text after the last one, and
perhaps a lone backslash at the end, which stands for nothing. -/
structure Source where
  parts : Parts
  last : Glyphs '\x7b'
  lone : Bool

namespace Source

def chars (s : Source) : List CodePoint :=
  s.parts.chars ++ s.last.chars ++ (if s.lone then ['\\'] else [] : List CodePoint)

def text (s : Source) : Text := Text.ofList s.chars

def items (s : Source) : List Item := s.parts.items 0 ++ s.last.items

end Source

end TagTemplate
