/-
Only canonical templates are read from texts. With the round trip of those
(`Node.parse_canonical_eq`) this is exactly the image of the parser.

What is kept from item to item is that all levels of the nest are canonical
(`Nest.IsCanonical`), and that after a tag none of them could be continued by text that
belongs to the text before (`Nest.AfterTag`): in a template a tag stands between any two
stretches of text.
-/
import TagTemplate.Proofs.Syntax.Acceptance
import TagTemplate.Proofs.Syntax.CanonicalNode
import TagTemplate.Proofs.Syntax.Tags

namespace TagTemplate

/-! ## Nests -/

theorem Node.AreCanonical.snoc {nodes : List Node} {node : Node} (h : AreCanonical nodes)
    (hnode : node.IsCanonical)
    (hapart : ∀ last ∈ nodes.getLast?, last.isText = true → node.isText = false) :
    AreCanonical (nodes ++ [node]) := by
  induction nodes with
  | nil => exact ⟨hnode, fun _ => rfl, trivial⟩
  | cons first nodes ih =>
    obtain ⟨hfirst, hnext, hnodes⟩ := h
    cases nodes with
    | nil => exact ⟨hfirst, hapart first rfl, hnode, fun _ => rfl, trivial⟩
    | cons second nodes =>
      exact ⟨hfirst, hnext, ih hnodes fun last hlast => hapart last (by simpa using hlast)⟩

namespace Nest

/-- All nodes that a nest holds are canonical, level by level. -/
structure IsCanonical (n : Nest) : Prop where
  level : Node.AreCanonical n.level.reverse
  outer : ∀ p ∈ n.outer, p.1.IsCanonical ∧ Node.AreCanonical p.2.reverse

/-- No text stands right before the place of a nest. -/
def AfterTag (n : Nest) : Prop := Node.startsWithText n.level = false

variable {n n' : Nest} {pos : Nat}

theorem IsCanonical.add {node : Node} (h : n.IsCanonical) (hnode : node.IsCanonical)
    (hapart : n.AfterTag ∨ node.isText = false) : (n.add node).IsCanonical where
  level := by
    rw [Nest.add, List.reverse_cons]
    refine h.level.snoc hnode fun last hlast hlastText => ?_
    rcases hapart with hafter | hnot
    · rw [List.getLast?_reverse] at hlast
      rw [AfterTag, Node.startsWithText, Option.mem_def.1 hlast, Option.any_some,
        hlastText] at hafter
      cases hafter
    · exact hnot
  outer := h.outer

theorem IsCanonical.enter {header : Loop} (h : n.IsCanonical) (hheader : header.IsCanonical) :
    (n.enter header).IsCanonical where
  level := trivial
  outer := by
    intro p hp
    rcases List.mem_cons.1 hp with rfl | hp
    · exact ⟨hheader, h.level⟩
    · exact h.outer p hp

theorem IsCanonical.leave (h : n.IsCanonical) (hl : n.leave? = some n') :
    n'.IsCanonical ∧ n'.AfterTag := by
  obtain ⟨level, outer⟩ := n
  cases outer with
  | nil => cases hl
  | cons p outer =>
    obtain ⟨header, before⟩ := p
    cases hl
    obtain ⟨hheader, hbefore⟩ := h.outer (header, before) (List.mem_cons_self ..)
    have hn : IsCanonical ⟨before, outer⟩ :=
      ⟨hbefore, fun p hp => h.outer p (List.mem_cons_of_mem _ hp)⟩
    have hloop : (Node.loop header level.reverse).IsCanonical := ⟨hheader, h.level⟩
    exact ⟨hn.add hloop (.inr rfl), rfl⟩

end Nest

/-! ## Items -/

/-- The lexemes of a tag are read as canonical tokens, or not at all. -/
theorem isCanonical_of_mapM {args : Arguments} {tokens : List Token}
    (h : args.lexemes.mapM Token.ofLexeme = .ok tokens) : ∀ t ∈ tokens, t.IsCanonical := by
  have hread := mapM_eq_ok_iff.1 h
  rw [Arguments.lexemes, List.forall₂_map_left_iff] at hread
  clear h
  induction hread with
  | nil => exact List.forall_mem_nil _
  | @cons a t _ _ ht _ ih => exact List.forall_mem_cons.2 ⟨Token.isCanonical_of_ofLexeme a.2 ht, ih⟩

namespace Nest

variable {n n' : Nest} {pos : Nat}

/-- One tag. -/
theorem IsCanonical.addTag {t : TagSource} (h : n.IsCanonical)
    (ht : n.addTag (t.tag pos) = .ok n') :
    n'.IsCanonical ∧ n'.AfterTag := by
  cases addTag_eq_ok_iff.1 ht with
  | @echo tokens _ htokens =>
    have hecho : (Node.echo tokens).IsCanonical := isCanonical_of_mapM htokens
    exact ⟨h.add hecho (.inr rfl), rfl⟩
  | opening _ htokens => exact ⟨h.enter (isCanonical_of_mapM htokens), rfl⟩
  | closing _ _ hleave => exact h.leave hleave

/-- One stretch of text. -/
theorem IsCanonical.addGlyphs {gs : Glyphs '\x7b'} (h : n.IsCanonical) (hafter : n.AfterTag)
    (hfold : gs.items.foldlM addItem n = .ok n') : n'.IsCanonical := by
  unfold Glyphs.items at hfold
  rw [foldlM_textItem] at hfold
  cases hfold
  unfold flush
  split
  · exact h
  · next hne =>
    refine h.add ⟨?_, fun c hc => ?_⟩ (.inl hafter)
    · simpa [isEmpty_ofList] using hne
    · rw [Text.toList_ofList] at hc
      rcases gs.mem_content hc with hc | hc
      · exact hc
      · simp only [List.mem_cons, List.not_mem_nil, or_false] at hc
        rcases hc with rfl | rfl | rfl <;> decide

/-- All tags of a template with the text before them, one after another. -/
theorem IsCanonical.addParts {parts : Parts} (h : n.IsCanonical) (hafter : n.AfterTag)
    (hfold : (parts.items pos).foldlM addItem n = .ok n') : n'.IsCanonical ∧ n'.AfterTag := by
  induction parts generalizing n pos with
  | nil =>
    cases hfold
    exact ⟨h, hafter⟩
  | cons p parts ih =>
    obtain ⟨gs, t⟩ := p
    rw [Parts.items, List.foldlM_append] at hfold
    obtain ⟨n₁, hn₁, hfold⟩ := except_bind_eq_ok.1 hfold
    rw [List.foldlM_cons] at hfold
    obtain ⟨n₂, hn₂, hfold⟩ := except_bind_eq_ok.1 hfold
    obtain ⟨h₂, hafter₂⟩ := (h.addGlyphs hafter hn₁).addTag hn₂
    exact ih h₂ hafter₂ hfold

theorem isCanonical_empty : empty.IsCanonical := ⟨trivial, fun _ hp => nomatch hp⟩

end Nest

/-! ## The image of the parser -/

namespace Node

theorem isCanonicalDocument_of_parse {s : Text} {doc : Node} (h : parse s = .ok doc) :
    doc.IsCanonicalDocument := by
  obtain ⟨nest, hfold, h⟩ := except_bind_eq_ok.1 h
  split at h
  · cases h
  next hfault =>
  obtain ⟨src, -, hitems⟩ := exists_source (show Scan.ofText s = ⟨_, none⟩ by rw [← hfault])
  rw [← hitems, Source.items, List.foldlM_append] at hfold
  obtain ⟨n, hparts, hlast⟩ := except_bind_eq_ok.1 hfold
  obtain ⟨hn, hafter⟩ := Nest.isCanonical_empty.addParts rfl hparts
  have hnest := hn.addGlyphs hafter hlast
  unfold Nest.finish at h
  split at h <;> cases h
  exact hnest.level

/-- **The canonical templates are exactly those that are read from texts**, and each of them
is read from its canonical text. -/
theorem canonical_round_trip (doc : Node) :
    ((∃ s, parse s = .ok doc) ↔ doc.IsCanonicalDocument) ∧
      (doc.IsCanonicalDocument ↔ parse doc.canonical = .ok doc) := by
  have himage : ∀ s, parse s = .ok doc → doc.IsCanonicalDocument := fun _ =>
    isCanonicalDocument_of_parse
  refine ⟨⟨fun ⟨s, hs⟩ => himage s hs, fun h => ⟨_, parse_canonical_eq h⟩⟩, parse_canonical_eq, ?_⟩
  exact himage _

-- A number beyond all doubles is written as an infinity, and an escape that stands for
-- nothing is not written.
example : (parse "\x7b$=1e400 \"\\x\\n\" +$\x7d").map canonical =
    .ok "\x7b$= 1e999 \"\\n\" + $\x7d" := by decide +kernel

end Node

end TagTemplate
