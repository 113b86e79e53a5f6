/-
Two templates one after the other. The text at the end of the first one and the text at
the begin of the second one become one stretch; all else is as it was, since what the
parser does to the levels of a nest does not depend on the nodes before them
(`Nest.above`), and a tag that is accepted is accepted wherever it stands.
-/
import Mathlib.Data.List.Induction
import TagTemplate.Proofs.Syntax.Acceptance
import TagTemplate.Proofs.Syntax.CanonicalNode
import TagTemplate.Proofs.Syntax.Nesting

namespace TagTemplate

/-! ## Sources -/

theorem Glyphs.content_append {stop : CodePoint} (gs gs' : Glyphs stop) :
    Glyphs.content (gs ++ gs') = gs.content ++ gs'.content :=
  List.flatMap_append

/-- The text before the first tag apart from the rest. -/
theorem Parts.items_cons (gs : Glyphs '\x7b') (t : TagSource) (parts : Parts) (pos : Nat) :
    Parts.items pos ((gs, t) :: parts) =
      gs.items ++ Parts.items (pos + gs.chars.length) (([], t) :: parts) := rfl

/-- One template after another one. -/
def Source.append (a b : Source) : Source :=
  match b.parts with
  | [] => ⟨a.parts, a.last ++ b.last, b.lone⟩
  | (gs, t) :: parts => ⟨a.parts ++ (a.last ++ gs, t) :: parts, b.last, b.lone⟩

theorem Source.text_append {a b : Source} (h : a.lone = false) :
    (a.append b).text = a.text ++ b.text := by
  suffices hchars : (a.append b).chars = a.chars ++ b.chars by
    rw [text, text, text, hchars, Text.ofList_append]
  obtain ⟨parts, last, lone⟩ := b
  unfold append
  cases parts with
  | nil => simp [chars, h, Parts.chars, Glyphs.chars]
  | cons p parts =>
    obtain ⟨gs, t⟩ := p
    simp [chars, h, Parts.chars, Glyphs.chars]

/-! ## Lone backslashes -/

/-- How many backslashes are at the end of some characters. -/
def finalBackslashes (cs : List CodePoint) : Nat := (cs.reverse.takeWhile (· = ↑ '\\')).length

/-- Whether a text ends in a lone backslash. Each one begins a pair with the character after
it, so the last one is lone just if an odd number of them is at the end. -/
def EndsInLoneBackslash (s : Text) : Prop := finalBackslashes s.toList % 2 = 1

instance (s : Text) : Decidable (EndsInLoneBackslash s) := inferInstanceAs (Decidable (_ = _))

theorem finalBackslashes_snoc (cs : List CodePoint) (c : CodePoint) :
    finalBackslashes (cs ++ [c]) = if c = '\\' then finalBackslashes cs + 1 else 0 := by
  simp only [finalBackslashes, List.reverse_append, List.reverse_singleton, List.singleton_append,
    List.takeWhile_cons, decide_eq_true_eq]
  split <;> simp

theorem Parts.finalBackslashes_chars (parts : Parts) : finalBackslashes parts.chars = 0 := by
  induction parts using List.reverseRecOn with
  | nil => rfl
  | append_singleton parts p _ =>
    obtain ⟨gs, t⟩ := p
    rw [Parts.chars_snoc, TagSource.chars, ← List.append_assoc, ← List.append_assoc]
    exact finalBackslashes_snoc _ '\x7d'

/-- Escapes before the end of a text are pairs. -/
theorem finalBackslashes_even (parts : Parts) (gs : Glyphs '\x7b') :
    finalBackslashes (parts.chars ++ gs.chars) % 2 = 0 := by
  induction gs using List.reverseRecOn with
  | nil => simp [Glyphs.chars, parts.finalBackslashes_chars]
  | append_singleton gs g ih =>
    rw [Glyphs.chars_snoc, ← List.append_assoc]
    cases g with
    | plain c allowed => rw [Glyph.chars, finalBackslashes_snoc, if_neg allowed.2]
    | escape c =>
      rw [Glyph.chars, List.append_cons, finalBackslashes_snoc, finalBackslashes_snoc]
      split
      · simp only [if_true]
        omega
      · rfl

theorem Source.lone_eq_false {src : Source} (h : ¬EndsInLoneBackslash src.text) :
    src.lone = false := by
  rw [Bool.eq_false_iff]
  intro hlone
  have heven := finalBackslashes_even src.parts src.last
  refine h ?_
  rw [EndsInLoneBackslash, text, Text.toList_ofList, chars, if_pos hlone, finalBackslashes_snoc,
    if_pos rfl]
  omega

/-! ## Nests above other nodes -/

namespace Nest

/-- These levels with nodes before all others. -/
def onto (base level : List Node) : List (Loop × List Node) → Nest
  | [] => ⟨level ++ base, []⟩
  | (header, before) :: outer =>
    ⟨level, (header, (onto base before outer).level) :: (onto base before outer).outer⟩

/-- The nest with nodes before all others, the last one first like all nodes of a nest. -/
def above (n : Nest) (base : List Node) : Nest := onto base n.level n.outer

variable {n m : Nest} {base : List Node} {tag tag' : Tag}

theorem above_add (n : Nest) (base : List Node) (node : Node) :
    (n.add node).above base = (n.above base).add node := by
  obtain ⟨level, outer⟩ := n
  cases outer <;> rfl

theorem above_enter (n : Nest) (base : List Node) (header : Loop) :
    (n.enter header).above base = (n.above base).enter header := rfl

theorem above_leave? (n : Nest) (base : List Node) :
    (n.above base).leave? = n.leave?.map (·.above base) := by
  obtain ⟨level, outer⟩ := n
  cases outer with
  | nil => rfl
  | cons p outer =>
    obtain ⟨header, before⟩ := p
    exact congrArg some (above_add ⟨before, outer⟩ base (.loop header level.reverse)).symm

theorem above_eq_of_outer_eq_nil (h : n.outer = []) : n.above base = ⟨n.level ++ base, []⟩ := by
  rw [above, h, onto]

theorem outer_above_eq_nil_iff : (n.above base).outer = [] ↔ n.outer = [] := by
  obtain ⟨level, outer⟩ := n
  cases outer <;> simp [above, onto]

/-- The position of a tag makes no difference to what it does. -/
theorem Takes.congr (h : n.Takes tag m) (hname : tag.name = tag'.name)
    (hlexemes : tag.lexemes = tag'.lexemes) : n.Takes tag' m := by
  cases h with
  | echo hn hread => exact .echo (hname ▸ hn) (hlexemes ▸ hread)
  | opening hn hread => exact .opening (hname ▸ hn) (hlexemes ▸ hread)
  | closing hn hbare hleave => exact .closing (hname ▸ hn) (hlexemes ▸ hbare) hleave

theorem takes_above : (n.above base).Takes tag m ↔ ∃ n', n.Takes tag n' ∧ n'.above base = m := by
  constructor
  · intro h
    cases h with
    | echo hn hread => exact ⟨_, .echo hn hread, above_add ..⟩
    | opening hn hread => exact ⟨_, .opening hn hread, above_enter ..⟩
    | closing hn hbare hleave =>
      rw [above_leave?, Option.map_eq_some_iff] at hleave
      obtain ⟨n', hn', rfl⟩ := hleave
      exact ⟨n', .closing hn hbare hn', rfl⟩
  · rintro ⟨n', h, rfl⟩
    cases h with
    | echo hn hread =>
      rw [above_add]
      exact .echo hn hread
    | opening hn hread => exact .opening hn hread
    | closing hn hbare hleave => exact .closing hn hbare (by rw [above_leave?, hleave]; rfl)

/-- A stretch of text as nodes: none if it is empty. -/
def run (text : Text) : List Node := if text.isEmpty then [] else [.text text]

@[simp] theorem reverse_run (text : Text) : (run text).reverse = run text := by
  unfold run
  split <;> rfl

theorem flush_eq (n : Nest) (text : Text) : n.flush text = ⟨run text ++ n.level, n.outer⟩ := by
  unfold flush run
  split <;> rfl

theorem above_flush (n : Nest) (base : List Node) (text : Text) :
    (n.flush text).above base = (n.above base).flush text := by
  unfold flush
  split
  · rfl
  · exact above_add ..

/-- Tags with the text before them do the same above other nodes and at other places. -/
theorem foldlM_above (parts : Parts) (pos pos' : Nat) :
    (parts.items pos).foldlM addItem (n.above base) = .ok m ↔
      ∃ n', (parts.items pos').foldlM addItem n = .ok n' ∧ n'.above base = m := by
  induction parts generalizing n pos pos' with
  | nil => simp [Parts.items, pure, Except.pure]
  | cons p parts ih =>
    obtain ⟨gs, t⟩ := p
    simp only [Parts.items, List.foldlM_append, Glyphs.items, foldlM_textItem, List.foldlM_cons,
      except_bind_eq_ok, Except.ok.injEq, exists_eq_left', addItem, addTag_eq_ok_iff, ← above_flush,
      takes_above]
    constructor
    · rintro ⟨_, ⟨n₁, h₁, rfl⟩, h⟩
      obtain ⟨n', h', rfl⟩ := (ih _ (pos' + gs.chars.length + t.chars.length)).1 h
      exact ⟨n', ⟨n₁, h₁.congr rfl rfl, h'⟩, rfl⟩
    · rintro ⟨n', ⟨n₁, h₁, h'⟩, rfl⟩
      exact ⟨_, ⟨n₁, h₁.congr rfl rfl, rfl⟩, (ih _ _).2 ⟨n', h', rfl⟩⟩

end Nest

/-! ## Trees -/

namespace Node

open Nest

/-- The tree of a template, told by its parts and the text after them. -/
theorem parse_text_eq_ok_iff (src : Source) (doc : Node) :
    parse src.text = .ok doc ↔ ∃ n, (src.parts.items 0).foldlM addItem empty = .ok n ∧
      n.outer = [] ∧ doc = document (n.level.reverse ++ run (.ofList src.last.content)) := by
  rw [parse_eq_ok_iff, src.scan_text, Source.items, List.foldlM_append]
  simp only [except_bind_eq_ok, Glyphs.items, foldlM_textItem, true_and, Except.ok.injEq,
    exists_exists_and_eq_and]
  refine exists_congr fun n => and_congr_right fun _ => ?_
  rw [flush_eq, List.reverse_append, reverse_run]

theorem exists_source_of_parse {s : Text} {doc : Node} (h : parse s = .ok doc) :
    ∃ src : Source, src.text = s := by
  have hfault := (parse_eq_ok_iff.1 h).1
  obtain ⟨src, hsrc, -⟩ := exists_source (show Scan.ofText s = ⟨_, none⟩ by rw [← hfault])
  exact ⟨src, hsrc⟩

/-- **Reading two templates one after the other.** If the first one does not end in a lone
backslash, the tree has the nodes of both, with the text at their seam in one. -/
theorem parse_append {a b : Text} {docA docB : Node} (ha : parse a = .ok docA)
    (hb : parse b = .ok docB) (hlone : ¬EndsInLoneBackslash a) :
    ∃ before x y after, docA = document (before ++ run x) ∧ docB = document (run y ++ after) ∧
      parse (a ++ b) = .ok (document (before ++ run (x ++ y) ++ after)) := by
  obtain ⟨srcA, rfl⟩ := exists_source_of_parse ha
  obtain ⟨srcB, rfl⟩ := exists_source_of_parse hb
  obtain ⟨n, hn, houter, rfl⟩ := (parse_text_eq_ok_iff ..).1 ha
  obtain ⟨m, hm, hmouter, rfl⟩ := (parse_text_eq_ok_iff ..).1 hb
  rw [← Source.text_append (Source.lone_eq_false hlone)]
  simp only [parse_text_eq_ok_iff]
  obtain ⟨parts, last, lone⟩ := srcB
  unfold Source.append
  cases parts with
  | nil =>
    cases hm
    refine ⟨n.level.reverse, _, .ofList last.content, [], rfl, by simp [empty], n, hn, houter, ?_⟩
    simp [Glyphs.content_append, Text.ofList_append]
  | cons p parts =>
    obtain ⟨gs, t⟩ := p
    -- The first stretch of text becomes the base that the rest is read above.
    let rest : Parts := ([], t) :: parts
    have hflush : ∀ (n : Nest) (text : Text), n.outer = [] →
        n.flush text = empty.above (run text ++ n.level) := fun n text h => by
      rw [flush_eq, h]
      rfl
    rw [Parts.items_cons, List.foldlM_append, Glyphs.items, foldlM_textItem, hflush _ _ rfl] at hm
    obtain ⟨m', hm', rfl⟩ := (foldlM_above rest _ 0).1 hm
    rw [outer_above_eq_nil_iff] at hmouter
    refine ⟨n.level.reverse, _, .ofList gs.content,
      m'.level.reverse ++ run (.ofList last.content), rfl,
      ?_, m'.above (run (.ofList (srcA.last ++ gs).content) ++ n.level), ?_, ?_, ?_⟩
    · rw [above_eq_of_outer_eq_nil hmouter]
      simp [empty]
    · rw [Parts.items_append, Parts.items_cons, List.foldlM_append, hn]
      show (Glyphs.items _ ++ _).foldlM addItem n = _
      rw [List.foldlM_append, Glyphs.items, foldlM_textItem, hflush _ _ houter]
      exact (foldlM_above rest _ 0).2 ⟨m', hm', rfl⟩
    · rwa [outer_above_eq_nil_iff]
    · rw [above_eq_of_outer_eq_nil hmouter]
      simp [Glyphs.content_append, Text.ofList_append]

end Node

end TagTemplate
