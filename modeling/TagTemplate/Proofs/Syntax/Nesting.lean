/-
Which sequences of items the parser accepts, and that the tree holds just these items in
their order. `Node.marks` reads a tree off in document order, a loop from its header to its
end, and `WellNested` asks that every end tag has a `for` tag of its own before it.

What is kept from item to item is that the marks of all levels of the nest are those of
the items so far, and that as many loops are open as `for` tags are without an end.
-/
import TagTemplate.Proofs.Syntax.Tags

namespace TagTemplate

/-! ## Trees in document order -/

/-- What a reader of a template meets: a stretch of text, an echo, or one of the two ends
of a loop. -/
inductive Mark where
  | text (content : Text)
  | echo (tokens : List Token)
  | opening (header : List Token)
  | closing
  deriving DecidableEq

namespace Node

mutual

/-- The marks of a tree in document order: those of a loop are its header, its children and
its end. -/
def marks : Node → List Mark
  | document children => marksAll children
  | text content => [.text content]
  | echo tokens => [.echo tokens]
  | loop header children => .opening header.tokens :: marksAll children ++ [.closing]

def marksAll : List Node → List Mark
  | [] => []
  | node :: nodes => marks node ++ marksAll nodes

end

theorem marksAll_append (nodes nodes' : List Node) :
    marksAll (nodes ++ nodes') = marksAll nodes ++ marksAll nodes' := by
  induction nodes with
  | nil => simp [marksAll]
  | cons node nodes ih => simp [marksAll, ih]

end Node

/-- An item with its lexemes as the tokens that they are. -/
inductive Item.IsRead : Item → Mark → Prop
  | text (run : Text) : IsRead (.text run) (.text run)
  | echo {tag : Tag} {tokens : List Token} : tag.name = "=" →
      tag.lexemes.mapM Token.ofLexeme = .ok tokens → IsRead (.tag tag) (.echo tokens)
  | opening {tag : Tag} {tokens : List Token} : tag.name = "for" →
      tag.lexemes.mapM Token.ofLexeme = .ok tokens → IsRead (.tag tag) (.opening tokens)
  | closing {tag : Tag} : tag.name = "end" → IsRead (.tag tag) .closing

/-! ## Nesting -/

/-- Whether an item is a tag of this name. -/
def Item.hasName (name : Text) : Item → Bool
  | .text _ => false
  | .tag t => t.name == name

/-- How many tags of this name are among some items. -/
def countTags (name : Text) (items : List Item) : Nat := items.countP (·.hasName name)

@[simp] theorem countTags_nil (name : Text) : countTags name [] = 0 := rfl

@[simp] theorem countTags_cons (name : Text) (item : Item) (items : List Item) :
    countTags name (item :: items) = countTags name items + if item.hasName name then 1 else 0 :=
  List.countP_cons

@[simp] theorem countTags_append (name : Text) (items items' : List Item) :
    countTags name (items ++ items') = countTags name items + countTags name items' :=
  List.countP_append

/-- No end tag comes before the `for` tag that it ends. -/
def NoneUnmatched (items : List Item) : Prop :=
  ∀ before, before <+: items → countTags "end" before ≤ countTags "for" before

/-- Every end tag ends a `for` tag before it, and every `for` tag is ended. -/
structure WellNested (items : List Item) : Prop where
  unmatched : NoneUnmatched items
  ended : countTags "for" items = countTags "end" items

/-! ## One item -/

namespace Nest

/-- The marks of the levels around the innermost one. -/
def outerMarks : List (Loop × List Node) → List Mark
  | [] => []
  | (header, before) :: outer =>
    outerMarks outer ++ Node.marksAll before.reverse ++ [.opening header.tokens]

/-- The marks of all that a nest holds. -/
def marks (n : Nest) : List Mark := outerMarks n.outer ++ Node.marksAll n.level.reverse

variable {n n' : Nest} {item : Item} {items : List Item}

theorem marks_add (n : Nest) (node : Node) : (n.add node).marks = n.marks ++ node.marks := by
  simp [marks, add, Node.marksAll_append, Node.marksAll]

theorem marks_enter (n : Nest) (header : Loop) :
    (n.enter header).marks = n.marks ++ [.opening header.tokens] := by
  simp [marks, enter, outerMarks, Node.marksAll]

theorem leave?_eq_some (h : n.leave? = some n') :
    n'.marks = n.marks ++ [.closing] ∧ n'.outer.length + 1 = n.outer.length := by
  obtain ⟨level, outer⟩ := n
  cases outer with
  | nil => cases h
  | cons p outer =>
    cases h
    simp [marks, outerMarks, Node.marksAll_append, Node.marksAll, Node.marks]

/-- What an item does that is accepted: its mark comes behind those before, and a loop more
or less is open. -/
theorem addItem_ok (h : n.addItem item = .ok n') :
    (∀ tag, item = .tag tag → tag.IsSound) ∧
      (∃ mark, item.IsRead mark ∧ n'.marks = n.marks ++ [mark]) ∧
      n'.outer.length + countTags "end" [item] = n.outer.length + countTags "for" [item] := by
  cases item with
  | text run =>
    cases h
    refine ⟨nofun, ⟨_, .text run, marks_add n _⟩, rfl⟩
  | tag tag =>
    have h := addTag_eq_ok_iff.1 h
    refine ⟨fun _ heq => (Item.tag.inj heq) ▸ h.isSound, ?_⟩
    cases h with
    | echo hname htokens =>
      exact ⟨⟨_, .echo hname htokens, marks_add n _⟩, by simp [Item.hasName, hname, add]⟩
    | opening hname htokens =>
      exact ⟨⟨_, .opening hname htokens, marks_enter n _⟩, by simp [Item.hasName, hname, enter]⟩
    | closing hname _ hleave =>
      obtain ⟨hmarks, hlength⟩ := leave?_eq_some hleave
      refine ⟨⟨_, .closing hname, hmarks⟩, ?_⟩
      simp [Item.hasName, hname, hlength]

theorem exists_addItem (hsound : ∀ tag, item = .tag tag → tag.IsSound)
    (hopen : countTags "end" [item] ≤ n.outer.length + countTags "for" [item]) :
    ∃ n', n.addItem item = .ok n' := by
  cases item with
  | text run => exact ⟨_, rfl⟩
  | tag tag =>
    refine (exists_takes (hsound tag rfl) fun hname houter => ?_).imp fun _ => addTag_eq_ok_iff.2
    simp [Item.hasName, hname, houter] at hopen

/-! ## All items -/

/-- What a run over accepted items has done. -/
theorem foldlM_ok (h : items.foldlM addItem n = .ok n') :
    (∀ tag, .tag tag ∈ items → tag.IsSound) ∧
      (∃ marks, List.Forall₂ Item.IsRead items marks ∧ n'.marks = n.marks ++ marks) ∧
      n'.outer.length + countTags "end" items = n.outer.length + countTags "for" items ∧
      ∀ before, before <+: items →
        countTags "end" before ≤ n.outer.length + countTags "for" before := by
  induction items generalizing n with
  | nil =>
    cases h
    refine ⟨by simp, ⟨[], .nil, by simp⟩, rfl, ?_⟩
    intro before hbefore
    simp [List.prefix_nil.1 hbefore]
  | cons item items ih =>
    rw [List.foldlM_cons] at h
    obtain ⟨n₁, h₁, h⟩ := except_bind_eq_ok.1 h
    obtain ⟨hsound₁, ⟨mark, hread, hmark⟩, hlength₁⟩ := addItem_ok h₁
    obtain ⟨hsound, ⟨marks, hreads, hmarks⟩, hlength, hbefore⟩ := ih h
    simp only [countTags_cons, countTags_nil] at hlength₁
    refine ⟨?_, ⟨mark :: marks, .cons hread hreads, by simp [hmarks, hmark]⟩, ?_, ?_⟩
    · intro tag htag
      rcases List.mem_cons.1 htag with htag | htag
      · exact hsound₁ tag htag.symm
      · exact hsound tag htag
    · simp only [countTags_cons]
      omega
    · intro before hp
      rcases List.prefix_cons_iff.1 hp with rfl | ⟨p, rfl, hprefix⟩
      · simp
      · have hcount := hbefore p hprefix
        simp only [countTags_cons]
        omega

/-- Sound tags are accepted as long as no end tag is without a loop. -/
theorem exists_foldlM (hsound : ∀ tag, .tag tag ∈ items → tag.IsSound)
    (hopen : ∀ before, before <+: items →
      countTags "end" before ≤ n.outer.length + countTags "for" before) :
    ∃ n', items.foldlM addItem n = .ok n' := by
  induction items generalizing n with
  | nil => exact ⟨n, rfl⟩
  | cons item items ih =>
    obtain ⟨n₁, h₁⟩ : ∃ n₁, n.addItem item = .ok n₁ :=
      exists_addItem (fun tag htag => hsound tag (by simp [htag])) (hopen [item] (by simp))
    have hlength := (addItem_ok h₁).2.2
    obtain ⟨n', h'⟩ : ∃ n', items.foldlM addItem n₁ = .ok n' := by
      refine ih (fun tag htag => hsound tag (by simp [htag])) fun before hbefore => ?_
      have hcount := hopen (item :: before) (by simpa using hbefore)
      simp only [countTags_cons, countTags_nil] at hcount hlength
      omega
    exact ⟨n', by rw [List.foldlM_cons, h₁]; exact h'⟩

/-- The same for a nest in which nothing is open yet. -/
theorem exists_foldlM_empty (hsound : ∀ tag, .tag tag ∈ items → tag.IsSound)
    (hnone : NoneUnmatched items) :
    ∃ n, items.foldlM addItem empty = .ok n ∧
      n.outer.length + countTags "end" items = countTags "for" items := by
  obtain ⟨n, hn⟩ : ∃ n, items.foldlM addItem empty = .ok n :=
    exists_foldlM hsound fun before hbefore => by simpa [empty] using hnone before hbefore
  have hlength := (foldlM_ok hn).2.2.1
  simp only [empty, List.length_nil, Nat.zero_add] at hlength
  exact ⟨n, hn, hlength⟩

/-- A run that fails does so at a lexeme or for a fault of the syntax. -/
theorem foldlM_error {f : Fault} (h : items.foldlM addItem n = .error f) :
    (∃ cause, f = .malformed cause) ∨
      ∃ tag, .tag tag ∈ items ∧ ∃ l ∈ tag.lexemes, Token.ofLexeme l = .error f := by
  induction items generalizing n with
  | nil => cases h
  | cons item items ih =>
    rw [List.foldlM_cons] at h
    cases h₁ : n.addItem item with
    | ok n₁ =>
      rw [h₁] at h
      refine (ih h).imp_right ?_
      rintro ⟨tag, htag, hl⟩
      exact ⟨tag, by simp [htag], hl⟩
    | error err =>
      rw [h₁] at h
      cases h
      cases item with
      | text run => cases h₁
      | tag tag => exact (addTag_eq_error h₁).imp_right fun hl => ⟨tag, by simp, hl⟩

end Nest

/-! ## Templates -/

namespace Node

/-- A text is refused as no template, with this message. -/
def Refuses (s message : Text) : Prop :=
  ∃ f, parse s = .error f ∧ f.category = "ParseError" ∧ f.message = message

theorem parse_eq_ok_iff {s : Text} {doc : Node} :
    parse s = .ok doc ↔ (Scan.ofText s).fault = none ∧
      ∃ nest, (Scan.ofText s).items.foldlM Nest.addItem Nest.empty = .ok nest ∧
        nest.outer = [] ∧ doc = document nest.level.reverse := by
  rw [parse, ofScan, except_bind_eq_ok]
  cases (Scan.ofText s).fault with
  | some fault => simp [throw, throwThe, MonadExceptOf.throw]
  | none =>
    simp only [true_and]
    refine exists_congr fun nest => and_congr_right fun _ => ?_
    unfold Nest.finish
    cases nest.outer with
    | nil => simp [eq_comm]
    | cons p outer => simp

/-- A document is read back from the marks of its nest. -/
theorem marks_document (nest : Nest) (h : nest.outer = []) :
    (document nest.level.reverse).marks = nest.marks := by
  simp [marks, Nest.marks, Nest.outerMarks, h]

/-- The marks of a tree are the items of its text one by one. -/
theorem isRead_of_parse {s : Text} {doc : Node} (h : parse s = .ok doc) :
    List.Forall₂ Item.IsRead (Scan.ofText s).items doc.marks := by
  obtain ⟨-, nest, hfold, houter, rfl⟩ := parse_eq_ok_iff.1 h
  obtain ⟨-, ⟨marks, hreads, hmarks⟩, -⟩ := Nest.foldlM_ok hfold
  rw [marks_document nest houter, hmarks]
  exact hreads

theorem category_of_parse_error {s : Text} {f : Fault} (h : parse s = .error f)
    (hread : ∀ tag, .tag tag ∈ (Scan.ofText s).items → ∀ l ∈ tag.lexemes, ¬l.IsOverlong) :
    f.category = "ParseError" := by
  suffices hcause : ∃ cause, f = .malformed cause by
    obtain ⟨cause, rfl⟩ := hcause
    rfl
  unfold parse ofScan at h
  cases hfold : (Scan.ofText s).items.foldlM Nest.addItem Nest.empty with
  | error err =>
    rw [hfold] at h
    cases h
    rcases Nest.foldlM_error hfold with hcause | ⟨tag, htag, l, hl, hf⟩
    · exact hcause
    · exact (Token.ofLexeme_eq_error hf).resolve_right (hread tag htag l hl)
  | ok nest =>
    simp only [hfold, bind, Except.bind] at h
    split at h
    · cases h
      exact ⟨_, rfl⟩
    · unfold Nest.finish at h
      split at h <;> cases h
      exact ⟨_, rfl⟩

section Refusals

variable {s : Text} (hscan : (Scan.ofText s).fault = none)
  (hsound : ∀ tag, .tag tag ∈ (Scan.ofText s).items → tag.IsSound)
include hsound

/-- The first end tag for which no loop is open is what is wrong. -/
theorem refuses_unmatched {before after : List Item} {tag : Tag}
    (hitems : (Scan.ofText s).items = before ++ .tag tag :: after) (hname : tag.name = "end")
    (hbefore : NoneUnmatched before)
    (hfirst : countTags "for" before < countTags "end" (before ++ [.tag tag])) :
    Refuses s ("too many end tags at " ++ toString tag.pos) := by
  have hmem : Item.tag tag ∈ (Scan.ofText s).items := by simp [hitems]
  obtain ⟨n, hn, hlength⟩ :=
    Nest.exists_foldlM_empty (fun tag htag => hsound tag (by simp [hitems, htag])) hbefore
  have houter : n.outer = [] := by
    simp only [countTags_append, countTags_cons, countTags_nil, Item.hasName, hname,
      beq_self_eq_true,
      if_true] at hfirst
    exact List.eq_nil_of_length_eq_zero (by omega)
  refine ⟨.malformed (.endUnmatched tag.pos), ?_, rfl, rfl⟩
  rw [parse, ofScan, hitems, List.foldlM_append, hn]
  simp only [bind, Except.bind, List.foldlM_cons, Nest.addItem,
    Nest.addTag_unmatched (hsound tag hmem) hname houter]

include hscan

/-- Loops that stay open are what is wrong if nothing else is. -/
theorem refuses_open (hnone : NoneUnmatched (Scan.ofText s).items)
    (hmore : countTags "end" (Scan.ofText s).items < countTags "for" (Scan.ofText s).items) :
    Refuses s ("missing end tags: " ++ toString (countTags "for" (Scan.ofText s).items -
      countTags "end" (Scan.ofText s).items) ++ " for loop(s) left open") := by
  obtain ⟨n, hn, hlength⟩ := Nest.exists_foldlM_empty hsound hnone
  have hopen : n.outer.length =
      countTags "for" (Scan.ofText s).items - countTags "end" (Scan.ofText s).items := by omega
  have hne : n.outer.isEmpty = false := by
    rw [List.isEmpty_eq_false_iff, ← List.length_pos_iff]
    omega
  refine ⟨.malformed (.loopsOpen n.outer.length), ?_, rfl, by rw [hopen]; rfl⟩
  simp [parse, ofScan, hn, hscan, bind, Except.bind, Nest.finish, hne]

end Refusals

/-- **The parser accepts exactly the well nested sequences of sound tags, and loses,
duplicates and reorders nothing.** A text without integers that are too long to be read is
a template just if it is scanned without a fault, each of its tags is sound and the tags
are well nested; the marks of the tree are then the items one by one. Otherwise the text
is refused as no template, and if nothing is wrong but the nesting, the message names the
first end tag too many or says how many loops are left open. -/
theorem parse_nesting (s : Text)
    (hread : ∀ tag, .tag tag ∈ (Scan.ofText s).items → ∀ l ∈ tag.lexemes, ¬l.IsOverlong) :
    ((∃ doc, parse s = .ok doc) ↔ (Scan.ofText s).fault = none ∧
        (∀ tag, .tag tag ∈ (Scan.ofText s).items → tag.IsSound) ∧
        WellNested (Scan.ofText s).items) ∧
      (∀ doc, parse s = .ok doc → List.Forall₂ Item.IsRead (Scan.ofText s).items doc.marks) ∧
      (∀ f, parse s = .error f → f.category = "ParseError") ∧
      ((Scan.ofText s).fault = none →
        (∀ tag, .tag tag ∈ (Scan.ofText s).items → tag.IsSound) →
        (∀ before (tag : Tag) after, (Scan.ofText s).items = before ++ .tag tag :: after →
          tag.name = "end" → NoneUnmatched before →
          countTags "for" before < countTags "end" (before ++ [.tag tag]) →
          Refuses s ("too many end tags at " ++ toString tag.pos)) ∧
        (NoneUnmatched (Scan.ofText s).items →
          countTags "end" (Scan.ofText s).items < countTags "for" (Scan.ofText s).items →
          Refuses s ("missing end tags: " ++ toString (countTags "for" (Scan.ofText s).items -
            countTags "end" (Scan.ofText s).items) ++ " for loop(s) left open"))) := by
  refine ⟨⟨?_, ?_⟩, fun _ => isRead_of_parse, fun f hf => category_of_parse_error hf hread,
    fun hscan hsound => ⟨fun _ _ _ => refuses_unmatched hsound, refuses_open hscan hsound⟩⟩
  · rintro ⟨doc, hdoc⟩
    obtain ⟨hscan, nest, hfold, houter, -⟩ := parse_eq_ok_iff.1 hdoc
    obtain ⟨hsound, -, hlength, hbefore⟩ := Nest.foldlM_ok hfold
    simp only [Nest.empty, houter, List.length_nil, Nat.zero_add] at hlength hbefore
    exact ⟨hscan, hsound, hbefore, hlength.symm⟩
  · rintro ⟨hscan, hsound, hnone, hended⟩
    obtain ⟨nest, hfold, hlength⟩ := Nest.exists_foldlM_empty hsound hnone
    have houter : nest.outer = [] := List.eq_nil_of_length_eq_zero (by omega)
    exact ⟨_, parse_eq_ok_iff.2 ⟨hscan, nest, hfold, houter, rfl⟩⟩

/-- A loop that is ended twice. -/
theorem refuses_second_end :
    (∀ tag, .tag tag ∈ (Scan.ofText "\x7b$for i 1 +2.5$\x7d\x7b$end$\x7d\x7b$END$\x7d").items →
        ∀ l ∈ tag.lexemes, ¬l.IsOverlong) ∧
      Refuses "\x7b$for i 1 +2.5$\x7d\x7b$end$\x7d\x7b$END$\x7d" "too many end tags at 23" := by
  let begun : Tag := ⟨"for", [⟨"i", false⟩, ⟨"1", false⟩, ⟨"+2.5", false⟩], 0⟩
  have hscan : Scan.ofText "\x7b$for i 1 +2.5$\x7d\x7b$end$\x7d\x7b$END$\x7d" =
      ⟨[.tag begun, .tag ⟨"end", [], 16⟩, .tag ⟨"end", [], 23⟩], none⟩ := by decide +kernel
  have hread : ∀ tag, .tag tag ∈
      (Scan.ofText "\x7b$for i 1 +2.5$\x7d\x7b$end$\x7d\x7b$END$\x7d").items →
      ∀ l ∈ tag.lexemes, ¬l.IsOverlong := by
    intro tag htag l hl hlong
    have hshort : l.text.toList.length ≤ 4 := by
      rw [hscan] at htag
      simp only [List.mem_cons, Item.tag.injEq, List.not_mem_nil, or_false] at htag
      rcases htag with rfl | rfl | rfl
      · simp only [begun, List.mem_cons, List.not_mem_nil, or_false] at hl
        rcases hl with rfl | rfl | rfl <;> decide
      · cases hl
      · cases hl
    obtain ⟨-, sign, -, ds, htext, -, hmany⟩ := hlong
    rw [htext, List.length_append] at hshort
    omega
  have hbegun : begun.IsSound := by
    have hvariable : Token.ofLexeme ⟨"i", false⟩ = .ok (.loopVariable "i") := by decide
    have hstart : Token.ofLexeme ⟨"1", false⟩ = .ok (.integer 1) := by decide
    have hstop :
        Token.ofLexeme ⟨"+2.5", false⟩ = .ok (.double (.ofRank false 0x4004000000000000)) := by
      decide +kernel
    refine ⟨.inr (.inl rfl), fun _ l hl => ?_, fun _ => .inl rfl, fun _ l hl => ?_, by simp [begun]⟩
    · simp only [begun, List.mem_cons, List.not_mem_nil, or_false] at hl
      rcases hl with rfl | rfl | rfl
      · exact ⟨_, hvariable⟩
      · exact ⟨_, hstart⟩
      · exact ⟨_, hstop⟩
    · cases hl
      exact ⟨_, hvariable⟩
  have hend : ∀ pos, Tag.IsSound ⟨"end", [], pos⟩ := fun pos =>
    ⟨.inr (.inr rfl), by simp, by simp, by simp, fun _ => rfl⟩
  refine ⟨hread, ((parse_nesting _ hread).2.2.2 (by rw [hscan]) ?_).1
    [.tag begun, .tag ⟨"end", [], 16⟩] ⟨"end", [], 23⟩ [] (by rw [hscan]; rfl) rfl ?_ (by decide)⟩
  · rw [hscan]
    intro tag htag
    simp only [List.mem_cons, Item.tag.injEq, List.not_mem_nil, or_false] at htag
    rcases htag with rfl | rfl | rfl
    · exact hbegun
    · exact hend 16
    · exact hend 23
  · intro before hbefore
    simp only [List.prefix_cons_iff, List.prefix_nil] at hbefore
    rcases hbefore with rfl | ⟨_, rfl, rfl | ⟨_, rfl, rfl⟩⟩ <;> decide

end Node

end TagTemplate
