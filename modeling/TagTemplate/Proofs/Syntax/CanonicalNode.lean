/-
The templates that can be read from a text, and that their canonical texts read back as
them.

The proof goes through the text of a tree as scanner and parser do together. `Reads`
says what state and what nest they are in after some characters; a stretch of text that
has been collected and not given out yet is pending, and `Nest.flush` adds it.
-/
import TagTemplate.Node.Parser
import TagTemplate.Proofs.Syntax.CanonicalToken
import TagTemplate.Proofs.Syntax.Scanning

namespace TagTemplate

/-! ## Canonical templates -/

def Loop.IsCanonical (l : Loop) : Prop := ∀ t ∈ l.tokens, t.IsCanonical

namespace Node

def isText : Node → Bool
  | text _ => true
  | _ => false

/-- Whether the first of some nodes is a stretch of text. -/
def startsWithText (nodes : List Node) : Bool := nodes.head?.any isText

mutual

/-- A node that some part of a text is read as. Documents are not nested. -/
def IsCanonical : Node → Prop
  | document _ => False
  | text content => content ≠ "" ∧ ∀ c ∈ content.toList, c ≠ '\x7b' ∧ c ≠ '\\'
  | echo tokens => ∀ t ∈ tokens, t.IsCanonical
  | loop header children => header.IsCanonical ∧ AreCanonical children

/-- No two stretches of text are next to each other. -/
def AreCanonical : List Node → Prop
  | [] => True
  | node :: nodes =>
    node.IsCanonical ∧ (node.isText = true → startsWithText nodes = false) ∧ AreCanonical nodes

end

/-- A whole template that some text is read as. -/
def IsCanonicalDocument : Node → Prop
  | document children => AreCanonical children
  | _ => False

end Node

/-! ## Scanning and parsing together -/

open ScanState

/-- Wherever they begin, some characters bring the scan and the nest from one state to
another. -/
def Reads (st : ScanState) (n : Nest) (cs : List CodePoint) (st' : ScanState) (n' : Nest) : Prop :=
  ∀ pos, ∃ items, Feeds pos st cs items st' ∧ items.foldlM Nest.addItem n = .ok n'

namespace Reads

variable {st st₁ st' : ScanState} {n n₁ n' : Nest} {cs ds : List CodePoint}

theorem trans (h₁ : Reads st n cs st₁ n₁) (h₂ : Reads st₁ n₁ ds st' n') :
    Reads st n (cs ++ ds) st' n' := by
  intro pos
  obtain ⟨items, hfeed, hfold⟩ := h₁ pos
  obtain ⟨items', hfeed', hfold'⟩ := h₂ (pos + cs.length)
  refine ⟨items ++ items', hfeed.trans hfeed', ?_⟩
  rw [List.foldlM_append, hfold]
  exact hfold'

theorem nil : Reads st n [] st n := fun _ => ⟨[], .nil, rfl⟩

end Reads

namespace Nest

/-- The nest with a pending stretch of text. -/
def flush (n : Nest) (run : Text) : Nest := if run.isEmpty then n else n.add (.text run)

theorem flush_empty (n : Nest) : n.flush "" = n := rfl

theorem foldlM_textItem (n : Nest) (run : Text) :
    (textItem run).toList.foldlM addItem n = .ok (n.flush run) := by
  unfold textItem flush
  split <;> rfl

end Nest

/-- A tag ends a stretch of text and does to the nest what it is for. -/
theorem TagSource.reads (t : TagSource) {n n' : Nest} {run : Text}
    (h : ∀ pos, (n.flush run).addTag (t.tag pos) = .ok n') :
    Reads (.text run) n t.chars (.text "") n' := by
  intro pos
  refine ⟨_, t.feeds, ?_⟩
  rw [List.foldlM_append, Nest.foldlM_textItem]
  show [Item.tag (t.tag pos)].foldlM Nest.addItem (n.flush run) = .ok n'
  rw [List.foldlM_cons, Nest.addItem, h pos]
  rfl

/-- Characters of plain text are collected as they are. -/
theorem reads_text {cs : List CodePoint} (h : ∀ c ∈ cs, c ≠ '\x7b' ∧ c ≠ '\\') (n : Nest) :
    Reads (.text "") n cs (.text (.ofList cs)) n := by
  obtain ⟨gs, hchars, hcontent⟩ : ∃ gs : Glyphs '\x7b', gs.chars = cs ∧ gs.content = cs := by
    induction cs with
    | nil => exact ⟨[], rfl, rfl⟩
    | cons c cs ih =>
      obtain ⟨gs, hchars, hcontent⟩ := ih fun d hd => h d (by simp [hd])
      exact ⟨.plain c (h c (by simp)) :: gs, congrArg (c :: ·) hchars, congrArg (c :: ·) hcontent⟩
  intro pos
  have hfeed : Feeds pos (.text (.ofList [])) gs.chars [] (.text (.ofList ([] ++ gs.content))) :=
    gs.feeds_text
  rw [hchars, hcontent] at hfeed
  exact ⟨[], hfeed, rfl⟩

/-! ## Tags of canonical texts -/

/-- A tag as it is written in canonical texts: one space before each lexeme. -/
def TagSource.spaced (inner : Blanks) (name : TagName) (args : Arguments)
    (h : ∀ a ∈ args, a.1 = Blanks.space) (trailing : Blanks) : TagSource where
  head :=
    { outer := .none
      inner := inner
      name := name
      args := args
      spaced := by
        intro a ha hnil
        rw [h a (List.mem_of_mem_tail ha)] at hnil
        cases hnil
      apart := by
        intro a ha hnil
        rw [h a (List.mem_of_mem_head? ha)] at hnil
        cases hnil }
  trailing := trailing
  closing := .none

/-- Canonical tokens as arguments of a tag. -/
theorem exists_arguments {tokens : List Token} (h : ∀ t ∈ tokens, t.IsCanonical) :
    ∃ args : Arguments, (∀ a ∈ args, a.1 = Blanks.space) ∧
      args.chars = tokens.flatMap (fun t => ↑ ' ' :: t.canonical.toList) ∧
      args.lexemes.length = tokens.length ∧ args.lexemes.mapM Token.ofLexeme = .ok tokens := by
  induction tokens with
  | nil => exact ⟨[], by simp, rfl, rfl, rfl⟩
  | cons t tokens ih =>
    obtain ⟨args, hspace, hchars, hlength, hread⟩ := ih fun u hu => h u (by simp [hu])
    obtain ⟨w, hw, ht⟩ := Token.exists_word (h t (by simp))
    refine ⟨(.space, w) :: args, ?_, ?_, ?_, ?_⟩
    · intro a ha
      rcases List.mem_cons.1 ha with rfl | ha
      · rfl
      · exact hspace a ha
    · rw [List.flatMap_cons, ← hchars, ← hw]
      rfl
    · exact congrArg (· + 1) hlength
    · rw [Arguments.lexemes, List.map_cons, List.mapM_cons, ht]
      show (do let ts ← Arguments.lexemes args |>.mapM Token.ofLexeme; pure (t :: ts)) = _
      rw [hread]
      rfl

/-- Spaces after the tokens or before them: with one more at the other end it is the same. -/
theorem cons_space_flatMap (tokens : List Token) :
    ↑ ' ' :: tokens.flatMap (fun t => t.canonical.toList ++ ([' '] : List CodePoint)) =
      tokens.flatMap (fun t => ↑ ' ' :: t.canonical.toList) ++ ([' '] : List CodePoint) := by
  induction tokens with
  | nil => rfl
  | cons t tokens ih =>
    rw [List.flatMap_cons, List.append_assoc, List.singleton_append, ih, List.flatMap_cons,
      List.append_assoc, List.cons_append]

theorem echoText_toList (tokens : List Token) :
    (Node.echoText tokens).toList =
      ↑ '\x7b' :: ↑ '$' :: ↑ '=' :: (tokens.flatMap (fun t => ↑ ' ' :: t.canonical.toList) ++
        ([' ', '$', '\x7d'] : List CodePoint)) := by
  have hjoin : (Text.join (tokens.map (·.canonical ++ " "))).toList =
      tokens.flatMap fun t => t.canonical.toList ++ ([' '] : List CodePoint) := List.flatMap_map ..
  rw [List.append_cons _ (' ' : CodePoint), ← cons_space_flatMap, Node.echoText, Text.toList_append,
    Text.toList_append, hjoin]
  simp only [List.cons_append]
  rfl

theorem joined_toList {tokens : List Token} (h : tokens ≠ []) :
    ↑ ' ' :: (Token.joined tokens).toList =
      tokens.flatMap fun t => ↑ ' ' :: t.canonical.toList := by
  rw [Token.joined, Text.intercalate, Text.toList_ofList, List.map_map]
  induction tokens with
  | nil => exact absurd rfl h
  | cons t tokens ih =>
    cases tokens with
    | nil => simp
    | cons u tokens =>
      rw [List.flatMap_cons, ← ih (by simp)]
      simp [List.intercalate]

theorem forall_mem_flatMap_canonical {tokens : List Token} (h : ∀ t ∈ tokens, t.IsCanonical) :
    ∀ c ∈ tokens.flatMap (fun t => ↑ ' ' :: t.canonical.toList), c ≠ ↑ '\n' ∧ c ≠ ↑ '\r' := by
  intro c hc
  obtain ⟨t, ht, hc⟩ := List.mem_flatMap.1 hc
  rcases List.mem_cons.1 hc with rfl | hc
  · decide
  · exact Token.isLine_canonical (h t ht) c hc

/-- Canonical tokens stand on one line. -/
theorem isLine_joined {tokens : List Token} (h : ∀ t ∈ tokens, t.IsCanonical) :
    Text.IsLine (Token.joined tokens) := by
  by_cases hne : tokens = []
  · subst hne
    exact fun _ hc => nomatch hc
  · intro c hc
    have hjoined := forall_mem_flatMap_canonical h c
    rw [← joined_toList hne] at hjoined
    exact hjoined (List.mem_cons_of_mem _ hc)

theorem reads_echo {tokens : List Token} (h : ∀ t ∈ tokens, t.IsCanonical) (run : Text)
    (n : Nest) :
    Reads (.text run) n (Node.echoText tokens).toList (.text "")
      ((n.flush run).add (.echo tokens)) := by
  obtain ⟨args, hspace, hchars, -, hread⟩ := exists_arguments h
  have htag : ∀ pos, (n.flush run).addTag ⟨"=", args.lexemes, pos⟩ =
      .ok ((n.flush run).add (.echo tokens)) := by
    intro pos
    rw [Nest.addTag, if_pos rfl, hread]
    rfl
  have hreads := (TagSource.spaced .none .echo args hspace .space).reads htag
  rw [echoText_toList, ← hchars]
  simpa [TagSource.chars, TagSource.spaced, TagHead.chars, TagHead.inside, TagName.chars,
    Blanks.none,
    Blanks.space] using hreads

/-- The letters of a command. -/
def TagName.ofLetters (cs : List CodePoint) (nonempty : cs ≠ [])
    (allowed : cs.all CodePoint.isAlpha = true) :
    TagName := .letters cs nonempty (List.all_eq_true.1 allowed)

theorem reads_for {header : Loop} (h : header.IsCanonical) (run : Text) (n : Nest) :
    Reads (.text run) n ("\x7b$ FOR " ++ header.canonical ++ " $\x7d").toList (.text "")
      ((n.flush run).enter header) := by
  obtain ⟨args, hspace, hchars, hlength, hread⟩ := exists_arguments h
  have hheader : ∀ pos, Tag.loopHeader ⟨"for", args.lexemes, pos⟩ = .ok header := by
    intro pos
    have hcount : ¬(args.lexemes.length < 3 ∨ 4 < args.lexemes.length) := by
      rw [hlength]
      cases hstep : header.step <;> simp [Loop.tokens, hstep]
    rw [Tag.loopHeader, if_neg hcount, hread]
    cases hstep : header.step <;>
      simp [Loop.tokens, hstep, bind, Except.bind, pure, Except.pure] <;>
      rw [← hstep]
  have htag : ∀ pos, (n.flush run).addTag ⟨"for", args.lexemes, pos⟩ =
      .ok ((n.flush run).enter header) := by
    intro pos
    rw [Nest.addTag, if_neg (by simp), if_pos rfl, hheader pos]
    rfl
  have hreads := (TagSource.spaced .space (.ofLetters ['F', 'O', 'R'] (by decide) (by decide)) args
    hspace .space).reads htag
  have htext : ("\x7b$ FOR " ++ header.canonical ++ " $\x7d").toList =
      ↑ '\x7b' :: ↑ '$' :: ↑ ' ' :: ↑ 'F' :: ↑ 'O' :: ↑ 'R' ::
        (args.chars ++ ([' ', '$', '\x7d'] : List CodePoint)) := by
    have hne : header.tokens ≠ [] := by simp [Loop.tokens]
    have hjoined := joined_toList hne
    rw [hchars, ← hjoined, Text.toList_append, Text.toList_append]
    rfl
  rw [htext]
  simpa [TagSource.chars, TagSource.spaced, TagHead.chars, TagHead.inside, TagName.chars,
    Blanks.none,
    Blanks.space, TagName.ofLetters] using hreads

theorem reads_end {header : Loop} {level before : List Node} {outer : List (Loop × List Node)}
    {run : Text} {n : Nest} (h : n.flush run = ⟨level, (header, before) :: outer⟩) :
    Reads (.text run) n ("\x7b$END$\x7d" : Text).toList (.text "")
      ⟨.loop header level.reverse :: before, outer⟩ := by
  have htag : ∀ pos, (n.flush run).addTag ⟨"end", [], pos⟩ =
      .ok ⟨.loop header level.reverse :: before, outer⟩ := by
    intro pos
    rw [h]
    rfl
  exact (TagSource.spaced .none (.ofLetters ['E', 'N', 'D'] (by decide) (by decide)) [] (by simp)
    .none).reads htag

/-! ## Trees -/

namespace Node

mutual

/-- The text of a node adds the node, and what it may leave pending is text of its own. -/
theorem reads_canonical : ∀ (node : Node), node.IsCanonical → ∀ (run : Text) (n : Nest),
    run = "" ∨ node.isText = false →
    ∃ run' n', Reads (.text run) n node.canonical.toList (.text run') n' ∧
      n'.flush run' = (n.flush run).add node ∧ (run' = "" ∨ node.isText = true)
  | document _, h, _, _, _ => h.elim
  | text content, h, run, n, hrun => by
    obtain ⟨hne, hallowed⟩ := h
    obtain rfl : run = "" := hrun.resolve_right (by simp [isText])
    refine ⟨content, n, ?_, ?_, .inr rfl⟩
    · have hreads := reads_text hallowed n
      rwa [Text.ofList_toList] at hreads
    · have hempty : content.isEmpty = false := Bool.eq_false_iff.2 (mt Text.isEmpty_iff.1 hne)
      rw [Nest.flush, hempty]
      rfl
  | echo tokens, h, run, n, _ => ⟨"", _, reads_echo h run n, rfl, .inl rfl⟩
  | loop header children, h, run, n, _ => by
    obtain ⟨hheader, hchildren⟩ := h
    obtain ⟨run', n', hbody, hflush⟩ :=
      reads_canonicalAll children hchildren "" ((n.flush run).enter header) (.inl rfl)
    refine ⟨"", _, ?_, rfl, .inl rfl⟩
    rw [canonical, Text.toList_append, Text.toList_append]
    have hend := reads_end hflush
    rw [Nest.flush_empty, Nest.enter, List.append_nil, List.reverse_reverse] at hend
    exact ((reads_for hheader run n).trans hbody).trans hend

theorem reads_canonicalAll : ∀ (nodes : List Node), AreCanonical nodes →
    ∀ (run : Text) (n : Nest),
    run = "" ∨ startsWithText nodes = false →
    ∃ run' n', Reads (.text run) n (canonicalAll nodes).toList (.text run') n' ∧
      n'.flush run' = ⟨nodes.reverse ++ (n.flush run).level, (n.flush run).outer⟩
  | [], _, run, n, _ => ⟨run, n, .nil, rfl⟩
  | node :: nodes, h, run, n, hrun => by
    obtain ⟨hnode, hapart, hnodes⟩ := h
    obtain ⟨run₁, n₁, hreads₁, hflush₁, hrun₁⟩ := reads_canonical node hnode run n hrun
    obtain ⟨run', n', hreads, hflush⟩ :=
      reads_canonicalAll nodes hnodes run₁ n₁ (hrun₁.imp_right hapart)
    refine ⟨run', n', ?_, ?_⟩
    · rw [canonicalAll, Text.toList_append]
      exact hreads₁.trans hreads
    · rw [hflush, hflush₁]
      simp [Nest.add]

end

/-- **The canonical text of a template reads back as it.** -/
theorem parse_canonical_eq {doc : Node} (h : doc.IsCanonicalDocument) :
    parse doc.canonical = .ok doc := by
  cases doc with
  | text | echo | loop => exact h.elim
  | document children =>
    obtain ⟨run, n, hreads, hflush⟩ := reads_canonicalAll children h "" Nest.empty (.inl rfl)
    obtain ⟨items, hfeed, hfold⟩ := hreads 0
    have hscan : Scan.ofText (document children).canonical =
        ⟨items ++ (textItem run).toList, none⟩ := by
      rw [Scan.ofText, run_eq_ok_iff]
      exact ⟨items, _, _, hfeed, rfl, rfl⟩
    rw [parse, hscan, ofScan, List.foldlM_append, hfold]
    show (do let nest ← (textItem run).toList.foldlM Nest.addItem n; nest.finish) = _
    rw [Nest.foldlM_textItem, hflush]
    simp [Nest.finish, Nest.flush_empty, Nest.empty, bind, Except.bind]

end Node

end TagTemplate
