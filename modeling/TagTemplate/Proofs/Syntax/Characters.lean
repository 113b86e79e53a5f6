/-
Templates that are made of characters. A scan puts no code points into its texts but those that
it reads and the line breaks and tabs that escapes stand for, and what a canonical text has
besides the texts of its tree are characters. So a template without surrogates has a canonical
text without surrogates.
-/
import TagTemplate.Proofs.Syntax.CanonicalToken
import TagTemplate.Proofs.Syntax.Nesting
import TagTemplate.Proofs.Syntax.Scanning

namespace TagTemplate

namespace Text

/-- A text without surrogates. -/
def OnlyCharacters (s : Text) : Prop := ∀ c ∈ s.toList, ∃ d : Char, c = d

variable {s t : Text}

theorem onlyCharacters_ofString (s : String) : OnlyCharacters s := by
  intro c hc
  obtain ⟨d, -, rfl⟩ := List.mem_map.1 hc
  exact ⟨d, rfl⟩

theorem OnlyCharacters.append (hs : s.OnlyCharacters) (ht : t.OnlyCharacters) :
    (s ++ t).OnlyCharacters := List.forall_mem_append.2 ⟨hs, ht⟩

theorem OnlyCharacters.push (hs : s.OnlyCharacters) (d : Char) : (s.push d).OnlyCharacters :=
  hs.append (t := .ofList [d]) (List.forall_mem_singleton.2 ⟨d, rfl⟩)

theorem OnlyCharacters.join {texts : List Text} (h : ∀ s ∈ texts, s.OnlyCharacters) :
    (Text.join texts).OnlyCharacters := by
  intro c hc
  obtain ⟨s, hs, hc⟩ := List.mem_flatMap.1 hc
  exact h s hs c hc

theorem OnlyCharacters.intercalate {texts : List Text} (hs : s.OnlyCharacters)
    (h : ∀ t ∈ texts, t.OnlyCharacters) : (Text.intercalate s texts).OnlyCharacters := by
  induction texts with
  | nil => exact List.forall_mem_nil _
  | cons t texts ih =>
    obtain ⟨ht, htexts⟩ := List.forall_mem_cons.1 h
    cases texts with
    | nil => simpa [Text.intercalate] using ht
    | cons u texts =>
      have hsplit : Text.intercalate s (t :: u :: texts) =
          t ++ s ++ Text.intercalate s (u :: texts) := by
        apply Text.toList_injective
        simp [Text.intercalate, List.intercalate]
      rw [hsplit]
      exact (ht.append hs).append (ih htexts)

theorem OnlyCharacters.exists_string (hs : s.OnlyCharacters) :
    ∃ characters : String, s = characters := by
  cases hcharacters : s.string? with
  | some characters => exact ⟨characters, string?_eq_some_iff.1 hcharacters⟩
  | none =>
    obtain ⟨offset, hoffset⟩ := string?_eq_none_iff.1 hcharacters
    obtain ⟨d, hd⟩ := hs _ hoffset
    cases hd

end Text

/-! ## Scans -/

def Tag.OnlyCharacters (t : Tag) : Prop := ∀ l ∈ t.lexemes, l.text.OnlyCharacters

def Item.OnlyCharacters : Item → Prop
  | text run => run.OnlyCharacters
  | tag t => t.OnlyCharacters

namespace ScanState

/-- What a scan has collected for its items is free of surrogates. The name of a tag is not asked
about, since only known names become part of a tree. -/
def OnlyCharacters : ScanState → Prop
  | text run | textEscape run => run.OnlyCharacters
  | brace _ | beforeName _ | name _ _ => True
  | arguments tag chars | string tag chars | stringEscape tag chars =>
    tag.OnlyCharacters ∧ chars.OnlyCharacters
  | afterString tag | closing tag => tag.OnlyCharacters

variable {st st' : ScanState} {tag : Tag} {run : Text} {item? : Option Item} {pos : Nat}

theorem onlyCharacters_textItem (h : run.OnlyCharacters) :
    ∀ item ∈ textItem run, item.OnlyCharacters := by
  unfold textItem
  split
  · exact fun _ hitem => nomatch hitem
  · rintro _ ⟨⟩
    exact h

theorem onlyCharacters_pushEscape (h : run.OnlyCharacters) (c : CodePoint) :
    (pushEscape run c).OnlyCharacters := by
  unfold pushEscape unescape
  split
  · next heq =>
    split at heq <;> cases heq <;> exact h.push _
  · exact h

theorem onlyCharacters_withLexeme (htag : tag.OnlyCharacters) (hrun : run.OnlyCharacters)
    (quoted : Bool) : (withLexeme tag run quoted).OnlyCharacters :=
  List.forall_mem_append.2 ⟨htag, List.forall_mem_singleton.2 hrun⟩

theorem onlyCharacters_withBare (htag : tag.OnlyCharacters) (hrun : run.OnlyCharacters) :
    (withBare tag run).OnlyCharacters := by
  unfold withBare
  split
  · exact htag
  · exact onlyCharacters_withLexeme htag hrun false

theorem onlyCharacters_argumentStep (htag : tag.OnlyCharacters) (hrun : run.OnlyCharacters)
    (d : Char) : (argumentStep tag run d).OnlyCharacters := by
  have hempty : Text.OnlyCharacters "" := Text.onlyCharacters_ofString ""
  unfold argumentStep
  split
  · exact ⟨onlyCharacters_withBare htag hrun, hempty⟩
  split
  · exact onlyCharacters_withBare htag hrun
  split
  · exact ⟨htag, hempty⟩
  · exact ⟨htag, hrun.push d⟩

/-- One character. -/
theorem OnlyCharacters.step (h : st.OnlyCharacters) {d : Char}
    (hs : st.step pos d = .ok (item?, st')) :
    (∀ item ∈ item?, item.OnlyCharacters) ∧ st'.OnlyCharacters := by
  have hempty : Text.OnlyCharacters "" := Text.onlyCharacters_ofString ""
  have hnone : ∀ item ∈ (none : Option Item), item.OnlyCharacters := fun _ hitem => nomatch hitem
  have hbare : ∀ name start, Tag.OnlyCharacters ⟨name, [], start⟩ := fun _ _ =>
    List.forall_mem_nil _
  cases st with
  | text run =>
    simp only [ScanState.step] at hs
    repeat' split at hs
    all_goals cases hs
    · exact ⟨onlyCharacters_textItem h, trivial⟩
    · exact ⟨hnone, h⟩
    · exact ⟨hnone, Text.OnlyCharacters.push h d⟩
  | textEscape run =>
    cases hs
    exact ⟨hnone, onlyCharacters_pushEscape h d⟩
  | brace start =>
    simp only [ScanState.step] at hs
    repeat' split at hs
    all_goals cases hs
    all_goals exact ⟨hnone, trivial⟩
  | beforeName start =>
    simp only [ScanState.step] at hs
    repeat' split at hs
    all_goals cases hs
    · exact ⟨hnone, hbare _ _, hempty⟩
    · exact ⟨hnone, trivial⟩
    · exact ⟨hnone, trivial⟩
  | name start letters =>
    simp only [ScanState.step] at hs
    split at hs <;> cases hs
    · exact ⟨hnone, trivial⟩
    · exact ⟨hnone, onlyCharacters_argumentStep (hbare _ _) hempty d⟩
  | arguments tag bare =>
    cases hs
    exact ⟨hnone, onlyCharacters_argumentStep h.1 h.2 d⟩
  | string tag chars =>
    simp only [ScanState.step] at hs
    repeat' split at hs
    all_goals cases hs
    · exact ⟨hnone, onlyCharacters_withLexeme h.1 h.2 true⟩
    · exact ⟨hnone, h⟩
    · exact ⟨hnone, h.1, h.2.push d⟩
  | stringEscape tag chars =>
    cases hs
    exact ⟨hnone, h.1, onlyCharacters_pushEscape h.2 d⟩
  | afterString tag =>
    simp only [ScanState.step] at hs
    repeat' split at hs
    all_goals cases hs
    · exact ⟨hnone, h, hempty⟩
    · exact ⟨hnone, h⟩
  | closing tag =>
    simp only [ScanState.step] at hs
    repeat' split at hs
    all_goals cases hs
    · exact ⟨fun item hitem => Option.mem_some.1 hitem ▸ h, hempty⟩
    · exact ⟨hnone, h⟩

theorem OnlyCharacters.finish (h : st.OnlyCharacters) (hf : st.finish = .ok item?) :
    ∀ item ∈ item?, item.OnlyCharacters := by
  cases st <;> cases hf <;> exact onlyCharacters_textItem h

/-- Some characters. -/
theorem OnlyCharacters.feeds {cs : List CodePoint} {items : List Item} (h : st.OnlyCharacters)
    (hf : Feeds pos st cs items st') (hcs : ∀ c ∈ cs, ∃ d : Char, c = d) :
    (∀ item ∈ items, item.OnlyCharacters) ∧ st'.OnlyCharacters := by
  induction hf with
  | nil => exact ⟨List.forall_mem_nil _, h⟩
  | cons hs _ ih =>
    obtain ⟨⟨d, rfl⟩, hrest⟩ := List.forall_mem_cons.1 hcs
    obtain ⟨hitem, hnext⟩ := h.step hs
    obtain ⟨hitems, hend⟩ := ih hnext hrest
    exact ⟨List.forall_mem_append.2 ⟨by simpa using hitem, hitems⟩, hend⟩

end ScanState

/-- **A scan of characters gives out only characters.** -/
theorem Scan.onlyCharacters_ofText {s : Text} (hs : s.OnlyCharacters)
    (h : (ofText s).fault = none) : ∀ item ∈ (ofText s).items, item.OnlyCharacters := by
  have hstart : (ScanState.text "").OnlyCharacters := Text.onlyCharacters_ofString ""
  have hrun : run [] 0 (.text "") s.toList = ⟨(ofText s).items, none⟩ := by
    rw [← h]
    rfl
  obtain ⟨given, st, item?, hfeeds, hfinish, hitems⟩ := run_eq_ok_iff.1 hrun
  obtain ⟨hgiven, hend⟩ := hstart.feeds hfeeds hs
  rw [hitems]
  exact List.forall_mem_append.2 ⟨hgiven, by simpa using hend.finish hfinish⟩

/-! ## Canonical texts -/

namespace Token

/-- A word is its own canonical text, unless it is a number. -/
theorem onlyCharacters_of_ofWord {s : Text} {t : Token} (hs : s.OnlyCharacters)
    (h : ofWord s = .ok t) : t.canonical.OnlyCharacters := by
  rw [ofWord] at h
  split at h
  · cases h
    exact hs
  split at h
  · next name hname =>
    simp only at h
    split at h <;> cases h
    have hword : "@" ++ Text.ofList name = s := Text.toList_inj.1 hname.symm
    rwa [canonical, hword]
  split at h
  · cases h
    exact hs
  obtain ⟨t?, ht?, h⟩ := except_bind_eq_ok.1 h
  cases t? with
  | none => cases h
  | some t' =>
    cases h
    obtain ⟨_, -, ⟨n, -, rfl⟩ | ⟨x, -, -, rfl⟩⟩ := ofNumeral?_eq_some ht?
    · exact Text.onlyCharacters_ofString _
    · exact Text.onlyCharacters_ofString _

theorem onlyCharacters_escape {s : Text} (hs : s.OnlyCharacters) : (escape s).OnlyCharacters := by
  intro c hc
  obtain ⟨e, he, hc⟩ := List.mem_flatMap.1 hc
  obtain ⟨d, rfl⟩ := hs e he
  unfold escapeChar at hc
  repeat' split at hc
  all_goals
    simp only [List.mem_cons, List.not_mem_nil, or_false] at hc
  · rcases hc with rfl | rfl <;> exact ⟨_, rfl⟩
  · rcases hc with rfl | rfl <;> exact ⟨_, rfl⟩
  · rcases hc with rfl | rfl <;> exact ⟨_, rfl⟩
  · exact ⟨d, hc⟩

theorem onlyCharacters_of_ofLexeme {l : Lexeme} {t : Token} (hl : l.text.OnlyCharacters)
    (h : ofLexeme l = .ok t) : t.canonical.OnlyCharacters := by
  unfold ofLexeme at h
  split at h
  · cases h
    exact ((Text.onlyCharacters_ofString _).append (onlyCharacters_escape hl)).append
      (Text.onlyCharacters_ofString _)
  · exact onlyCharacters_of_ofWord hl h

theorem onlyCharacters_of_mapM {lexemes : List Lexeme} {tokens : List Token}
    (hl : ∀ l ∈ lexemes, l.text.OnlyCharacters) (h : lexemes.mapM ofLexeme = .ok tokens) :
    ∀ t ∈ tokens, t.canonical.OnlyCharacters := by
  have hread := mapM_eq_ok_iff.1 h
  clear h
  induction hread with
  | nil => exact List.forall_mem_nil _
  | cons ht _ ih =>
    obtain ⟨hfirst, hrest⟩ := List.forall_mem_cons.1 hl
    exact List.forall_mem_cons.2 ⟨onlyCharacters_of_ofLexeme hfirst ht, ih hrest⟩

theorem onlyCharacters_joined {tokens : List Token}
    (h : ∀ t ∈ tokens, t.canonical.OnlyCharacters) : (joined tokens).OnlyCharacters :=
  .intercalate (Text.onlyCharacters_ofString _) (List.forall_mem_map.2 h)

end Token

/-- A mark as it stands in a canonical text. -/
def Mark.canonical : Mark → Text
  | text content => content
  | echo tokens => Node.echoText tokens
  | opening header => "\x7b$ FOR " ++ Token.joined header ++ " $\x7d"
  | closing => "\x7b$END$\x7d"

theorem Item.IsRead.onlyCharacters {item : Item} {mark : Mark} (h : item.IsRead mark)
    (hitem : item.OnlyCharacters) : mark.canonical.OnlyCharacters := by
  cases h with
  | text run => exact hitem
  | echo _ htokens =>
    have hall := Token.onlyCharacters_of_mapM hitem htokens
    refine ((Text.onlyCharacters_ofString _).append (.join fun s hs => ?_)).append
      (Text.onlyCharacters_ofString _)
    obtain ⟨t, ht, rfl⟩ := List.mem_map.1 hs
    exact (hall t ht).append (Text.onlyCharacters_ofString _)
  | opening _ htokens =>
    have hall := Token.onlyCharacters_of_mapM hitem htokens
    exact ((Text.onlyCharacters_ofString _).append (Token.onlyCharacters_joined hall)).append
      (Text.onlyCharacters_ofString _)
  | closing => exact Text.onlyCharacters_ofString _

theorem Mark.onlyCharacters_of_isRead {items : List Item} {marks : List Mark}
    (h : List.Forall₂ Item.IsRead items marks) (hitems : ∀ item ∈ items, item.OnlyCharacters) :
    ∀ mark ∈ marks, mark.canonical.OnlyCharacters := by
  induction h with
  | nil => exact List.forall_mem_nil _
  | cons hmark _ ih =>
    obtain ⟨hitem, hrest⟩ := List.forall_mem_cons.1 hitems
    exact List.forall_mem_cons.2 ⟨hmark.onlyCharacters hitem, ih hrest⟩

namespace Node

mutual

/-- A canonical text mark by mark. -/
theorem canonical_eq_join : ∀ node : Node,
    node.canonical = Text.join (node.marks.map Mark.canonical)
  | document children => by rw [canonical, marks, canonicalAll_eq_join children]
  | text content => by rw [canonical, marks]; exact (Text.append_empty content).symm
  | echo tokens => by rw [canonical, marks]; exact (Text.append_empty _).symm
  | loop header children => by
    rw [canonical, canonicalAll_eq_join children, marks, List.cons_append, List.map_cons,
      Text.join_cons, List.map_append, Text.join_append, Text.append_assoc]
    exact congrArg (_ ++ ·) (congrArg (_ ++ ·) (Text.append_empty _).symm)

theorem canonicalAll_eq_join : ∀ nodes : List Node,
    canonicalAll nodes = Text.join ((marksAll nodes).map Mark.canonical)
  | [] => by rw [canonicalAll, marksAll]; rfl
  | node :: nodes => by
    rw [canonicalAll, canonical_eq_join node, canonicalAll_eq_join nodes, marksAll,
      List.map_append, Text.join_append]

end

/-- **The canonical text of a template without surrogates has none either.** -/
theorem onlyCharacters_canonical {s : Text} {doc : Node} (hs : s.OnlyCharacters)
    (h : parse s = .ok doc) : doc.canonical.OnlyCharacters := by
  have hitems := Scan.onlyCharacters_ofText hs (parse_eq_ok_iff.1 h).1
  rw [canonical_eq_join]
  exact .join (List.forall_mem_map.2 (Mark.onlyCharacters_of_isRead (isRead_of_parse h) hitems))

end Node

end TagTemplate
