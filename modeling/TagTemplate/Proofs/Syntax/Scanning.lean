/-
What scanning a piece of text comes to, piece by piece of the grammar. `Feeds` follows a
scan that finds no fault over some characters; the main statement, `Source.feeds`, is
that a scan takes a whole template as it is meant, and gives out its items.

All states are the ones of the scanner. After a lexeme there are two that differ only
in how they hold it, pending or put to the tag: what they have in common is `Settled`.
-/
import TagTemplate.Proofs.Syntax.Source

namespace TagTemplate

open ScanState

/-! ## Scans without a fault -/

/-- A scan in the state `st` at the position `pos` takes some characters, gives out some
items and is in the state `st'` then. -/
inductive Feeds : Nat → ScanState → List CodePoint → List Item → ScanState → Prop
  | nil {pos : Nat} {st : ScanState} : Feeds pos st [] [] st
  | cons {pos : Nat} {st st₁ st' : ScanState} {c : CodePoint} {cs : List CodePoint}
    {item? : Option Item}
      {items : List Item} :
      st.step pos c = .ok (item?, st₁) → Feeds (pos + 1) st₁ cs items st' →
      Feeds pos st (c :: cs) (item?.toList ++ items) st'

namespace Feeds

variable {pos : Nat} {st st₁ st' : ScanState} {c : CodePoint} {cs ds : List CodePoint}
  {items items' : List Item}

theorem silent (h : st.step pos c = .ok (none, st₁)) (hr : Feeds (pos + 1) st₁ cs items st') :
    Feeds pos st (c :: cs) items st' := .cons h hr

theorem one (h : st.step pos c = .ok (none, st₁)) : Feeds pos st [c] [] st₁ := .silent h .nil

theorem trans (h₁ : Feeds pos st cs items st₁) (h₂ : Feeds (pos + cs.length) st₁ ds items' st') :
    Feeds pos st (cs ++ ds) (items ++ items') st' := by
  induction h₁ with
  | nil => exact h₂
  | cons hs _ ih =>
    rw [List.append_assoc]
    refine .cons hs (ih ?_)
    rwa [List.length_cons, Nat.add_comm _ 1, ← Nat.add_assoc] at h₂

/-- Characters that leave a state as it is. -/
theorem stay (h : ∀ pos, ∀ c ∈ cs, st.step pos c = .ok (none, st)) : Feeds pos st cs [] st := by
  induction cs generalizing pos with
  | nil => exact .nil
  | cons c cs ih =>
    exact .silent (h pos c (by simp)) (ih fun pos d hd => h pos d (by simp [hd]))

/-- A scan goes on from where it has come to. -/
theorem run_eq (h : Feeds pos st cs items st') (found : List Item) (rest : List CodePoint) :
    Scan.run found pos st (cs ++ rest) =
      Scan.run (items.reverse ++ found) (pos + cs.length) st' rest := by
  induction h generalizing found with
  | nil => rfl
  | @cons pos st st₁ st' c cs item? items hs _ ih =>
    rw [List.cons_append, Scan.run, hs]
    simp only [ih, List.reverse_append, List.append_assoc, List.length_cons]
    rw [show pos + 1 + cs.length = pos + (cs.length + 1) by omega]
    cases item? <;> rfl

end Feeds

/-- A scan to the end without a fault. -/
theorem run_eq_ok_iff {found items : List Item} {pos : Nat} {st : ScanState} {cs : List CodePoint} :
    Scan.run found pos st cs = ⟨items, none⟩ ↔
      ∃ given st' item?, Feeds pos st cs given st' ∧ st'.finish = .ok item? ∧
        items = found.reverse ++ given ++ item?.toList := by
  constructor
  · induction cs generalizing found pos st with
    | nil =>
      intro h
      rw [Scan.run] at h
      split at h <;> cases h
      next item? hf => exact ⟨[], st, item?, .nil, hf, by cases item? <;> simp⟩
    | cons c cs ih =>
      intro h
      rw [Scan.run] at h
      split at h
      · next item? next hs =>
        obtain ⟨given, st', last?, hfeed, hf, rfl⟩ := ih h
        refine ⟨_, st', last?, .cons hs hfeed, hf, ?_⟩
        cases item? <;> simp
      · cases h
  · rintro ⟨given, st', item?, hfeed, hf, rfl⟩
    have h := hfeed.run_eq found []
    rw [List.append_nil] at h
    rw [h, Scan.run, hf]
    cases item? <;> simp

/-! ## Characters collected in a string -/

theorem push_ofList (cs : List CodePoint) (c : CodePoint) :
    (Text.ofList cs).push c = Text.ofList (cs ++ [c]) := by
  apply Text.toList_inj.1
  rw [Text.toList_push, Text.toList_ofList, Text.toList_ofList]

theorem isEmpty_ofList (cs : List CodePoint) : (Text.ofList cs).isEmpty = cs.isEmpty := by
  rw [Bool.eq_iff_iff, Text.isEmpty_iff, Text.ofList_eq_empty_iff, List.isEmpty_iff]

theorem pushEscape_ofList (cs : List CodePoint) (c : CodePoint) :
    pushEscape (Text.ofList cs) c = Text.ofList (cs ++ (unescape c).toList) := by
  unfold pushEscape
  cases unescape c with
  | none => rw [Option.toList_none, List.append_nil]
  | some e => exact push_ofList cs e

/-! ## Runs -/

/-- A stretch of text is collected with its escapes resolved. -/
theorem Glyphs.feeds_text (gs : Glyphs '\x7b') {pos : Nat} {cs : List CodePoint} :
    Feeds pos (.text (.ofList cs)) gs.chars [] (.text (.ofList (cs ++ gs.content))) := by
  induction gs generalizing pos cs with
  | nil =>
    rw [Glyphs.content, List.flatMap_nil, List.append_nil]
    exact .nil
  | cons g gs ih =>
    rw [Glyphs.chars, Glyphs.content, List.flatMap_cons, List.flatMap_cons, ← List.append_assoc]
    cases g with
    | plain c allowed =>
      refine .silent ?_ ih
      rw [step, if_neg allowed.1, if_neg allowed.2, push_ofList]
      rfl
    | escape c =>
      have hslash : (text (.ofList cs)).step pos '\\' = .ok (none, textEscape (.ofList cs)) := by
        rw [step, if_neg (by decide), if_pos rfl]
      refine .silent hslash (.silent ?_ ih)
      rw [step, pushEscape_ofList]
      rfl

/-- So are the characters of a string. -/
theorem Glyphs.feeds_string (gs : Glyphs '"') {pos : Nat} {tag : Tag} {cs : List CodePoint} :
    Feeds pos (.string tag (.ofList cs)) gs.chars []
      (.string tag (.ofList (cs ++ gs.content))) := by
  induction gs generalizing pos cs with
  | nil =>
    rw [Glyphs.content, List.flatMap_nil, List.append_nil]
    exact .nil
  | cons g gs ih =>
    rw [Glyphs.chars, Glyphs.content, List.flatMap_cons, List.flatMap_cons, ← List.append_assoc]
    cases g with
    | plain c allowed =>
      refine .silent ?_ ih
      rw [step, if_neg allowed.1, if_neg allowed.2, push_ofList]
      rfl
    | escape c =>
      have hslash :
          (string tag (.ofList cs)).step pos '\\' = .ok (none, stringEscape tag (.ofList cs)) := by
        rw [step, if_neg (by decide), if_pos rfl]
      refine .silent hslash (.silent ?_ ih)
      rw [step, pushEscape_ofList]
      rfl

theorem feeds_letters {cs : List CodePoint} (h : ∀ c ∈ cs, c.isAlpha = true) {pos start : Nat}
    {before : List CodePoint} :
    Feeds pos (.name start (.ofList before)) cs [] (.name start (.ofList (before ++ cs))) := by
  induction cs generalizing pos before with
  | nil =>
    rw [List.append_nil]
    exact .nil
  | cons c cs ih =>
    have hletter :
        (name start (.ofList before)).step pos c =
          .ok (none, name start (.ofList (before ++ [c]))) := by
      rw [step, if_pos (h c (by simp)), push_ofList]
    refine .silent hletter ?_
    rw [List.append_cons before c cs]
    exact ih fun d hd => h d (by simp [hd])

/-- The characters of a bare lexeme of which at least one has been read. -/
theorem feeds_bare {cs : List CodePoint} (h : ∀ c ∈ cs, isBlank c = false ∧ c ≠ '$')
    {pos : Nat} {tag : Tag}
    {before : List CodePoint} (hb : before ≠ []) :
    Feeds pos (.arguments tag (.ofList before)) cs []
      (.arguments tag (.ofList (before ++ cs))) := by
  induction cs generalizing pos before with
  | nil =>
    rw [List.append_nil]
    exact .nil
  | cons c cs ih =>
    obtain ⟨hblank, hdollar⟩ := h c (by simp)
    have hne : (Text.ofList before).isEmpty = false := by
      rw [isEmpty_ofList]
      simpa using hb
    have hstep : (arguments tag (.ofList before)).step pos c =
        .ok (none, arguments tag (.ofList (before ++ [c]))) := by
      simp only [step, argumentStep, hblank, hdollar, hne, Bool.false_eq_true, and_false, if_false,
        push_ofList]
    refine .silent hstep ?_
    rw [List.append_cons before c cs]
    exact ih (fun d hd => h d (by simp [hd])) (by simp)

/-! ## Lexemes -/

/-- A state right after a lexeme, or where one may begin: a blank brings the scan among the
arguments of the tag, and a dollar ends the arguments. -/
structure Settled (st : ScanState) (tag : Tag) : Prop where
  blank : ∀ pos c, isBlank c = true → st.step pos c = .ok (none, .arguments tag "")
  dollar : ∀ pos, st.step pos '$' = .ok (none, .closing tag)

namespace Settled

theorem arguments (tag : Tag) (bare : Text) :
    Settled (.arguments tag bare) (withBare tag bare) where
  blank pos c h := by simp only [step, argumentStep, h, if_true]
  dollar pos := by rfl

theorem arguments_empty (tag : Tag) : Settled (.arguments tag "") tag := arguments tag ""

theorem afterString (tag : Tag) : Settled (.afterString tag) tag where
  blank pos c h := by simp only [step, h, if_true]
  dollar pos := by rfl

/-- Blanks leave a scan between lexemes. -/
theorem feeds_blanks {st : ScanState} {tag : Tag} (h : Settled st tag) (b : Blanks) {pos : Nat} :
    ∃ st', Feeds pos st b.val [] st' ∧ Settled st' tag ∧
      (b.val ≠ [] ∨ st = .arguments tag "" → st' = .arguments tag "") := by
  obtain ⟨cs, hcs⟩ := b
  cases cs with
  | nil => exact ⟨st, .nil, h, fun hor => hor.resolve_left (fun hne => hne rfl)⟩
  | cons c cs =>
    refine ⟨.arguments tag "", .silent (h.blank pos c (hcs c (by simp))) (.stay fun pos d hd => ?_),
      arguments_empty tag, fun _ => rfl⟩
    exact (arguments_empty tag).blank pos d (hcs d (by simp [hd]))

end Settled

theorem withBare_ofList {tag : Tag} {cs : List CodePoint} (h : cs ≠ []) :
    withBare tag (.ofList cs) = { tag with lexemes := tag.lexemes ++ [⟨.ofList cs, false⟩] } := by
  rw [withBare, isEmpty_ofList, if_neg (by simpa using h)]
  rfl

/-- A lexeme is put to the tag. -/
theorem Word.feeds (w : Word) {pos : Nat} {tag : Tag} :
    ∃ st', Feeds pos (.arguments tag "") w.chars [] st' ∧
      Settled st' { tag with lexemes := tag.lexemes ++ [w.lexeme] } := by
  cases w with
  | bare cs nonempty allowed first =>
    obtain ⟨c, cs, rfl⟩ := List.exists_cons_of_ne_nil nonempty
    obtain ⟨hblank, hdollar⟩ := allowed c (by simp)
    have hquote : c ≠ '"' := fun h => first (by simp [h])
    have hbegin :
        ∀ pos, (arguments tag "").step pos c = .ok (none, arguments tag (.ofList [c])) := by
      intro pos
      simp only [step, argumentStep, hblank, hdollar, hquote, Bool.false_eq_true,
        false_and, if_false]
      rfl
    have hrest : Feeds (pos + 1) (.arguments tag (.ofList [c])) cs []
        (.arguments tag (.ofList ([c] ++ cs))) :=
      feeds_bare (fun d hd => allowed d (by simp [hd])) (by simp)
    refine ⟨.arguments tag (.ofList (c :: cs)), .silent (hbegin pos) hrest, ?_⟩
    have h := Settled.arguments tag (.ofList (c :: cs))
    rwa [withBare_ofList nonempty] at h
  | quoted gs =>
    refine ⟨_, ?_, Settled.afterString (withLexeme tag (.ofList gs.content) true)⟩
    have hquote : ∀ pos, (arguments tag "").step pos '"' = .ok (none, string tag (.ofList [])) :=
      fun _ => rfl
    refine .silent (hquote pos) (gs.feeds_string.trans (.one ?_))
    rfl

/-- Lexemes that are set apart by blanks are put to the tag one after another. -/
theorem feeds_spaced {args : Arguments} (h : ∀ a ∈ args, a.1.val ≠ []) {pos : Nat} {st : ScanState}
    {tag : Tag} (hst : Settled st tag) :
    ∃ st', Feeds pos st args.chars [] st' ∧
      Settled st' { tag with lexemes := tag.lexemes ++ args.lexemes } := by
  induction args generalizing pos st tag with
  | nil =>
    refine ⟨st, .nil, ?_⟩
    rw [Arguments.lexemes, List.map_nil, List.append_nil]
    exact hst
  | cons a args ih =>
    obtain ⟨st₁, hb, -, hst₁⟩ := @Settled.feeds_blanks _ _ hst a.1 pos
    cases hst₁ (.inl (h a (by simp)))
    obtain ⟨st₂, hw, hst₂⟩ := a.2.feeds
    obtain ⟨st₃, hargs, hst₃⟩ := ih (fun b hb => h b (by simp [hb])) hst₂
    refine ⟨st₃, (hb.trans hw).trans hargs, ?_⟩
    rwa [List.append_assoc] at hst₃

/-! ## Tags -/

theorem isAlpha_of_isBlank {c : CodePoint} (h : isBlank c = true) : c.isAlpha = false := by
  simp only [isBlank, Bool.or_eq_true, beq_iff_eq] at h
  rcases h with ((((rfl | rfl) | rfl) | rfl) | rfl) | rfl <;> rfl

theorem step_name_of_not_isAlpha {c : CodePoint} (h : c.isAlpha = false) (pos start : Nat)
    (letters : Text) :
    (name start letters).step pos c =
      (arguments ⟨letters.map CodePoint.toLower, [], start⟩ "").step pos c := by
  simp only [step, h, Bool.false_eq_true, if_false]

theorem Settled.name (start : Nat) (letters : Text) :
    Settled (.name start letters) ⟨letters.map CodePoint.toLower, [], start⟩ where
  blank pos c h := by
    rw [step_name_of_not_isAlpha (isAlpha_of_isBlank h)]
    exact (Settled.arguments_empty _).blank pos c h
  dollar pos := by
    rw [step_name_of_not_isAlpha rfl]
    exact (Settled.arguments_empty _).dollar pos

theorem map_toLower_ofList (cs : List CodePoint) :
    (Text.ofList cs).map CodePoint.toLower = Text.ofList (cs.map CodePoint.toLower) := by
  apply Text.toList_inj.1
  rw [Text.toList_map, Text.toList_ofList, Text.toList_ofList]

/-- After a name a scan is as good as among the arguments, before every character that does
not belong to the name. -/
theorem TagName.feeds (n : TagName) {pos start : Nat} :
    ∃ st, Feeds pos (.beforeName start) n.chars [] st ∧ Settled st ⟨n.name, [], start⟩ ∧
      ∀ {pos c cs items st'}, n.Ends c →
        Feeds pos (.arguments ⟨n.name, [], start⟩ "") (c :: cs) items st' →
        Feeds pos st (c :: cs) items st' := by
  cases n with
  | echo =>
    exact ⟨.arguments ⟨"=", [], start⟩ "", .one rfl, Settled.arguments_empty _, fun _ h => h⟩
  | letters cs nonempty allowed =>
    obtain ⟨c, cs, rfl⟩ := List.exists_cons_of_ne_nil nonempty
    have hc : c.isAlpha = true := allowed c (by simp)
    have heq : c ≠ '=' := fun h => by
      rw [h] at hc
      cases hc
    have hname : (TagName.letters (c :: cs) nonempty allowed).name =
        (Text.ofList (c :: cs)).map CodePoint.toLower := (map_toLower_ofList _).symm
    have hbegin :
        (beforeName start).step pos c = .ok (none, ScanState.name start (.ofList [c])) := by
      rw [step, if_neg heq, if_pos hc]
    have hrest :
        Feeds (pos + 1) (.name start (.ofList [c])) cs [] (.name start (.ofList ([c] ++ cs))) :=
      feeds_letters fun d hd => allowed d (by simp [hd])
    refine ⟨.name start (.ofList (c :: cs)), .silent hbegin hrest, ?_, ?_⟩
    · rw [hname]
      exact Settled.name start _
    · intro pos d ds items st' hd h
      rw [hname] at h
      cases h with
      | cons hs hr => exact .cons ((step_name_of_not_isAlpha hd pos start _).trans hs) hr

theorem TagHead.feeds (h : TagHead) {pos start : Nat} :
    ∃ st, Feeds pos (.brace start) h.inside [] st ∧ Settled st (h.tag start) := by
  obtain ⟨outer, inner, name, args, spaced, apart⟩ := h
  have houter : Feeds pos (.brace start) outer.val [] (.brace start) := .stay fun pos c hc => by
    have hblank := outer.2 c hc
    have hne : c ≠ '$' := fun h => by
      rw [h] at hblank
      cases hblank
    rw [step, if_neg hne, if_pos hblank]
  have hinner : ∀ pos, Feeds pos (.beforeName start) inner.val [] (.beforeName start) :=
    fun pos => .stay fun pos c hc => by
      have hblank := inner.2 c hc
      have hne : c ≠ '=' := fun h => by
        rw [h] at hblank
        cases hblank
      rw [step, if_neg hne, if_neg (by rw [isAlpha_of_isBlank hblank]; simp), if_pos hblank]
  have hopen : Feeds pos (.brace start) (outer.val ++ ↑ '$' :: inner.val) [] (.beforeName start) :=
    houter.trans (.silent rfl (hinner _))
  obtain ⟨st, hname, hst, hends⟩ :=
    @TagName.feeds name (pos + (outer.val ++ ↑ '$' :: inner.val).length) start
  refine (?_ : ∃ st', Feeds _ st args.chars [] st' ∧
    Settled st' ⟨name.name, args.lexemes, start⟩).imp
    fun st' hst' => ⟨(hopen.trans hname).trans hst'.1, hst'.2⟩
  cases args with
  | nil => exact ⟨st, .nil, hst⟩
  | cons a args =>
    by_cases ha : a.1.val = []
    · obtain ⟨st₁, hword, hst₁⟩ := @Word.feeds a.2 _ ⟨name.name, [], start⟩
      obtain ⟨st₂, hargs, hst₂⟩ := feeds_spaced spaced hst₁
      refine ⟨st₂, ?_, hst₂⟩
      rw [Arguments.chars, List.flatMap_cons, ha, List.nil_append]
      refine .trans (?_ : Feeds _ st a.2.chars [] st₁) hargs
      cases hchars : a.2.chars with
      | nil => exact absurd hchars a.2.chars_ne_nil
      | cons c cs =>
        rw [hchars] at hword
        exact hends (apart a rfl ha c (by rw [hchars]; rfl)) hword
    · exact feeds_spaced (fun b hb => by
        rcases List.mem_cons.1 hb with rfl | hb
        · exact ha
        · exact spaced b hb) hst

/-- A tag ends the text before it and is given out itself. -/
theorem TagSource.feeds (t : TagSource) {pos : Nat} {run : Text} :
    Feeds pos (.text run) t.chars ((textItem run).toList ++ [.tag (t.tag pos)]) (.text "") := by
  obtain ⟨head, trailing, closing⟩ := t
  obtain ⟨st, hhead, hst⟩ := @TagHead.feeds head (pos + 1) pos
  obtain ⟨st₁, htrailing, hst₁, -⟩ :=
    @Settled.feeds_blanks _ _ hst trailing (pos + 1 + head.inside.length)
  have hclosing : ∀ p, Feeds p (.closing (head.tag pos)) closing.val [] (.closing (head.tag pos)) :=
    fun p => .stay fun p c hc => by
      have hblank := closing.2 c hc
      have hne : c ≠ '\x7d' := fun h => by
        rw [h] at hblank
        cases hblank
      rw [step, if_neg hne, if_pos hblank]
  have hbrace : ∀ p, (ScanState.closing (head.tag pos)).step p '\x7d' =
      .ok (some (.tag (head.tag pos)), text "") := fun _ => rfl
  have hend : ∀ p, Feeds p (.closing (head.tag pos)) ['\x7d'] [.tag (head.tag pos)] (.text "") :=
    fun p => .cons (hbrace p) .nil
  have hopen : (text run).step pos '\x7b' = .ok (textItem run, brace pos) := rfl
  show Feeds pos (.text run)
    (↑ '\x7b' ::
      (((head.inside ++ trailing.val) ++ ↑ '$' :: closing.val) ++ (['\x7d'] : List CodePoint))) _ _
  refine .cons hopen ?_
  exact ((hhead.trans htrailing).trans (.silent (hst₁.dollar _) (hclosing _))).trans (hend _)

/-! ## Templates -/

theorem Parts.feeds (parts : Parts) {pos : Nat} :
    Feeds pos (.text "") parts.chars (parts.items pos) (.text "") := by
  induction parts generalizing pos with
  | nil => exact .nil
  | cons p parts ih =>
    obtain ⟨gs, t⟩ := p
    have hgs : Feeds pos (.text "") gs.chars [] (.text (.ofList ([] ++ gs.content))) :=
      gs.feeds_text
    have hpart := hgs.trans t.feeds
    rw [Parts.items, List.append_cons]
    refine hpart.trans ?_
    rw [List.length_append, ← Nat.add_assoc]
    exact ih

/-- **A template is scanned as it is meant**: without a fault, and into its items. -/
theorem Source.scan_text (s : Source) : Scan.ofText s.text = ⟨s.items, none⟩ := by
  obtain ⟨parts, last, lone⟩ := s
  have hlast : Feeds (0 + parts.chars.length) (.text "") last.chars []
      (.text (.ofList ([] ++ last.content))) := last.feeds_text
  have hfeeds := parts.feeds.trans hlast
  rw [List.append_nil] at hfeeds
  rw [Scan.ofText, Source.text, Text.toList_ofList, run_eq_ok_iff]
  cases lone with
  | false =>
    refine ⟨parts.items 0, .text (.ofList last.content), _, ?_, rfl, rfl⟩
    rw [Source.chars, if_neg Bool.false_ne_true, List.append_nil]
    exact hfeeds
  | true =>
    refine ⟨parts.items 0 ++ [], .textEscape (.ofList last.content), _, ?_, rfl, ?_⟩
    · refine hfeeds.trans (.one ?_)
      rw [step, if_neg (by decide), if_pos rfl]
      rfl
    · rw [List.append_nil]
      rfl

end TagTemplate
