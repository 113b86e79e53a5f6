/-
Whatever is scanned without a fault is a template of the grammar. The proof keeps, for
every state of the scan, what the text read so far looks like: `Opened` for the text of
a tag that is not closed yet, from its brace on, and `Reached` for the whole text.

With the other direction (`Source.scan_text`) this makes the grammar exact, which
`scan_grammar` states.
-/
import TagTemplate.Proofs.Syntax.Scanning

namespace TagTemplate

open ScanState

/-! ## Tags that grow -/

/-- Whether a lexeme that begins with `c` may follow on a head and these blanks. -/
def TagHead.Admits (h : TagHead) (b : Blanks) (c : CodePoint) : Prop :=
  b.val = [] → h.args = [] ∧ h.name.Ends c

namespace TagHead

/-- The head without lexemes. -/
def bare (outer inner : Blanks) (name : TagName) : TagHead where
  outer := outer
  inner := inner
  name := name
  args := []
  spaced := by simp
  apart := by simp

/-- The head with one more lexeme. -/
def add (h : TagHead) (b : Blanks) (w : Word) (room : ∀ c ∈ w.chars.head?, h.Admits b c) :
    TagHead where
  outer := h.outer
  inner := h.inner
  name := h.name
  args := h.args ++ [(b, w)]
  spaced := by
    intro a ha hb
    cases hargs : h.args with
    | nil => simp [hargs] at ha
    | cons a' args =>
      rw [hargs, List.cons_append, List.tail_cons, List.mem_append, List.mem_singleton] at ha
      rcases ha with ha | rfl
      · exact h.spaced a (by rw [hargs]; exact ha) hb
      · obtain ⟨c, hc⟩ : ∃ c, w.chars.head? = some c :=
          Option.isSome_iff_exists.1 (by simpa using w.chars_ne_nil)
        have hnil := (room c hc hb).1
        rw [hargs] at hnil
        cases hnil
  apart := by
    intro a ha hb c hc
    cases hargs : h.args with
    | nil =>
      simp only [hargs, List.nil_append, List.head?_cons, Option.mem_def, Option.some.injEq] at ha
      subst ha
      exact (room c hc hb).2
    | cons a' args =>
      simp only [hargs, List.cons_append, List.head?_cons, Option.mem_def, Option.some.injEq] at ha
      subst ha
      exact h.apart a' (by rw [hargs]; rfl) hb c hc

variable (h : TagHead) (b : Blanks) (w : Word) (room : ∀ c ∈ w.chars.head?, h.Admits b c)

theorem add_chars : (h.add b w room).chars = h.chars ++ b.val ++ w.chars := by
  simp [add, chars, inside, Arguments.chars]

theorem add_tag (pos : Nat) :
    (h.add b w room).tag pos =
      { h.tag pos with lexemes := (h.tag pos).lexemes ++ [w.lexeme] } := by
  simp [add, tag, Arguments.lexemes]

end TagHead

/-- Blanks and one more. -/
def Blanks.snoc (b : Blanks) (c : CodePoint) (h : isBlank c = true) : Blanks :=
  ⟨b.val ++ [c], fun d hd => by
    rcases List.mem_append.1 hd with hd | hd
    · exact b.2 d hd
    · rw [List.mem_singleton.1 hd]
      exact h⟩

namespace Glyphs

variable {stop : CodePoint}

theorem chars_snoc (gs : Glyphs stop) (g : Glyph stop) :
    Glyphs.chars (gs ++ [g]) = gs.chars ++ g.chars := by
  simp [Glyphs.chars]

theorem content_snoc (gs : Glyphs stop) (g : Glyph stop) :
    Glyphs.content (gs ++ [g]) = gs.content ++ g.content := by
  simp [Glyphs.content]

end Glyphs

/-- What a scan that began a tag at `start` has read of it, from the brace on. -/
inductive Opened (start : Nat) : ScanState → List CodePoint → Prop
  | brace (outer : Blanks) : Opened start (.brace start) (↑ '\x7b' :: outer.val)
  | beforeName (outer inner : Blanks) :
      Opened start (.beforeName start) (↑ '\x7b' :: outer.val ++ ↑ '$' :: inner.val)
  | name (outer inner : Blanks) (cs : List CodePoint) (nonempty : cs ≠ [])
      (allowed : ∀ c ∈ cs, c.isAlpha = true) :
      Opened start (.name start (.ofList cs)) (↑ '\x7b' :: outer.val ++ ↑ '$' :: inner.val ++ cs)
  | arguments (h : TagHead) (b : Blanks) (room : ∀ c, h.Admits b c) :
      Opened start (.arguments (h.tag start) "") (h.chars ++ b.val)
  | bare (h : TagHead) (b : Blanks) (cs : List CodePoint) (nonempty : cs ≠ [])
      (allowed : ∀ c ∈ cs, isBlank c = false ∧ c ≠ '$') (first : cs.head? ≠ some ↑ '"')
      (room : ∀ c ∈ cs.head?, h.Admits b c) :
      Opened start (.arguments (h.tag start) (.ofList cs)) (h.chars ++ b.val ++ cs)
  | string (h : TagHead) (b : Blanks) (gs : Glyphs '"') (room : h.Admits b '"') :
      Opened start (.string (h.tag start) (.ofList gs.content))
        (h.chars ++ b.val ++ ↑ '"' :: gs.chars)
  | stringEscape (h : TagHead) (b : Blanks) (gs : Glyphs '"') (room : h.Admits b '"') :
      Opened start (.stringEscape (h.tag start) (.ofList gs.content))
        (h.chars ++ b.val ++ ↑ '"' :: gs.chars ++ (['\\'] : List CodePoint))
  | afterString (h : TagHead) : Opened start (.afterString (h.tag start)) h.chars
  | closing (h : TagHead) (b c : Blanks) :
      Opened start (.closing (h.tag start)) (h.chars ++ b.val ++ ↑ '$' :: c.val)

namespace Opened

variable {start pos : Nat} {st st' : ScanState} {w : List CodePoint} {c : CodePoint}
  {item? : Option Item}

/-- The same for a text that is written in another way. -/
theorem cast {w' : List CodePoint} (h : Opened start st w) (hw : w = w') :
    Opened start st w' := hw ▸ h

/-- A character where a lexeme may begin. -/
theorem argumentStep (h : TagHead) (b : Blanks) (room : h.Admits b c) :
    Opened start (ScanState.argumentStep (h.tag start) "" c) (h.chars ++ b.val ++ [c]) := by
  unfold ScanState.argumentStep
  split
  · next hc =>
    exact (arguments h (b.snoc c hc) fun d hb => by simp [Blanks.snoc] at hb).cast
      (List.append_assoc ..).symm
  · next hc =>
    split
    · next hd =>
      subst hd
      exact closing h b .none
    · next hd =>
      split
      · next hq =>
        rw [hq.1] at room ⊢
        exact string h b [] room
      · next hq =>
        have hq : c ≠ '"' := fun h => hq ⟨h, rfl⟩
        rw [show ("" : Text) = .ofList [] from rfl, push_ofList]
        refine bare h b [c] (by simp) (fun d hd' => ?_) (by simpa using hq) fun d hd' => ?_
        · rw [List.mem_singleton.1 hd']
          exact ⟨by simpa using hc, hd⟩
        · cases hd'
          exact room

/-- A character that goes on or ends a bare lexeme. -/
theorem bareStep (h : TagHead) (b : Blanks) (cs : List CodePoint) (nonempty : cs ≠ [])
    (allowed : ∀ c ∈ cs, isBlank c = false ∧ c ≠ '$') (first : cs.head? ≠ some ↑ '"')
    (room : ∀ c ∈ cs.head?, h.Admits b c) :
    Opened start (ScanState.argumentStep (h.tag start) (.ofList cs) c)
      (h.chars ++ b.val ++ cs ++ [c]) := by
  have hroom : ∀ c ∈ (Word.bare cs nonempty allowed first).chars.head?, h.Admits b c := room
  let h' := h.add b (.bare cs nonempty allowed first) hroom
  have htag : withBare (h.tag start) (.ofList cs) = h'.tag start := by
    rw [withBare_ofList nonempty]
    exact (h.add_tag b _ hroom start).symm
  have hchars : h'.chars = h.chars ++ b.val ++ cs := h.add_chars b _ hroom
  unfold ScanState.argumentStep
  rw [htag, ← hchars]
  split
  · next hc =>
    exact arguments h' (Blanks.none.snoc c hc) fun d hb => by simp [Blanks.snoc] at hb
  · next hc =>
    split
    · next hd =>
      subst hd
      exact (closing h' .none .none).cast (by simp [Blanks.none])
    · next hd =>
      rw [if_neg (by simpa [isEmpty_ofList] using fun _ => nonempty), push_ofList, hchars]
      have hhead : (cs ++ [c]).head? = cs.head? := by
        obtain ⟨d, ds, rfl⟩ := List.exists_cons_of_ne_nil nonempty
        rfl
      refine (bare h b (cs ++ [c]) (by simp) (fun d hd' => ?_) (by rwa [hhead])
        (by rwa [hhead])).cast (List.append_assoc ..).symm
      rcases List.mem_append.1 hd' with hd' | hd'
      · exact allowed d hd'
      · rw [List.mem_singleton.1 hd']
        exact ⟨by simpa using hc, hd⟩

/-- A character where the name of a tag may begin. -/
theorem beforeNameStep (outer inner : Blanks)
    (hs : (ScanState.beforeName start).step pos c = .ok (item?, st')) :
    item? = none ∧ Opened start st' (↑ '\x7b' :: outer.val ++ ↑ '$' :: inner.val ++ [c]) := by
  simp only [ScanState.step] at hs
  split at hs
  · next heq =>
    cases hs
    subst heq
    refine ⟨rfl, (arguments (.bare outer inner .echo) .none fun c _ => ⟨rfl, trivial⟩).cast ?_⟩
    simp [TagHead.bare, TagHead.chars, TagHead.inside, TagName.chars, Arguments.chars, Blanks.none]
  split at hs
  · next hc =>
    cases hs
    exact ⟨rfl, name outer inner [c] (by simp) (by simpa using hc)⟩
  · split at hs <;> cases hs
    next hb => exact ⟨rfl, (beforeName outer (inner.snoc c hb)).cast (by simp [Blanks.snoc])⟩

/-- A character that goes on or ends a name of letters. -/
theorem nameStep (outer inner : Blanks) (cs : List CodePoint) (nonempty : cs ≠ [])
    (allowed : ∀ c ∈ cs, c.isAlpha = true)
    (hs : (ScanState.name start (.ofList cs)).step pos c = .ok (item?, st')) :
    item? = none ∧ Opened start st' (↑ '\x7b' :: outer.val ++ ↑ '$' :: inner.val ++ cs ++ [c]) := by
  simp only [ScanState.step] at hs
  split at hs <;> cases hs
  · next hc =>
    rw [push_ofList]
    refine ⟨rfl, (name outer inner (cs ++ [c]) (by simp) fun d hd => ?_).cast
      (List.append_assoc ..).symm⟩
    rcases List.mem_append.1 hd with hd | hd
    · exact allowed d hd
    · rw [List.mem_singleton.1 hd]
      exact hc
  · next hc =>
    rw [map_toLower_ofList]
    have hbare : Opened start _ _ :=
      argumentStep (.bare outer inner (.letters cs nonempty allowed)) .none
        fun _ => ⟨rfl, Bool.eq_false_iff.2 hc⟩
    refine ⟨rfl, hbare.cast ?_⟩
    simp [TagHead.bare, TagHead.chars, TagHead.inside, TagName.chars, Arguments.chars, Blanks.none]

/-- A character that goes on or ends a string. -/
theorem stringStep (h : TagHead) (b : Blanks) (gs : Glyphs '"') (room : h.Admits b '"')
    (hs : (ScanState.string (h.tag start) (.ofList gs.content)).step pos c = .ok (item?, st')) :
    item? = none ∧ Opened start st' (h.chars ++ b.val ++ ↑ '"' :: gs.chars ++ [c]) := by
  simp only [ScanState.step] at hs
  split at hs
  · next hq =>
    cases hs
    subst hq
    have hroom : ∀ d ∈ (Word.quoted gs).chars.head?, h.Admits b d := by
      intro d hd
      cases hd
      exact room
    have hadd : Opened start _ _ := afterString (h.add b (.quoted gs) hroom)
    rw [h.add_tag, h.add_chars] at hadd
    exact ⟨rfl, hadd.cast (List.append_assoc _ (↑ '"' :: gs.chars) ['"']).symm⟩
  · next hq =>
    split at hs <;> cases hs
    · next he =>
      subst he
      exact ⟨rfl, stringEscape h b gs room⟩
    · next he =>
      rw [push_ofList]
      have hnext : Opened start _ _ := string h b (gs ++ [.plain c ⟨hq, he⟩]) room
      rw [Glyphs.content_snoc, Glyphs.chars_snoc] at hnext
      exact ⟨rfl, hnext.cast (by simp [Glyph.chars])⟩

/-- One more character of a tag, which closes it or leaves it open. -/
theorem step (h : Opened start st w) (hs : st.step pos c = .ok (item?, st')) :
    item? = none ∧ Opened start st' (w ++ [c]) ∨
      ∃ t : TagSource, item? = some (.tag (t.tag start)) ∧ st' = .text "" ∧ t.chars = w ++ [c] := by
  cases h with
  | brace outer =>
    simp only [ScanState.step] at hs
    split at hs
    · next hd =>
      cases hs
      subst hd
      exact .inl ⟨rfl, beforeName outer .none⟩
    · split at hs <;> cases hs
      next hb => exact .inl ⟨rfl, brace (outer.snoc c hb)⟩
  | beforeName outer inner => exact .inl (beforeNameStep outer inner hs)
  | name outer inner cs nonempty allowed =>
    exact .inl (nameStep outer inner cs nonempty allowed hs)
  | arguments h b room =>
    cases hs
    exact .inl ⟨rfl, argumentStep h b (room c)⟩
  | bare h b cs nonempty allowed first room =>
    cases hs
    exact .inl ⟨rfl, bareStep h b cs nonempty allowed first room⟩
  | string h b gs room => exact .inl (stringStep h b gs room hs)
  | stringEscape h b gs room =>
    cases hs
    rw [pushEscape_ofList]
    refine .inl ⟨rfl, ?_⟩
    have hnext : Opened start _ _ := string h b (gs ++ [.escape c]) room
    rw [Glyphs.content_snoc, Glyphs.chars_snoc] at hnext
    exact hnext.cast (by simp [Glyph.chars])
  | afterString h =>
    simp only [ScanState.step] at hs
    split at hs
    · next hb =>
      cases hs
      exact .inl ⟨rfl, arguments h (Blanks.none.snoc c hb) fun d h => by simp [Blanks.snoc] at h⟩
    · split at hs <;> cases hs
      next hd =>
        subst hd
        exact .inl ⟨rfl, (closing h .none .none).cast (by simp [Blanks.none])⟩
  | closing h b e =>
    simp only [ScanState.step] at hs
    split at hs
    · next hc =>
      cases hs
      subst hc
      exact .inr ⟨⟨h, b, e⟩, rfl, rfl, rfl⟩
    · split at hs <;> cases hs
      next hb => exact .inl ⟨rfl, (closing h b (e.snoc c hb)).cast (by simp [Blanks.snoc])⟩

/-- An open tag is not how a text may end. -/
theorem finish_ne_ok (h : Opened start st w) (item? : Option Item) : st.finish ≠ .ok item? := by
  cases h <;> exact nofun

end Opened

/-! ## Templates that grow -/

theorem Parts.chars_snoc (parts : Parts) (gs : Glyphs '\x7b') (t : TagSource) :
    Parts.chars (parts ++ [(gs, t)]) = parts.chars ++ gs.chars ++ t.chars := by
  simp [Parts.chars]

theorem Parts.items_append (parts parts' : Parts) (pos : Nat) :
    Parts.items pos (parts ++ parts') =
      parts.items pos ++ parts'.items (pos + parts.chars.length) := by
  induction parts generalizing pos with
  | nil => simp [Parts.items, Parts.chars]
  | cons p parts ih =>
    obtain ⟨gs, t⟩ := p
    have hlen : pos + gs.chars.length + t.chars.length + (Parts.chars parts).length =
        pos + (Parts.chars ((gs, t) :: parts)).length := by
      simp only [Parts.chars, List.flatMap_cons, List.length_append]
      omega
    simp only [List.cons_append, Parts.items, ih, hlen, List.append_assoc]

theorem Parts.items_snoc (parts : Parts) (gs : Glyphs '\x7b') (t : TagSource) (pos : Nat) :
    Parts.items pos (parts ++ [(gs, t)]) =
      parts.items pos ++ gs.items ++ [.tag (t.tag (pos + (parts.chars ++ gs.chars).length))] := by
  simp [Parts.items_append, Parts.items, Nat.add_assoc]

/-- What a scan has read, and the items it has given out, in each of its states. -/
inductive Reached : ScanState → List CodePoint → List Item → Prop
  | text (parts : Parts) (gs : Glyphs '\x7b') :
      Reached (.text (.ofList gs.content)) (parts.chars ++ gs.chars) (parts.items 0)
  | textEscape (parts : Parts) (gs : Glyphs '\x7b') :
      Reached (.textEscape (.ofList gs.content))
        (parts.chars ++ gs.chars ++ (['\\'] : List CodePoint))
        (parts.items 0)
  | tag (parts : Parts) (gs : Glyphs '\x7b') {st : ScanState} {w : List CodePoint}
      (h : Opened (parts.chars ++ gs.chars).length st w) :
      Reached st (parts.chars ++ gs.chars ++ w) (parts.items 0 ++ gs.items)

namespace Reached

variable {st st' : ScanState} {u cs : List CodePoint} {c : CodePoint} {items given : List Item}
  {item? : Option Item}

/-- The same for a text and items that are written in another way. -/
theorem cast {u' : List CodePoint} {items' : List Item} (h : Reached st u items) (hu : u = u')
    (hi : items = items') : Reached st u' items' := hi ▸ hu ▸ h

theorem step (h : Reached st u items) (hs : st.step u.length c = .ok (item?, st')) :
    Reached st' (u ++ [c]) (items ++ item?.toList) := by
  cases h with
  | text parts gs =>
    simp only [ScanState.step] at hs
    split at hs
    · next hc =>
      cases hs
      subst hc
      exact tag parts gs (.brace .none)
    · next hc =>
      split at hs <;> cases hs
      · next he =>
        subst he
        exact (textEscape parts gs).cast rfl (by simp)
      · next he =>
        have hnext := text parts (gs ++ [.plain c ⟨hc, he⟩])
        rw [Glyphs.content_snoc, Glyphs.chars_snoc] at hnext
        rw [push_ofList]
        exact hnext.cast (by simp [Glyph.chars]) (by simp)
  | textEscape parts gs =>
    cases hs
    have hnext := text parts (gs ++ [.escape c])
    rw [Glyphs.content_snoc, Glyphs.chars_snoc] at hnext
    rw [pushEscape_ofList]
    exact hnext.cast (by simp [Glyph.chars]) (by simp)
  | tag parts gs h =>
    rcases h.step hs with ⟨rfl, hopen⟩ | ⟨t, rfl, rfl, hchars⟩
    · exact (tag parts gs hopen).cast (List.append_assoc ..).symm (by simp)
    · have hnext := text (parts ++ [(gs, t)]) []
      rw [Parts.chars_snoc, Parts.items_snoc, hchars, Nat.zero_add] at hnext
      exact hnext.cast (by simp [Glyphs.chars]) rfl

/-- What is reached stays so over a whole run. -/
theorem feeds (h : Reached st u items) (hf : Feeds u.length st cs given st') :
    Reached st' (u ++ cs) (items ++ given) := by
  induction cs generalizing st u items given with
  | nil =>
    cases hf
    exact h.cast (by simp) (by simp)
  | cons c cs ih =>
    cases hf with
    | cons hs hr =>
      have hnext := h.step hs
      have hlen : (u ++ [c]).length = u.length + 1 := by simp
      rw [← hlen] at hr
      exact (ih hnext hr).cast (by simp) (by simp)

/-- At the end of a text what is reached is a template. -/
theorem finish (h : Reached st u items) (hf : st.finish = .ok item?) :
    ∃ s : Source, s.chars = u ∧ s.items = items ++ item?.toList := by
  cases h with
  | text parts gs =>
    cases hf
    exact ⟨⟨parts, gs, false⟩, List.append_nil _, rfl⟩
  | textEscape parts gs =>
    cases hf
    exact ⟨⟨parts, gs, true⟩, rfl, rfl⟩
  | tag parts gs h => exact absurd hf (h.finish_ne_ok item?)

end Reached

/-- **What is scanned without a fault is a template**, and its items are what was found. -/
theorem exists_source {s : Text} {items : List Item} (h : Scan.ofText s = ⟨items, none⟩) :
    ∃ src : Source, src.text = s ∧ src.items = items := by
  obtain ⟨given, st', item?, hfeed, hf, rfl⟩ := run_eq_ok_iff.1 h
  have hstart : Reached (.text "") [] [] := .text [] []
  obtain ⟨src, hchars, hitems⟩ := (hstart.feeds hfeed).finish hf
  refine ⟨src, ?_, hitems⟩
  rw [Source.text, hchars, List.nil_append, Text.ofList_toList]

/-- **Scanning accepts exactly the grammar**: a text has no fault if and only if it is a
template, and then the items are those that the template consists of, however it is read as
one. -/
theorem scan_grammar :
    (∀ s : Text, (Scan.ofText s).fault = none ↔ ∃ src : Source, src.text = s) ∧
      ∀ src : Source, Scan.ofText src.text = ⟨src.items, none⟩ := by
  refine ⟨fun s => ⟨fun h => ?_, ?_⟩, Source.scan_text⟩
  · obtain ⟨src, hsrc, -⟩ := exists_source (show Scan.ofText s = ⟨_, none⟩ by rw [← h])
    exact ⟨src, hsrc⟩
  · rintro ⟨src, rfl⟩
    rw [src.scan_text]

-- The first lexeme needs no blank before it, a string needs one after it, and a lone
-- backslash may end the text.
example : Scan.ofText "a\\n\x7b$ =1 \"b\"$ \x7d\\" =
    ⟨[.text "a\n", .tag ⟨"=", [⟨"1", false⟩, ⟨"b", true⟩], 3⟩], none⟩ := by decide

end TagTemplate
