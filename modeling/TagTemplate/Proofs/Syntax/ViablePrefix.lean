/-
Where a scan fails. A text is viable if some template begins with it. In every state that a
scan can be in it has read a viable text, for an open tag can always be closed; and where it
fails no template goes on. So a fault is found at the first character that makes the text
hopeless, and not before the end if there is none.

What is given out before a fault is the text before the tag that is not finished
(`StopsInTag`), and the position in the message is that of the character or of this tag.
-/
import TagTemplate.Proofs.Syntax.Acceptance

namespace TagTemplate

open ScanState

/-! ## One scan -/

namespace Feeds

variable {pos : Nat} {st st' st'' : ScanState} {cs ds : List CodePoint} {items items' : List Item}

/-- There is only one way to go. -/
theorem unique (h : Feeds pos st cs items st') (h' : Feeds pos st cs items' st'') :
    items = items' ∧ st' = st'' := by
  induction h generalizing items' with
  | nil =>
    cases h'
    exact ⟨rfl, rfl⟩
  | cons hs _ ih =>
    cases h' with
    | cons hs' hr' =>
      rw [hs] at hs'
      cases hs'
      obtain ⟨rfl, rfl⟩ := ih hr'
      exact ⟨rfl, rfl⟩

/-- On the way to the end of a text a scan passes the end of its beginning. -/
theorem split (h : Feeds pos st (cs ++ ds) items st') :
    ∃ given rest st₁, Feeds pos st cs given st₁ ∧ Feeds (pos + cs.length) st₁ ds rest st' ∧
      items = given ++ rest := by
  induction cs generalizing pos st items with
  | nil => exact ⟨[], items, st, .nil, h, rfl⟩
  | cons c cs ih =>
    cases h with
    | cons hs hr =>
      obtain ⟨given, rest, st₁, hcs, hds, rfl⟩ := ih hr
      rw [Nat.add_right_comm] at hds
      exact ⟨_, rest, st₁, .cons hs hcs, hds, (List.append_assoc ..).symm⟩

theorem snoc {c : CodePoint} {item? : Option Item} (h : Feeds pos st cs items st')
    (hs : st'.step (pos + cs.length) c = .ok (item?, st'')) :
    Feeds pos st (cs ++ [c]) (items ++ item?.toList) st'' := by
  have hlast := Feeds.cons hs .nil
  rw [List.append_nil] at hlast
  exact h.trans hlast

end Feeds

namespace Scan

/-- The scan of a text fails while reading the character at position `p`. -/
def FailsAt (s : Text) (p : Nat) (fault : SyntaxFault) : Prop :=
  ∃ items st c, Feeds 0 (.text "") (s.toList.take p) items st ∧ s.toList[p]? = some c ∧
    st.step p c = .error fault

/-- The scan of a text fails at the end of it. -/
def FailsAtEnd (s : Text) (fault : SyntaxFault) : Prop :=
  ∃ items st, Feeds 0 (.text "") s.toList items st ∧ st.finish = .error fault

variable {s : Text} {p : Nat} {fault : SyntaxFault}

theorem toList_eq_of_getElem? {c : CodePoint} (h : s.toList[p]? = some c) :
    s.toList = s.toList.take p ++ c :: s.toList.drop (p + 1) ∧ (s.toList.take p).length = p ∧
      s.toList.take (p + 1) = s.toList.take p ++ [c] := by
  obtain ⟨hlt, hc⟩ := List.getElem?_eq_some_iff.1 h
  refine ⟨?_, List.length_take_of_le (Nat.le_of_lt hlt), ?_⟩
  · rw [← hc, List.getElem_cons_drop, List.take_append_drop]
  · rw [List.take_add_one, h, Option.toList_some]

/-- What begins with the same characters has the same character at `p` and the same ones before
it. -/
theorem take_eq_of_isPrefix {c : CodePoint} (h : s.toList[p]? = some c) {cs : List CodePoint}
    (hcs : s.toList.take (p + 1) <+: cs) : cs.take p = s.toList.take p ∧ cs[p]? = some c := by
  obtain ⟨-, hlength, htake⟩ := toList_eq_of_getElem? h
  obtain ⟨rest, rfl⟩ := hcs
  rw [htake, List.append_assoc]
  constructor
  · rw [List.take_append_of_le_length (Nat.le_of_eq hlength.symm), List.take_take, Nat.min_self]
  · rw [List.getElem?_append_right (Nat.le_of_eq hlength), hlength, Nat.sub_self]
    rfl

/-- Up to a failure at a character the items are given out, and no others. -/
theorem ofText_of_step_error {items : List Item} {st : ScanState} {c : CodePoint}
    (hfeeds : Feeds 0 (.text "") (s.toList.take p) items st) (hc : s.toList[p]? = some c)
    (hstep : st.step p c = .error fault) : ofText s = ⟨items, some fault⟩ := by
  obtain ⟨hlist, hlength, -⟩ := toList_eq_of_getElem? hc
  rw [← hlength, ← Nat.zero_add (List.length _)] at hstep
  rw [ofText, hlist, hfeeds.run_eq, run, hstep]
  simp

theorem ofText_of_finish_error {items : List Item} {st : ScanState}
    (hfeeds : Feeds 0 (.text "") s.toList items st) (hfinish : st.finish = .error fault) :
    ofText s = ⟨items, some fault⟩ := by
  have hrun := hfeeds.run_eq [] []
  rw [List.append_nil] at hrun
  rw [ofText, hrun, run, hfinish]
  simp

end Scan

/-! ## Open tags -/

namespace Opened

variable {start pos : Nat} {st : ScanState} {w : List CodePoint} {c : CodePoint}
  {fault : SyntaxFault}

/-- **An open tag can be closed**, whatever has been read of it. -/
theorem exists_close (h : Opened start st w) : ∃ (t : TagSource) (tail : List CodePoint),
    tail ≠ [] ∧ t.chars = w ++ tail := by
  have hclose (h : TagHead) (b c : Blanks) : (TagSource.mk h b c).chars =
      h.chars ++ b.val ++ ↑ '$' :: c.val ++ (['\x7d'] : List CodePoint) := rfl
  -- A name that is missing is that of an echo.
  have hbare (outer inner : Blanks) (name : TagName) : (TagHead.bare outer inner name).chars =
      ↑ '\x7b' :: outer.val ++ ↑ '$' :: inner.val ++ name.chars := by
    simp [TagHead.bare, TagHead.chars, TagHead.inside, Arguments.chars]
  cases h with
  | brace outer =>
    refine ⟨⟨.bare outer .none .echo, .none, .none⟩, ['$', '=', '$', '\x7d'], by simp, ?_⟩
    simp [hclose, hbare, TagName.chars, Blanks.none]
  | beforeName outer inner =>
    refine ⟨⟨.bare outer inner .echo, .none, .none⟩, ['=', '$', '\x7d'], by simp, ?_⟩
    simp [hclose, hbare, TagName.chars, Blanks.none]
  | name outer inner cs nonempty allowed =>
    refine ⟨⟨.bare outer inner (.letters cs nonempty allowed), .none, .none⟩,
      ['$', '\x7d'], by simp,
      ?_⟩
    simp [hclose, hbare, TagName.chars, Blanks.none]
  | arguments h b room =>
    exact ⟨⟨h, b, .none⟩, ['$', '\x7d'], by simp, by simp [hclose, Blanks.none]⟩
  | bare h b cs nonempty allowed first room =>
    have hroom : ∀ c ∈ (Word.bare cs nonempty allowed first).chars.head?, h.Admits b c := room
    refine ⟨⟨h.add b _ hroom, .none, .none⟩, ['$', '\x7d'], by simp, ?_⟩
    simp [hclose, h.add_chars, Word.chars, Blanks.none]
  | string h b gs room =>
    refine ⟨⟨h.add b (.quoted gs) fun c hc => Option.mem_some.1 hc ▸ room, .none, .none⟩,
      ['"', '$', '\x7d'], by simp, ?_⟩
    simp [hclose, h.add_chars, Word.chars, Blanks.none]
  | stringEscape h b gs room =>
    let word : Word := .quoted (gs ++ [.escape '"'])
    refine ⟨⟨h.add b word fun c hc => Option.mem_some.1 hc ▸ room, .none, .none⟩,
      ['"', '"', '$', '\x7d'], by simp, ?_⟩
    simp [hclose, h.add_chars, word, Word.chars, Glyphs.chars_snoc, Glyph.chars, Blanks.none]
  | afterString h =>
    exact ⟨⟨h, .none, .none⟩, ['$', '\x7d'], by simp, by simp [hclose, Blanks.none]⟩
  | closing h b c =>
    exact ⟨⟨h, b, c⟩, ['\x7d'], by simp, hclose h b c⟩

/-- A fault in an open tag names the character or the tag. -/
theorem step_eq_error (h : Opened start st w) (hs : st.step pos c = .error fault) :
    fault ∈ [.dollarExpected pos, .nameMissing pos, .spaceExpected pos, .closeExpected start] := by
  cases h <;> simp only [ScanState.step] at hs <;> repeat' split at hs
  all_goals cases hs
  all_goals simp [TagHead.tag]

theorem finish_eq_error (h : Opened start st w) (hf : st.finish = .error fault) :
    fault ∈ [.stringOpen start, .tagOpen start] := by
  cases h <;> cases hf <;> simp [TagHead.tag]

end Opened

/-! ## Viable texts -/

/-- Some template begins with these characters. -/
def IsViable (cs : List CodePoint) : Prop :=
  ∃ tail, (Scan.ofText (.ofList (cs ++ tail))).fault = none

/-- These characters end inside of a tag that begins at position `q`, after a template: they go on
to a whole tag, but are none yet. -/
def StopsInTag (cs : List CodePoint) (q : Nat) : Prop :=
  ∃ (src : Source) (t : TagSource) (tail : List CodePoint), src.lone = false ∧
    cs.take q = src.chars ∧
    cs.drop q ≠ [] ∧ tail ≠ [] ∧ cs.drop q ++ tail = t.chars

theorem StopsInTag.lt_length {cs : List CodePoint} {q : Nat} (h : StopsInTag cs q) :
    q < cs.length := by
  obtain ⟨_, _, _, -, -, hdrop, -⟩ := h
  rwa [Ne, List.drop_eq_nil_iff, Nat.not_le] at hdrop

theorem Source.isViable (src : Source) {cs : List CodePoint} (tail : List CodePoint)
    (h : src.chars = cs ++ tail) :
    IsViable cs := by
  refine ⟨tail, ?_⟩
  rw [← h]
  exact congrArg Scan.fault src.scan_text

namespace Reached

variable {st : ScanState} {u : List CodePoint} {items : List Item} {fault : SyntaxFault}

/-- What has been read by a scan goes on to a template. -/
theorem isViable (h : Reached st u items) : IsViable u := by
  cases h with
  | text parts gs => exact Source.isViable ⟨parts, gs, false⟩ [] rfl
  | textEscape parts gs =>
    exact Source.isViable ⟨parts, gs, true⟩ [] (List.append_nil _).symm
  | tag parts gs h =>
    obtain ⟨t, tail, -, ht⟩ := h.exists_close
    refine Source.isViable ⟨parts ++ [(gs, t)], [], false⟩ tail ?_
    simp [Source.chars, Parts.chars_snoc, ht, Glyphs.chars]

/-- In a tag that is not closed the items are those of the text before it. -/
theorem stopsInTag {parts : Parts} {gs : Glyphs '\x7b'} {w : List CodePoint}
    (h : Opened (parts.chars ++ gs.chars).length st w) :
    StopsInTag (parts.chars ++ gs.chars ++ w) (parts.chars ++ gs.chars).length ∧
    Scan.ofText (.ofList ((parts.chars ++ gs.chars ++ w).take (parts.chars ++ gs.chars).length)) =
      ⟨parts.items 0 ++ gs.items, none⟩ := by
  obtain ⟨t, tail, htail, ht⟩ := h.exists_close
  have htext : (Source.mk parts gs false).chars = parts.chars ++ gs.chars := by simp [Source.chars]
  have hw : w ≠ [] := by cases h <;> simp [TagHead.chars]
  rw [List.take_left, ← htext]
  exact ⟨⟨⟨parts, gs, false⟩, t, tail, rfl, by rw [List.take_left], by rwa [List.drop_left], htail,
    by rw [List.drop_left, ht]⟩, Source.scan_text _⟩

/-- A fault at a character is one of an open tag. -/
theorem step_eq_error {p : Nat} {c : CodePoint} (h : Reached st u items)
    (hs : st.step p c = .error fault) :
    ∃ q, StopsInTag u q ∧ Scan.ofText (.ofList (u.take q)) = ⟨items, none⟩ ∧
      fault ∈ [.dollarExpected p, .nameMissing p, .spaceExpected p, .closeExpected q] := by
  cases h with
  | text parts gs =>
    simp only [ScanState.step] at hs
    repeat' split at hs
    all_goals cases hs
  | textEscape parts gs => cases hs
  | tag parts gs h =>
    obtain ⟨hstops, hscan⟩ := stopsInTag h
    exact ⟨_, hstops, hscan, h.step_eq_error hs⟩

theorem finish_eq_error (h : Reached st u items) (hf : st.finish = .error fault) :
    ∃ q, StopsInTag u q ∧ Scan.ofText (.ofList (u.take q)) = ⟨items, none⟩ ∧
      fault ∈ [.stringOpen q, .tagOpen q] := by
  cases h with
  | text parts gs => cases hf
  | textEscape parts gs => cases hf
  | tag parts gs h =>
    obtain ⟨hstops, hscan⟩ := stopsInTag h
    exact ⟨_, hstops, hscan, h.finish_eq_error hf⟩

end Reached

theorem reached_of_feeds {cs : List CodePoint} {items : List Item} {st : ScanState}
    (h : Feeds 0 (.text "") cs items st) : Reached st cs items := by
  have hstart : Reached (.text "") [] [] := .text [] []
  exact hstart.feeds h

/-- **What a scan reads without a fault is viable**, and all of a viable text is read so. -/
theorem isViable_iff {cs : List CodePoint} : IsViable cs ↔ ∃ items st,
    Feeds 0 (.text "") cs items st := by
  constructor
  · rintro ⟨tail, htail⟩
    have hrun : Scan.run [] 0 (.text "") (cs ++ tail) =
        ⟨(Scan.ofText (.ofList (cs ++ tail))).items, none⟩ := by
      rw [← htail, Scan.ofText, Text.toList_ofList]
    -- A scan of the whole template has come by the end of its beginning.
    obtain ⟨_, _, _, hfeeds, -⟩ := run_eq_ok_iff.1 hrun
    obtain ⟨items, _, st, hcs, -⟩ := hfeeds.split
    exact ⟨items, st, hcs⟩
  · rintro ⟨items, st, hfeeds⟩
    exact (reached_of_feeds hfeeds).isViable

namespace Scan

variable {s : Text} {p : Nat} {fault : SyntaxFault}

/-- **A scan fails at the first hopeless character.** -/
theorem exists_failsAt_iff :
    (∃ fault, FailsAt s p fault) ↔ IsViable (s.toList.take p) ∧
      ¬IsViable (s.toList.take (p + 1)) := by
  simp only [isViable_iff]
  constructor
  · rintro ⟨fault, items, st, c, hfeeds, hc, hstep⟩
    obtain ⟨-, hlength, htake⟩ := toList_eq_of_getElem? hc
    refine ⟨⟨items, st, hfeeds⟩, fun ⟨_, _, hnext⟩ => ?_⟩
    -- There is one way to go only, and from its end the character is not read.
    rw [htake] at hnext
    obtain ⟨_, _, _, hfeeds', hlast, -⟩ := hnext.split
    obtain ⟨-, rfl⟩ := hfeeds.unique hfeeds'
    rw [Nat.zero_add, hlength] at hlast
    cases hlast with
    | cons hs _ =>
      rw [hstep] at hs
      cases hs
  · rintro ⟨⟨items, st, hfeeds⟩, hnext⟩
    cases hc : s.toList[p]? with
    | none =>
      have hend := List.getElem?_eq_none_iff.1 hc
      rw [List.take_of_length_le hend] at hfeeds
      rw [List.take_of_length_le (Nat.le_succ_of_le hend)] at hnext
      exact absurd ⟨items, st, hfeeds⟩ hnext
    | some c =>
      obtain ⟨-, hlength, htake⟩ := toList_eq_of_getElem? hc
      cases hstep : st.step p c with
      | error fault => exact ⟨fault, items, st, c, hfeeds, hc, hstep⟩
      | ok next =>
        have hpos : p = 0 + (s.toList.take p).length := by rw [Nat.zero_add, hlength]
        have hsnoc := hfeeds.snoc (hpos ▸ hstep)
        rw [← htake] at hsnoc
        exact absurd ⟨_, _, hsnoc⟩ hnext

/-- A text that is viable but no template fails at its end. -/
theorem exists_failsAtEnd_iff :
    (∃ fault, FailsAtEnd s fault) ↔ (ofText s).fault ≠ none ∧ IsViable s.toList := by
  rw [isViable_iff]
  constructor
  · rintro ⟨fault, items, st, hfeeds, hfinish⟩
    rw [ofText_of_finish_error hfeeds hfinish]
    exact ⟨Option.some_ne_none _, items, st, hfeeds⟩
  · rintro ⟨hfault, items, st, hfeeds⟩
    cases hfinish : st.finish with
    | error fault => exact ⟨fault, items, st, hfeeds, hfinish⟩
    | ok item? =>
      have hrun : ofText s = ⟨[].reverse ++ items ++ item?.toList, none⟩ :=
        run_eq_ok_iff.2 ⟨items, st, item?, hfeeds, hfinish, rfl⟩
      exact absurd (congrArg Scan.fault hrun) hfault

/-- A text that is not viable has a first character that makes it so. -/
theorem exists_hopeless {cs : List CodePoint} {n : Nat} (h : ¬IsViable (cs.take n)) :
    ∃ p, IsViable (cs.take p) ∧ ¬IsViable (cs.take (p + 1)) := by
  induction n with
  | zero => exact absurd (isViable_iff.2 ⟨[], _, .nil⟩) h
  | succ n ih =>
    by_cases hn : IsViable (cs.take n)
    · exact ⟨n, hn, h⟩
    · exact ih hn

/-- Every fault is found at a character or at the end. -/
theorem fault_eq_some_iff :
    (ofText s).fault = some fault ↔ (∃ p, FailsAt s p fault) ∨ FailsAtEnd s fault := by
  constructor
  · intro hfault
    by_cases hviable : IsViable s.toList
    · have hfails : (ofText s).fault ≠ none := by simp [hfault]
      obtain ⟨_, items, st, hfeeds, hfinish⟩ := exists_failsAtEnd_iff.2 ⟨hfails, hviable⟩
      rw [ofText_of_finish_error hfeeds hfinish] at hfault
      exact .inr ⟨items, st, hfeeds, Option.some.inj hfault ▸ hfinish⟩
    · have hall : s.toList.take s.toList.length = s.toList := List.take_length
      rw [← hall] at hviable
      obtain ⟨p, hhopeless⟩ := exists_hopeless hviable
      obtain ⟨_, items, st, c, hfeeds, hc, hstep⟩ := exists_failsAt_iff.2 hhopeless
      rw [ofText_of_step_error hfeeds hc hstep] at hfault
      exact .inl ⟨p, items, st, c, hfeeds, hc, Option.some.inj hfault ▸ hstep⟩
  · rintro (⟨p, items, st, c, hfeeds, hc, hstep⟩ | ⟨items, st, hfeeds, hfinish⟩)
    · rw [ofText_of_step_error hfeeds hc hstep]
    · rw [ofText_of_finish_error hfeeds hfinish]

/-- **Faults are found neither early nor late.** A scan fails at a character if and only if the text
before it is viable and the text with it is not, and at the end if and only if the text is viable
but no template; there are no other faults. What is given out before is the scan of the text up to
the tag that is not finished, and the message names the position of this tag or of the character.
All texts that begin with the same characters, up to the one that fails, fail at it in the same
way. -/
theorem fails_at_first_hopeless (s : Text) :
    (∀ fault, (ofText s).fault = some fault ↔ (∃ p, FailsAt s p fault) ∨ FailsAtEnd s fault) ∧
    (∀ p, (∃ fault, FailsAt s p fault) ↔
      IsViable (s.toList.take p) ∧ ¬IsViable (s.toList.take (p + 1))) ∧
    ((∃ fault, FailsAtEnd s fault) ↔ (ofText s).fault ≠ none ∧ IsViable s.toList) ∧
    (∀ p fault, FailsAt s p fault →
      (∃ q, StopsInTag (s.toList.take p) q ∧
        ofText (.ofList (s.toList.take q)) = ⟨(ofText s).items, none⟩ ∧
        fault ∈ [.dollarExpected p, .nameMissing p, .spaceExpected p, .closeExpected q]) ∧
      ∀ s' : Text, s.toList.take (p + 1) <+: s'.toList →
        FailsAt s' p fault ∧ ofText s' = ofText s) ∧
    ∀ fault, FailsAtEnd s fault →
      ∃ q, StopsInTag s.toList q ∧
        ofText (.ofList (s.toList.take q)) = ⟨(ofText s).items, none⟩ ∧
        fault ∈ [.stringOpen q, .tagOpen q] := by
  refine ⟨fun _ => fault_eq_some_iff, fun _ => exists_failsAt_iff, exists_failsAtEnd_iff, ?_, ?_⟩
  · rintro p fault ⟨items, st, c, hfeeds, hc, hstep⟩
    have hscan := ofText_of_step_error hfeeds hc hstep
    constructor
    · obtain ⟨q, hstops, hitems, hmessage⟩ := (reached_of_feeds hfeeds).step_eq_error hstep
      refine ⟨q, hstops, ?_, hmessage⟩
      have hlt := hstops.lt_length
      rw [List.length_take] at hlt
      rw [hscan, ← hitems, List.take_take, Nat.min_eq_left (by omega)]
    · intro s' hs
      obtain ⟨htake, hc'⟩ := take_eq_of_isPrefix hc hs
      rw [← htake] at hfeeds
      exact ⟨⟨items, st, c, hfeeds, hc',
        hstep⟩, by rw [ofText_of_step_error hfeeds hc' hstep, hscan]⟩
  · rintro fault ⟨items, st, hfeeds, hfinish⟩
    rw [ofText_of_finish_error hfeeds hfinish]
    exact (reached_of_feeds hfeeds).finish_eq_error hfinish

/-- A tag whose dollar has no brace after it, and one that ends in a string. -/
theorem fails_at_first_hopeless_dollar_and_string :
    FailsAt "a\x7b$=1 $ b" 8 (.closeExpected 1) ∧
    (∃ q, StopsInTag (("a\x7b$=1 $ b" : Text).toList.take 8) q ∧
      ofText (.ofList (("a\x7b$=1 $ b" : Text).toList.take q)) = ⟨[.text "a"], none⟩) ∧
    (∀ s' : Text, ("a\x7b$=1 $ b" : Text).toList.take 9 <+: s'.toList →
      ofText s' = ⟨[.text "a"], some (.closeExpected 1)⟩) ∧
    FailsAtEnd "a\x7b$=\"" (.stringOpen 1) ∧
    ∃ q, StopsInTag ("a\x7b$=\"" : Text).toList q ∧
      ofText (.ofList (("a\x7b$=\"" : Text).toList.take q)) = ⟨[.text "a"], none⟩ := by
  have hdollar : FailsAt "a\x7b$=1 $ b" 8 (.closeExpected 1) := by
    have hread :
      ("a\x7b$=1 $ b" : Text).toList.take 8 =
        [↑ 'a', ↑ '\x7b', ↑ '$', ↑ '=', ↑ '1', ↑ ' ', ↑ '$', ↑ ' '] := by decide
    have htag :
      Feeds 1 (.text "a") ['\x7b', '$', '=', '1', ' ', '$', ' '] ((some (.text "a")).toList ++ [])
        (.closing ⟨"=", [⟨"1", false⟩], 1⟩) :=
      .cons rfl
        (.silent rfl (.silent rfl (.silent rfl (.silent rfl (.silent rfl (.silent rfl .nil))))))
    exact ⟨[.text "a"], .closing ⟨"=", [⟨"1", false⟩], 1⟩, ↑ 'b',
      hread ▸ .silent rfl htag, rfl, rfl⟩
  have hstring : FailsAtEnd "a\x7b$=\"" (.stringOpen 1) := by
    have hread : ("a\x7b$=\"" : Text).toList = [↑ 'a', ↑ '\x7b', ↑ '$', ↑ '=', ↑ '"'] := by decide
    have htag : Feeds 1 (.text "a") ['\x7b', '$', '=', '"'] ((some (.text "a")).toList ++ [])
        (.string ⟨"=", [], 1⟩ "") :=
      .cons rfl (.silent rfl (.silent rfl (.silent rfl .nil)))
    exact ⟨[.text "a"], .string ⟨"=", [], 1⟩ "", hread ▸ .silent rfl htag, rfl⟩
  have hscan : ofText "a\x7b$=1 $ b" = ⟨[.text "a"], some (.closeExpected 1)⟩ := by decide
  have hscan' : ofText "a\x7b$=\"" = ⟨[.text "a"], some (.stringOpen 1)⟩ := by decide
  obtain ⟨-, -, -, hat, -⟩ := fails_at_first_hopeless "a\x7b$=1 $ b"
  obtain ⟨-, -, -, -, hend⟩ := fails_at_first_hopeless "a\x7b$=\""
  obtain ⟨⟨q, hstops, hitems, -⟩, hsame⟩ := hat 8 _ hdollar
  obtain ⟨q', hstops', hitems', -⟩ := hend _ hstring
  rw [hscan] at hitems
  rw [hscan'] at hitems'
  exact ⟨hdollar, ⟨q, hstops, hitems⟩, fun s' hs => (hsame s' hs).2.trans hscan, hstring,
    q', hstops',
    hitems'⟩

end Scan

end TagTemplate
