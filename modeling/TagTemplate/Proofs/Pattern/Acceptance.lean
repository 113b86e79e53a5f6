/-
Exactly the texts of the grammar are compiled. The parts of a text fit together because none goes on
where the next one begins: an affix ends at the first character of a number part, and a number part
at an affix, as an `E` in an affix never has a zero behind it.
-/
import TagTemplate.Proofs.Pattern.Affixes
import TagTemplate.Proofs.Pattern.NumberParts

namespace TagTemplate.Pattern

/-! ## Subpatterns -/

/-- The end of a subpattern: the end of the text, or a semicolon. -/
def AtSubpatternEnd (rest : List CodePoint) : Prop := ∀ c ∈ rest.head?, c = ';'

namespace AtSubpatternEnd

variable {rest : List CodePoint} (h : AtSubpatternEnd rest)

include h

theorem atAffixEnd : AtAffixEnd rest := by
  intro c hc
  rw [h c hc]
  rfl

theorem avoids {signs : List CodePoint} (hsigns : ↑ ';' ∉ signs) : Avoids signs rest := by
  intro c hc
  rwa [h c hc]

end AtSubpatternEnd

theorem atSubpatternEnd_nil : AtSubpatternEnd [] := fun _ hc => by cases hc

theorem atSubpatternEnd_cons (cs : List CodePoint) : AtSubpatternEnd (↑ ';' :: cs) := fun _ hc =>
  (Option.mem_some.1 hc).symm

theorem AffixSource.avoids_chars (pieces : AffixSource) :
    Avoids ['#', '0', ',', '.'] pieces.chars := by
  cases pieces with
  | nil => rintro c ⟨⟩
  | cons piece pieces =>
    cases piece with
    | plain c allowed =>
      rintro _ ⟨⟩ hmem
      have hends := (isLiteral_iff.1 allowed).1
      simp only [List.mem_cons, List.not_mem_nil, or_false] at hmem
      rcases hmem with rfl | rfl | rfl | rfl <;> cases hends
    | percent | perMille | quoted =>
      rintro _ ⟨⟩
      decide

/-- No number part goes on in an affix. An `E` that stands first in it has no zero behind it. -/
theorem AffixSource.isApart (pieces : AffixSource) {rest : List CodePoint}
    (h : AtSubpatternEnd rest) :
    IsApart (pieces.chars ++ rest) := by
  have hrest : Avoids ['#', '0', ',', '.'] rest := h.avoids (by decide)
  refine ⟨pieces.avoids_chars.append hrest, fun cs heq => ?_⟩
  cases pieces with
  | nil =>
    have := h 'E' (by rw [show rest = _ from heq]; rfl)
    cases this
  | cons piece pieces =>
    cases piece with
    | plain c allowed =>
      have hzero := (AffixSource.avoids_chars pieces).append hrest
      exact hzero.not_cons '0' (by decide) cs (List.cons.inj heq).2
    | percent | perMille | quoted => cases heq

/-- An affix ends where a number part begins. -/
theorem NumberSource.atAffixEnd (n : NumberSource) (rest : List CodePoint) :
    AtAffixEnd (n.chars ++ rest) := by
  obtain ⟨c, cs, hcs, hc⟩ := n.exists_chars_eq
  rw [hcs]
  rintro _ ⟨⟩
  exact hc

/-- **A subpattern of the grammar is read** up to its end. -/
theorem SubpatternSource.splitSubpattern_append (s : SubpatternSource) {rest : List CodePoint}
    (h : AtSubpatternEnd rest) :
      ∃ t : Subpattern, splitSubpattern (s.chars ++ rest) = some (t, rest) ∧
      t.number = s.number.part ∧ t.multiplier = s.multiplier := by
  have hend := s.number.atAffixEnd (s.after.chars ++ rest)
  obtain ⟨before, hbefore, hm⟩ := (splitAffix_append hend s.before).1
  obtain ⟨after, hafter, hm'⟩ := (splitAffix_append h.atAffixEnd s.after).1
  have hnumber := s.number.splitNumber_append (s.after.isApart h)
  refine ⟨⟨before, s.number.part, after⟩, ?_, rfl, ?_⟩
  · rw [chars, List.append_assoc, List.append_assoc]
    simp [splitSubpattern, hbefore, hnumber, hafter]
  · rw [Subpattern.multiplier, hm, hm', SubpatternSource.multiplier]

theorem splitSubpattern_sound {cs rest : List CodePoint} {t : Subpattern}
    (h : splitSubpattern cs = some (t, rest)) : ∃ s : SubpatternSource, cs = s.chars ++ rest := by
  obtain ⟨rest₁, rest₂, hbefore, hnumber, hafter⟩ := splitSubpattern_eq_some h
  obtain ⟨before, rfl⟩ := ensures_split.1 _ _ _ hbefore
  obtain ⟨number, rfl⟩ := splitNumber_sound hnumber
  obtain ⟨after, rfl⟩ := ensures_split.1 _ _ _ hafter
  exact ⟨⟨before, number, after⟩, by simp [SubpatternSource.chars]⟩

/-! ## Patterns -/

namespace Source

variable (src : Source)

theorem splitPattern_chars : ∃ first second, splitPattern src.chars = some (first, second) ∧
    first.number = src.first.number.part ∧ first.multiplier = src.first.multiplier := by
  obtain ⟨s, second⟩ := src
  cases second with
  | none =>
    obtain ⟨t, ht, hnumber, hmultiplier⟩ := s.splitSubpattern_append atSubpatternEnd_nil
    refine ⟨t, none, ?_, hnumber, hmultiplier⟩
    simp only [chars, Option.elim_none, splitPattern, ht]
  | some s' =>
    obtain ⟨t, ht, hnumber, hmultiplier⟩ :=
      s.splitSubpattern_append (atSubpatternEnd_cons s'.chars)
    obtain ⟨t', ht', -⟩ := s'.splitSubpattern_append atSubpatternEnd_nil
    rw [List.append_nil] at ht'
    refine ⟨t, some t', ?_, hnumber, hmultiplier⟩
    simp only [chars, Option.elim_some, splitPattern, ht, ht']

theorem text_ne_empty : src.text ≠ "" := by
  obtain ⟨c, cs, hcs, -⟩ := src.first.number.exists_chars_eq
  have hchars : src.chars ≠ [] := by simp [chars, SubpatternSource.chars, hcs]
  exact fun h => hchars (Text.ofList_eq_empty_iff.1 h)

end Source

theorem splitPattern_sound {cs : List CodePoint} {p : Subpattern × Option Subpattern}
    (h : splitPattern cs = some p) : ∃ src : Source, cs = src.chars := by
  unfold splitPattern at h
  split at h
  · next hfirst =>
    obtain ⟨s, rfl⟩ := splitSubpattern_sound hfirst
    exact ⟨⟨s, none⟩, rfl⟩
  · next hfirst =>
    obtain ⟨s, rfl⟩ := splitSubpattern_sound hfirst
    split at h
    · next hsecond =>
      obtain ⟨s', rfl⟩ := splitSubpattern_sound hsecond
      exact ⟨⟨s, some s'⟩, by simp [Source.chars]⟩
    · cases h
  · cases h

/-! ## The texts that are compiled -/

theorem Source.compile_eq_ok {src : Source} {first : Subpattern} {second : Option Subpattern}
    (h : splitPattern src.chars = some (first, second)) :
    compile src.text = .ok (ofSubpatterns first second) := by
  have hnonempty : ¬src.text.isEmpty = true := by
    rw [Text.isEmpty_iff]
    exact src.text_ne_empty
  rw [compile, if_neg hnonempty, Source.text, Text.toList_ofList, h]

theorem compile_text (src : Source) : ∃ p, compile src.text = .ok p ∧
    src.first.number.Gives p ∧ p.multiplier = src.first.multiplier := by
  obtain ⟨first, second, hsplit, hnumber, hmultiplier⟩ := src.splitPattern_chars
  exact ⟨ofSubpatterns first second, Source.compile_eq_ok hsplit,
    src.first.number.gives hnumber second,
    hmultiplier⟩

theorem exists_source {s : Text} {p : Pattern} (h : compile s = .ok p) :
    s = "" ∨ ∃ src : Source, src.text = s := by
  unfold compile at h
  split at h
  · next hempty => exact .inl (Text.isEmpty_iff.1 hempty)
  split at h
  · next hsplit =>
    obtain ⟨src, hsrc⟩ := splitPattern_sound hsplit
    exact .inr ⟨src, by rw [Source.text, ← hsrc, Text.ofList_toList]⟩
  · cases h

theorem compile_eq_error {s : Text} {f : Fault} (h : compile s = .error f) :
    f = .malformedPattern s := by
  unfold compile at h
  split at h
  · cases h
  split at h
  · cases h
  · cases h
    rfl

/-- **The pattern language.** Exactly the empty text and the texts of the grammar are compiled, and
for any other one the fault says so. The pattern of a text of the grammar has the fields that the
number part of its first subpattern gives it, however the text is taken apart. -/
theorem compile_grammar :
    (∀ s, (∃ p, compile s = .ok p) ↔ s = "" ∨ ∃ src : Source, src.text = s) ∧
    (∀ s f, compile s = .error f → f = .malformedPattern s ∧ f.category = "ValueError") ∧
    ∀ src : Source, ∃ p, compile src.text = .ok p ∧ src.first.number.Gives p ∧
      p.multiplier = src.first.multiplier := by
  refine ⟨fun s => ⟨fun ⟨p, hp⟩ => exists_source hp, ?_⟩, fun s f h => ?_, compile_text⟩
  · rintro (rfl | ⟨src, rfl⟩)
    · exact ⟨plain, rfl⟩
    · obtain ⟨p, hp, -⟩ := compile_text src
      exact ⟨p, hp⟩
  · obtain rfl := compile_eq_error h
    exact ⟨rfl, rfl⟩

/-- A pattern with groups, and a text that is no pattern since a comma stands last. -/
theorem compile_grammar_grouped :
    (∃ p, compile "#,##0.00" = .ok p ∧
      p.minInteger = 1 ∧ p.grouping = 3 ∧ p.minFraction = 2 ∧ p.maxFraction = 2 ∧
        p.minExponent = 0) ∧
    ∃ f, compile "#,##0," = .error f ∧ f.category = "ValueError" := by
  obtain ⟨_, herror, hfields⟩ := compile_grammar
  constructor
  · let integer : IntegerSource :=
      ⟨['#', ',', '#', '#'], ['0'], ⟨by simp, by simp⟩, ⟨by simp, by simp⟩, by simp, by simp⟩
    let number : NumberSource := ⟨some integer, some ⟨2, 0⟩, 0, .inl rfl⟩
    obtain ⟨p, hp, hgives, -⟩ := hfields ⟨⟨[], number, []⟩, none⟩
    refine ⟨p, hp, hgives.minInteger, hgives.grouping ['#'] ['#', '#', '0'] rfl (by decide),
      hgives.minFraction, hgives.maxFraction, hgives.minExponent⟩
  · have hcompile : compile "#,##0," = .error (.malformedPattern "#,##0,") := by rfl
    exact ⟨_, hcompile, (herror _ _ hcompile).2⟩

end TagTemplate.Pattern
