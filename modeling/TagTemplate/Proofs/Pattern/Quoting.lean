/-
Texts that are carried through a pattern. Between quotes every text stands for itself as an affix,
whatever it would mean outside of them, and it gives the pattern nothing but this affix; nor does a
second subpattern give more than its two. So the affixes of a pattern are around a number what they
were written as, and the rest of the text comes from the number part alone.
-/
import TagTemplate.Pattern.Format
import TagTemplate.Proofs.Number.Denotation
import TagTemplate.Proofs.Pattern.Acceptance

namespace TagTemplate.Pattern

/-! ## Quoted texts -/

/-- The text between quotes, with each quote in it written twice. No text needs no quotes. -/
def quote (s : Text) : Text :=
  if s = "" then "" else Text.ofList (↑ '\'' :: doubled s.toList ++ (['\''] : List CodePoint))

/-- The same as a piece of an affix. -/
def AffixSource.quote (s : Text) : AffixSource := if s = "" then [] else [.quoted s.toList]

theorem toList_quote (s : Text) : (quote s).toList = (AffixSource.quote s).chars := by
  unfold quote AffixSource.quote
  split
  · rfl
  · simp [AffixSource.chars, AffixPiece.chars]

/-- A quoted run is read to its end. -/
theorem splitQuoted_content {rest : List CodePoint} (h : AtAffixEnd rest)
    (content : List CodePoint) :
    splitQuoted false (doubled content ++ ↑ '\'' :: rest) = some (⟨content, none⟩, rest) := by
  induction content with
  | nil =>
    have hquote : ∀ c ∈ rest.head?, c ≠ '\'' := by
      rintro _ hc rfl
      cases h _ hc
    rw [doubled, List.flatMap_nil, List.nil_append, splitQuoted_close false hquote,
      splitAffix_of_atAffixEnd h]
    rfl
  | cons c content ih =>
    rw [splitQuoted_doubled_cons, ih]
    rfl

/-- **A quoted text is read as this text**, without a multiplier. -/
theorem splitAffix_quote {rest : List CodePoint} (h : AtAffixEnd rest) (s : Text) :
    splitAffix ((AffixSource.quote s).chars ++ rest) = some (⟨s.toList, none⟩, rest) := by
  unfold AffixSource.quote
  split
  · next hempty =>
    rw [hempty]
    exact splitAffix_of_atAffixEnd h
  · next hsome =>
    obtain ⟨c, content, hcontent⟩ :=
      List.exists_cons_of_ne_nil (mt Text.toList_eq_nil_iff.1 hsome)
    rw [hcontent, AffixSource.chars, List.flatMap_singleton, AffixPiece.chars, List.append_assoc,
      List.cons_append, splitAffix, List.singleton_append, splitQuoted_doubled_cons,
      splitQuoted_content h]
    rfl

/-! ## Patterns with quoted affixes -/

/-- A number part between quoted texts. -/
def SubpatternSource.quoted (s : Text) (n : NumberSource) (t : Text) : SubpatternSource :=
  ⟨AffixSource.quote s, n, AffixSource.quote t⟩

theorem SubpatternSource.chars_quoted (s : Text) (n : NumberSource) (t : Text) :
    (SubpatternSource.quoted s n t).chars =
      (quote s ++ Text.ofList n.chars ++ quote t).toList := by
  simp [SubpatternSource.quoted, SubpatternSource.chars, toList_quote]

/-- What is read of it. -/
def Subpattern.quoted (s : Text) (n : NumberSource) (t : Text) : Subpattern :=
  ⟨⟨s.toList, none⟩, n.part, ⟨t.toList, none⟩⟩

theorem Subpattern.affixes_quoted (s : Text) (n : NumberSource) (t : Text) :
    (Subpattern.quoted s n t).affixes = ⟨s, t⟩ := by
  simp [Subpattern.quoted, Subpattern.affixes]

theorem splitSubpattern_quoted (s : Text) (n : NumberSource) (t : Text) {rest : List CodePoint}
    (h : AtSubpatternEnd rest) :
    splitSubpattern ((SubpatternSource.quoted s n t).chars ++ rest) =
      some (Subpattern.quoted s n t, rest) := by
  have hbefore := splitAffix_quote (n.atAffixEnd ((AffixSource.quote t).chars ++ rest)) s
  have hnumber := n.splitNumber_append ((AffixSource.quote t).isApart h)
  have hafter := splitAffix_quote h.atAffixEnd t
  rw [SubpatternSource.chars, List.append_assoc, List.append_assoc]
  simp [splitSubpattern, SubpatternSource.quoted, Subpattern.quoted, hbefore, hnumber, hafter]

/-- The pattern with other affixes. -/
def withAffixes (p : Pattern) (positive negative : Affixes) : Pattern :=
  { p with positive, negative }

/-- The pattern of a number part without affixes. -/
def ofNumber (n : NumberSource) : Pattern := ofSubpatterns (Subpattern.quoted "" n "") none

theorem ofSubpatterns_quoted (s : Text) (n : NumberSource) (t : Text) :
    ofSubpatterns (Subpattern.quoted s n t) none =
      (ofNumber n).withAffixes ⟨s, t⟩ ⟨"-" ++ s, t⟩ := by
  rw [ofSubpatterns, Subpattern.affixes_quoted]
  rfl

theorem ofSubpatterns_quoted_some (s t u w : Text) (n n' : NumberSource) :
    ofSubpatterns (Subpattern.quoted s n t) (some (Subpattern.quoted u n' w)) =
      (ofNumber n).withAffixes ⟨s, t⟩ ⟨u, w⟩ := by
  rw [ofSubpatterns, Subpattern.affixes_quoted, Option.map_some, Subpattern.affixes_quoted]
  rfl

theorem compile_quote_one (s : Text) (n : NumberSource) (t : Text) :
    compile (quote s ++ .ofList n.chars ++ quote t) =
      .ok ((ofNumber n).withAffixes ⟨s, t⟩ ⟨"-" ++ s, t⟩) := by
  let src : Source := ⟨.quoted s n t, none⟩
  have hsplit : splitPattern src.chars = some (.quoted s n t, none) := by
    have hread := splitSubpattern_quoted s n t atSubpatternEnd_nil
    simp only [src, Source.chars, Option.elim_none, splitPattern, hread]
  have htext : quote s ++ .ofList n.chars ++ quote t = src.text := by
    apply Text.toList_injective
    simp [src, Source.text, Source.chars, SubpatternSource.chars_quoted]
  rw [htext, Source.compile_eq_ok hsplit, ofSubpatterns_quoted]

theorem compile_quote_two (s t u w : Text) (n n' : NumberSource) :
    compile (quote s ++ .ofList n.chars ++ quote t ++ ";" ++
      (quote u ++ .ofList n'.chars ++ quote w)) =
      .ok ((ofNumber n).withAffixes ⟨s, t⟩ ⟨u, w⟩) := by
  let src : Source := ⟨.quoted s n t, some (.quoted u n' w)⟩
  have hsplit : splitPattern src.chars = some (.quoted s n t, some (.quoted u n' w)) := by
    have hfirst :=
      splitSubpattern_quoted s n t (atSubpatternEnd_cons (SubpatternSource.quoted u n' w).chars)
    have hsecond := splitSubpattern_quoted u n' w atSubpatternEnd_nil
    rw [List.append_nil] at hsecond
    simp only [src, Source.chars, Option.elim_some, splitPattern, hfirst, hsecond]
  have htext : quote s ++ .ofList n.chars ++ quote t ++ ";" ++
      (quote u ++ .ofList n'.chars ++ quote w) = src.text := by
    apply Text.toList_injective
    simp [src, Source.text, Source.chars, SubpatternSource.chars_quoted]
  rw [htext, Source.compile_eq_ok hsplit, ofSubpatterns_quoted_some]

/-! ## Numbers between quoted texts -/

/-- A pattern applied to the number without its sign. That of the least integer is no integer of a
template. -/
def formatAbsolute (p : Pattern) : Number → Except Fault Text
  | .integer n => p.formatInteger n.toInt.natAbs
  | .double .nan => p.formatDouble .nan
  | .double (.ranked _ rank bounded) => p.formatDouble (.ranked false rank bounded)

section

variable {p : Pattern} (hp : p.positive = ⟨"", ""⟩) (positive negative : Affixes)

include hp

theorem surround_withAffixes (below : Bool) (body : List Char) :
    (p.withAffixes positive negative).surround below body =
      (if below then negative else positive).before ++ p.surround false body ++
        (if below then negative else positive).after := by
  have hbare : p.surround false body = String.ofList body := by simp [surround, hp]
  rw [hbare]
  rfl

theorem map_surround_withAffixes (below : Bool) (d : Decimal) :
    (p.withAffixes positive negative).surround below <$> p.body d =
      (fun b => (if below then negative else positive).before ++ b ++
        (if below then negative else positive).after) <$> p.surround false <$> p.body d := by
  rw [Functor.map_map]
  exact congrArg (· <$> p.body d) (funext (surround_withAffixes hp positive negative below))

/-- The affixes stand around what the pattern without affixes makes of the magnitude. -/
theorem format_withAffixes {v : Number} (hv : v ≠ .double .nan) :
    (p.withAffixes positive negative).format v =
      (fun b => (if v.isBelowZero then negative else positive).before ++ b ++
        (if v.isBelowZero then negative else positive).after) <$> p.formatAbsolute v := by
  rcases v with n | _ | ⟨below, rank, bounded⟩
  · have hsign : decide ((n.toInt.natAbs : Int) < 0) = false :=
      decide_eq_false (Int.not_lt.2 (Int.natCast_nonneg _))
    rw [formatAbsolute, formatInteger, hsign, Int.natAbs_natCast]
    exact map_surround_withAffixes hp positive negative _ _
  · exact absurd rfl hv
  · simp only [format, formatAbsolute, formatDouble]
    by_cases hinfinite : rank = Double.infinityRank
    · have hbelow : (below && decide (rank ≠ 0)) = below := by simp [hinfinite]
      rw [if_pos hinfinite, if_pos hinfinite, Number.isBelowZero, hbelow]
      exact congrArg Except.ok (surround_withAffixes hp positive negative below _)
    rw [if_neg hinfinite, if_neg hinfinite, Number.isBelowZero]
    by_cases hzero : rank = 0
    · have hbelow : (below && decide (rank ≠ 0)) = false := by simp [hzero]
      rw [if_pos hzero, if_pos hzero, hbelow]
      exact map_surround_withAffixes hp positive negative false _
    · have hbelow : (below && decide (rank ≠ 0)) = below := by simp [hzero]
      rw [if_neg hzero, if_neg hzero, hbelow]
      exact map_surround_withAffixes hp positive negative below _

end

/-- **Quotes carry any text through a pattern.** Around a number part they give the affixes that are
quoted, and nothing else: the other fields are those of the number part alone. A second subpattern
gives the affixes of negative numbers, whatever its number part is. So a number that the number part
formats without its sign is formatted as that between the affixes, and fails where that fails. -/
theorem compile_quote (s t u w : Text) (n n' : NumberSource) :
    ∃ p one two, compile (.ofList n.chars) = .ok p ∧
      compile (quote s ++ .ofList n.chars ++ quote t) = .ok one ∧
      one = { p with positive := ⟨s, t⟩, negative := ⟨"-" ++ s, t⟩ } ∧
      compile (quote s ++ .ofList n.chars ++ quote t ++ ";" ++
        (quote u ++ .ofList n'.chars ++ quote w)) =
        .ok two ∧
      two = { p with positive := ⟨s, t⟩, negative := ⟨u, w⟩ } ∧
      ∀ v : Number, v ≠ .double .nan →
        one.format v = (fun b => if v.isBelowZero then "-" ++ s ++ b ++ t else s ++ b ++ t) <$>
          p.formatAbsolute v ∧
        two.format v = (fun b => if v.isBelowZero then u ++ b ++ w else s ++ b ++ t) <$>
          p.formatAbsolute v := by
  have hbare : compile (.ofList n.chars) = .ok (ofNumber n) := by
    have hquoted := compile_quote_one "" n ""
    rwa [show quote "" = "" from rfl, Text.empty_append, Text.append_empty] at hquoted
  have hpositive : (ofNumber n).positive = ⟨"", ""⟩ := Subpattern.affixes_quoted "" n ""
  refine ⟨ofNumber n, _, _, hbare, compile_quote_one s n t, rfl,
    compile_quote_two s t u w n n', rfl,
    fun v hv => ⟨?_, ?_⟩⟩
  · rw [format_withAffixes hpositive _ _ hv]
    cases v.isBelowZero <;> rfl
  · rw [format_withAffixes hpositive _ _ hv]
    cases v.isBelowZero <;> rfl

/-- Signs of a pattern, quotes among them, as affixes. -/
theorem compile_quote_signs : ∃ one two,
    compile "'5''%'0.0';'" = .ok one ∧ compile "'5''%'0.0';';#''''" = .ok two ∧
    Number.integer (-7) ≠ .double .nan ∧
    one.format (.integer (-7)) = .ok "-5'%7.0;" ∧ two.format (.integer (-7)) = .ok "7.0'" := by
  let n : NumberSource :=
    ⟨some ⟨[], ['0'], ⟨by simp, by simp⟩, ⟨by simp, by simp⟩, by simp, by simp⟩,
    some ⟨1, 0⟩, 0, .inl rfl⟩
  let n' : NumberSource :=
    ⟨some ⟨['#'], [], ⟨by simp, by simp⟩, ⟨by simp, by simp⟩, by simp, by simp⟩,
    none, 0, .inl rfl⟩
  obtain ⟨p, one, two, hp, hone, -, htwo, -, hformat⟩ := compile_quote "5'%" ";" "" "'" n n'
  have hnumber : Number.integer (-7) ≠ .double .nan := by simp
  have hn : Text.ofList n.chars = "0.0" := rfl
  have hbody : compile "0.0" >>= (·.formatAbsolute (.integer (-7))) = .ok "7.0" := rfl
  rw [← hn, hp] at hbody
  have habsolute : p.formatAbsolute (.integer (-7)) = .ok "7.0" := hbody
  obtain ⟨hone', htwo'⟩ := hformat _ hnumber
  rw [habsolute] at hone' htwo'
  exact ⟨one, two, hone, htwo, hnumber, hone', htwo'⟩

end TagTemplate.Pattern
