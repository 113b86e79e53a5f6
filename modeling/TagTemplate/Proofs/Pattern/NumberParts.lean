/-
The number parts of the grammar of patterns are what is read as number parts, and a pattern takes
from them what the grammar says. Each reader takes as much as it can, so a number part is read
where no part of it can go on: `Avoids` tells which characters do not follow.
-/
import TagTemplate.Proofs.Number.ReadBack
import TagTemplate.Proofs.Pattern.Grammar

namespace TagTemplate.Pattern

open Number (takeWhile_run)

/-! ## Number parts of the grammar are read -/

/-- None of these characters stands first. -/
def Avoids (signs rest : List CodePoint) : Prop := ∀ c ∈ rest.head?, c ∉ signs

namespace Avoids

variable {signs rest cs : List CodePoint}

theorem ne (h : Avoids signs rest) {c sign : CodePoint} (hc : c ∈ rest.head?)
    (hsign : sign ∈ signs) :
    c ≠ sign := by
  rintro rfl
  exact h c hc hsign

theorem mono (h : Avoids signs rest) (signs' : List CodePoint) (hsub : signs' ⊆ signs) :
    Avoids signs' rest := fun c hc hmem => h c hc (hsub hmem)

theorem not_cons (h : Avoids signs rest) (sign : CodePoint) (hsign : sign ∈ signs)
    (cs : List CodePoint) :
    rest = sign :: cs → False := by
  rintro rfl
  exact h sign rfl hsign

theorem append (hcs : Avoids signs cs) (h : Avoids signs rest) : Avoids signs (cs ++ rest) := by
  cases cs with
  | nil => exact h
  | cons c cs => exact hcs

end Avoids

/-- A number of equal signs ends where another one follows. -/
theorem span_replicate (k : Nat) {sign : CodePoint} {rest : List CodePoint}
    (h : Avoids [sign] rest) :
    (List.replicate k sign ++ rest).takeWhile (· == sign) = List.replicate k sign ∧
    (List.replicate k sign ++ rest).dropWhile (· == sign) = rest := by
  refine takeWhile_run (fun c hc => ?_) fun c hc => ?_
  · rw [List.eq_of_mem_replicate hc, beq_self_eq_true]
  · rw [beq_eq_false_iff_ne]
    exact h.ne hc (List.mem_singleton_self sign)

namespace IsRun

variable {sign : CodePoint} {cs rest : List CodePoint}

theorem eq_nil_or_cons (h : IsRun sign cs) : cs = [] ∨ ∃ cs', cs = sign :: cs' := by
  cases cs with
  | nil => exact .inl rfl
  | cons c cs => exact .inr ⟨cs, by rw [h.first c rfl]⟩

/-- A run ends where neither its sign nor a comma follows. -/
theorem span (h : IsRun sign cs) (hrest : Avoids [sign, ↑ ','] rest) :
    (cs ++ rest).takeWhile (fun c => c == sign || c == ↑ ',') = cs ∧
    (cs ++ rest).dropWhile (fun c => c == sign || c == ↑ ',') = rest := by
  refine takeWhile_run (fun c hc => ?_) fun c hc => ?_
  · simpa using h.all c hc
  · simpa using hrest c hc

theorem avoids (h : IsRun sign cs) {signs : List CodePoint} (hsign : sign ∉ signs) :
    Avoids signs cs := by
  intro c hc
  rwa [h.first c hc]

end IsRun

/-- An integer part begins with a number sign, or with a zero if there is none. -/
theorem IntegerSource.first (i : IntegerSource) :
    (∃ signs, i.signs = ↑ '#' :: signs) ∨ i.signs = [] ∧ ∃ zeros, i.zeros = ↑ '0' :: zeros := by
  obtain hsigns | hsigns := i.isRun_signs.eq_nil_or_cons
  · obtain hzeros | hzeros := i.isRun_zeros.eq_nil_or_cons
    · exact absurd (by rw [hsigns, hzeros, List.nil_append]) i.nonempty
    · exact .inr ⟨hsigns, hzeros⟩
  · exact .inl hsigns

theorem splitZeros_append {zeros rest : List CodePoint} (h : IsRun '0' zeros)
    (hrest : Avoids ['0', ','] rest) :
    splitInteger.splitZeros (zeros ++ rest) = (zeros, rest) := by
  obtain ⟨htake, hdrop⟩ := h.span hrest
  obtain rfl | ⟨zeros, rfl⟩ := h.eq_nil_or_cons
  · have hzero := hrest.not_cons '0' (by decide)
    simp only [splitInteger.splitZeros, List.nil_append]
  · rw [List.cons_append] at *
    rw [splitInteger.splitZeros, htake, hdrop]

theorem splitInteger_append (i : IntegerSource) {rest : List CodePoint}
    (hrest : Avoids ['#', '0', ','] rest) :
    splitInteger (i.chars ++ rest) = (some i.chars, rest) := by
  have hzeros := splitZeros_append i.isRun_zeros (hrest.mono _ (by simp))
  have hsign : Avoids ['#', ','] (i.zeros ++ rest) :=
    (i.isRun_zeros.avoids (by decide)).append (hrest.mono _ (by simp))
  obtain ⟨htake, hdrop⟩ := i.isRun_signs.span hsign
  rw [IntegerSource.chars, List.append_assoc]
  obtain ⟨signs, hsigns⟩ | ⟨hsigns, zeros, hcons⟩ := i.first
  · rw [hsigns, List.cons_append] at htake hdrop ⊢
    simp only [splitInteger, htake, hdrop, hzeros, List.cons_append]
  · rw [hsigns, List.nil_append, List.nil_append]
    rw [hcons, List.cons_append] at hzeros ⊢
    simp only [splitInteger, hzeros]

theorem splitInteger_none {rest : List CodePoint} (hrest : Avoids ['#', '0', ','] rest) :
    splitInteger rest = (none, rest) := by
  have hsign := hrest.not_cons '#' (by decide)
  have hzero := hrest.not_cons '0' (by decide)
  simp only [splitInteger]

theorem splitFraction_append (f : FractionSource) {rest : List CodePoint}
    (hrest : Avoids ['#', '0'] rest) :
    splitFraction (f.chars ++ rest) = (some (f.zeros, f.signs), rest) := by
  have hsigns : Avoids ['0'] (List.replicate f.signs ('#' : CodePoint) ++ rest) := by
    refine Avoids.append (fun c hc => ?_) (hrest.mono _ (by simp))
    rw [List.eq_of_mem_replicate (List.mem_of_mem_head? hc)]
    decide
  obtain ⟨htake, hdrop⟩ := span_replicate f.zeros hsigns
  obtain ⟨htake', hdrop'⟩ := span_replicate f.signs (hrest.mono ['#'] (by simp))
  simp only [FractionSource.chars, List.cons_append, List.append_assoc, splitFraction, htake, hdrop,
    htake', hdrop', List.length_replicate]

theorem splitFraction_none {rest : List CodePoint} (hrest : Avoids ['.'] rest) :
    splitFraction rest = (none, rest) := by
  have hpoint := hrest.not_cons '.' (by decide)
  simp only [splitFraction]

/-- No number part goes on here: neither with a sign of it nor with an exponent. -/
structure IsApart (rest : List CodePoint) : Prop where
  first : Avoids ['#', '0', ',', '.'] rest
  exponent : ∀ cs, rest ≠ ↑ 'E' :: ↑ '0' :: cs

theorem splitExponent_append (n : NumberSource) {rest : List CodePoint} (h : IsApart rest) :
    splitExponent (n.exponentChars ++ rest) = (n.exponent, rest) := by
  rw [NumberSource.exponentChars]
  split
  · next hnone =>
    have hexponent := h.exponent
    rw [hnone, List.nil_append]
    simp only [splitExponent]
  · next hsome =>
    obtain ⟨k, hk⟩ := Nat.exists_eq_succ_of_ne_zero hsome
    obtain ⟨htake, hdrop⟩ := span_replicate k (h.first.mono ['0'] (by simp))
    simp only [hk, List.replicate_succ, List.cons_append, splitExponent, htake, hdrop,
      List.length_replicate]

namespace NumberSource

/-- What is read of a number part. -/
def part (n : NumberSource) : NumberPart :=
  ⟨n.integer.map IntegerSource.chars, n.fraction.map fun f => (f.zeros, f.signs), n.exponent⟩

variable (n : NumberSource) {rest : List CodePoint}

theorem splitInteger_integerChars (hrest : Avoids ['#', '0', ','] rest) :
    splitInteger (n.integerChars ++ rest) = (n.part.integer, rest) := by
  rw [integerChars, part]
  cases n.integer with
  | none => exact splitInteger_none hrest
  | some i => exact splitInteger_append i hrest

theorem splitFraction_fractionChars (hrest : Avoids ['#', '0', '.'] rest) :
    splitFraction (n.fractionChars ++ rest) = (n.part.fraction, rest) := by
  rw [fractionChars, part]
  cases n.fraction with
  | none => exact splitFraction_none (hrest.mono _ (by simp))
  | some f => exact splitFraction_append f (hrest.mono _ (by simp))

theorem avoids_fractionChars : Avoids ['#', '0', ','] n.fractionChars := by
  rw [fractionChars]
  cases n.fraction with
  | none => rintro c ⟨⟩
  | some f =>
    rintro c ⟨⟩
    decide

theorem avoids_exponentChars : Avoids ['#', '0', ',', '.'] n.exponentChars := by
  rw [exponentChars]
  split
  · rintro c ⟨⟩
  · rintro c ⟨⟩
    decide

/-- A number part begins where an affix ends. -/
theorem exists_chars_eq : ∃ c cs, n.chars = c :: cs ∧ endsAffix c = true := by
  rw [chars, integerChars, fractionChars]
  cases hinteger : n.integer with
  | none =>
    obtain ⟨f, hf⟩ : ∃ f, n.fraction = some f := by
      have hnonempty := n.nonempty
      rw [hinteger] at hnonempty
      exact Option.isSome_iff_exists.1 (hnonempty.resolve_left Bool.false_ne_true)
    rw [hf]
    exact ⟨'.', _, rfl, rfl⟩
  | some i =>
    rw [Option.elim_some, IntegerSource.chars]
    obtain ⟨signs, hsigns⟩ | ⟨hsigns, zeros, hzeros⟩ := i.first
    · rw [hsigns]
      exact ⟨'#', _, rfl, rfl⟩
    · rw [hsigns, hzeros]
      exact ⟨'0', _, rfl, rfl⟩

theorem part_nonempty : ¬(n.part.integer = none ∧ n.part.fraction = none) := by
  rintro ⟨hinteger, hfraction⟩
  rcases n.nonempty with h | h
  · rw [Option.map_eq_none_iff.1 hinteger] at h
    cases h
  · rw [Option.map_eq_none_iff.1 hfraction] at h
    cases h

theorem part_closed : ¬n.part.integer.any (·.getLast? == some ↑ ',') = true := by
  rw [part]
  cases n.integer with
  | none => exact Bool.false_ne_true
  | some i => simpa [IntegerSource.chars] using i.closed

/-- **A number part of the grammar is read** where none goes on. -/
theorem splitNumber_append (h : IsApart rest) :
    splitNumber (n.chars ++ rest) = some (n.part, rest) := by
  have htail := n.avoids_exponentChars.append h.first
  have hinteger :=
    n.splitInteger_integerChars (n.avoids_fractionChars.append (htail.mono _ (by simp)))
  have hfraction := n.splitFraction_fractionChars (htail.mono _ (by simp))
  rw [chars, List.append_assoc, List.append_assoc]
  simp only [splitNumber, hinteger, hfraction, splitExponent_append n h, if_neg n.part_nonempty,
    if_neg n.part_closed]
  rfl

end NumberSource

/-! ## What is read as a number part is one -/

theorem isRun_nil (sign : CodePoint) : IsRun sign [] :=
  ⟨fun _ hc => (List.not_mem_nil hc).elim, fun _ hc => by cases hc⟩

theorem isRun_takeWhile (sign : CodePoint) (cs : List CodePoint) :
    IsRun sign ((sign :: cs).takeWhile fun c => c == sign || c == ↑ ',') := by
  refine ⟨fun c hc => ?_, fun c hc => ?_⟩
  · simpa using List.all_eq_true.1 List.all_takeWhile c hc
  · rw [List.takeWhile_cons_of_pos (by simp)] at hc
    exact (Option.mem_some.1 hc).symm

theorem splitZeros_sound {cs zeros rest : List CodePoint}
    (h : splitInteger.splitZeros cs = (zeros, rest)) : IsRun '0' zeros ∧ cs = zeros ++ rest := by
  unfold splitInteger.splitZeros at h
  split at h
  · cases h
    exact ⟨isRun_takeWhile '0' _, List.takeWhile_append_dropWhile.symm⟩
  · cases h
    exact ⟨isRun_nil '0', rfl⟩

/-- Such a part is one of the grammar if it does not end with a comma. -/
theorem splitInteger_sound {cs integer rest : List CodePoint}
    (h : splitInteger cs = (some integer, rest)) :
    cs = integer ++ rest ∧ ∃ signs zeros, IsRun '#' signs ∧ IsRun '0' zeros ∧ signs ++ zeros ≠ [] ∧
      integer = signs ++ zeros := by
  unfold splitInteger at h
  split at h
  · next cs =>
    cases hsplit : splitInteger.splitZeros ((↑ '#' :: cs).dropWhile fun c =>
      c == '#' || c == ',') with
    | mk zeros rest' =>
    obtain ⟨hzeros, hcs⟩ := splitZeros_sound hsplit
    simp only [hsplit] at h
    cases h
    refine ⟨?_, _, zeros, isRun_takeWhile '#' cs, hzeros, ?_, rfl⟩
    · rw [List.append_assoc, ← hcs, List.takeWhile_append_dropWhile]
    · rw [List.takeWhile_cons_of_pos (by decide), List.cons_append]
      exact List.cons_ne_nil _ _
  · next cs =>
    cases hsplit : splitInteger.splitZeros (↑ '0' :: cs) with
    | mk zeros rest' =>
    obtain ⟨hzeros, hcs⟩ := splitZeros_sound hsplit
    simp only [hsplit] at h
    cases h
    refine ⟨hcs, [], _, isRun_nil '#', hzeros, ?_, rfl⟩
    rintro rfl
    simp [splitInteger.splitZeros] at hsplit
  · cases h

theorem splitInteger_none_sound {cs rest : List CodePoint} (h : splitInteger cs = (none, rest)) :
    cs = rest := by
  unfold splitInteger at h
  split at h <;> cases h
  rfl

theorem takeWhile_eq_replicate (sign : CodePoint) (cs : List CodePoint) :
    cs.takeWhile (· == sign) = List.replicate (cs.takeWhile (· == sign)).length sign :=
  List.eq_replicate_of_mem fun c hc => beq_iff_eq.1 (List.all_eq_true.1 List.all_takeWhile c hc)

theorem splitFraction_sound {cs rest : List CodePoint} {fraction : Option (Nat × Nat)}
    (h : splitFraction cs = (fraction, rest)) :
    ∃ f : Option FractionSource, fraction.isSome = f.isSome ∧
      cs = f.elim [] FractionSource.chars ++ rest := by
  unfold splitFraction at h
  split at h
  · next cs =>
    cases h
    refine ⟨some ⟨(cs.takeWhile (· == ↑ '0')).length,
      ((cs.dropWhile (· == ↑ '0')).takeWhile (· == ↑ '#')).length⟩, rfl, ?_⟩
    rw [Option.elim_some, FractionSource.chars, ← takeWhile_eq_replicate, ← takeWhile_eq_replicate,
      List.cons_append, List.append_assoc, List.takeWhile_append_dropWhile,
      List.takeWhile_append_dropWhile]
  · cases h
    exact ⟨none, rfl, rfl⟩

theorem splitExponent_sound {cs rest : List CodePoint} {exponent : Nat}
    (h : splitExponent cs = (exponent, rest)) :
    cs = (if exponent = 0 then [] else ↑ 'E' :: List.replicate exponent ('0' : CodePoint)) ++
      rest := by
  unfold splitExponent at h
  split at h
  · next cs =>
    cases h
    rw [if_neg (Nat.succ_ne_zero _), List.replicate_succ, ← takeWhile_eq_replicate,
      List.cons_append,
      List.cons_append, List.takeWhile_append_dropWhile]
  · cases h
    rfl

/-- **What is read as a number part is one.** -/
theorem splitNumber_sound {cs rest : List CodePoint} {part : NumberPart}
    (h : splitNumber cs = some (part, rest)) : ∃ n : NumberSource, cs = n.chars ++ rest := by
  cases hinteger : splitInteger cs with | mk integer cs₁ =>
  cases hfraction : splitFraction cs₁ with | mk fraction cs₂ =>
  cases hexponent : splitExponent cs₂ with | mk exponent cs₃ =>
  obtain ⟨f, hsome, hcs₁⟩ := splitFraction_sound hfraction
  have hcs₂ := splitExponent_sound hexponent
  simp only [splitNumber, hinteger, hfraction, hexponent] at h
  split at h
  · cases h
  split at h
  · cases h
  next hnonempty hclosed =>
  cases h
  cases integer with
  | none =>
    have hpresent : f.isSome := by
      rw [← hsome, Option.isSome_iff_ne_none]
      exact fun hnone => hnonempty ⟨rfl, hnone⟩
    refine ⟨⟨none, f, exponent, .inr hpresent⟩, ?_⟩
    rw [splitInteger_none_sound hinteger, hcs₁, hcs₂]
    simp [NumberSource.chars, NumberSource.integerChars, NumberSource.fractionChars,
      NumberSource.exponentChars]
  | some i =>
    obtain ⟨hcs, signs, zeros, hsigns, hzeros, hne, rfl⟩ := splitInteger_sound hinteger
    refine ⟨⟨some ⟨signs, zeros, hsigns, hzeros, hne, ?_⟩, f, exponent, .inl rfl⟩, ?_⟩
    · simpa using hclosed
    · rw [hcs, hcs₁, hcs₂]
      simp [NumberSource.chars, NumberSource.integerChars, NumberSource.fractionChars,
        NumberSource.exponentChars, IntegerSource.chars]

/-! ## What a pattern takes from its number part -/

namespace NumberSource

variable (n : NumberSource)

theorem getD_integer_part : n.part.integer.getD [] = n.integerChars := by
  rw [part, integerChars]
  cases n.integer <;> rfl

theorem integerZeros_part : n.part.integerZeros = n.integerChars.count ↑ '0' := by
  rw [NumberPart.integerZeros, getD_integer_part]

theorem fractionZeros_part : n.part.fractionZeros = n.fractionChars.count ↑ '0' := by
  rw [NumberPart.fractionZeros, part, fractionChars]
  cases n.fraction with
  | none => rfl
  | some f => simp [FractionSource.chars, List.count_replicate]

theorem fractionDigits_part : n.part.fractionDigits = n.fractionChars.length - 1 := by
  rw [NumberPart.fractionDigits, part, fractionChars]
  cases n.fraction with
  | none => rfl
  | some f => simp [FractionSource.chars]

theorem length_exponentChars : n.exponentChars.length - 1 = n.exponent := by
  rw [exponentChars]
  split <;> simp_all

theorem lacksZeros_part : n.part.lacksZeros = true ↔ n.LacksZeros := by
  rw [NumberPart.lacksZeros, integerZeros_part, fractionZeros_part, LacksZeros]
  simp [part, List.count_eq_zero, and_assoc]

theorem grouping_part : n.part.grouping =
    if ↑ ',' ∈ n.integerChars then
      (n.integerChars.reverse.takeWhile (· != ↑ ',')).length else 0 := by
  simp only [NumberPart.grouping, getD_integer_part]

theorem grouping_part_of_eq {before after : List CodePoint}
    (h : n.integerChars = before ++ ↑ ',' :: after)
    (hafter : ↑ ',' ∉ after) : n.part.grouping = after.length := by
  have hreverse : n.integerChars.reverse = after.reverse ++ ↑ ',' :: before.reverse := by simp [h]
  have hrun :
      (after.reverse ++ ↑ ',' :: before.reverse).takeWhile (· != ↑ ',') = after.reverse := by
    refine (takeWhile_run (fun c hc => ?_) fun c hc => ?_).1
    · rw [bne_iff_ne]
      rintro rfl
      exact hafter (List.mem_reverse.1 hc)
    · rw [← Option.mem_some.1 hc]
      rfl
  rw [grouping_part, if_pos (by simp [h]), hreverse, hrun, List.length_reverse]

/-- **A pattern takes what it does from the characters** of the number part. -/
theorem gives {first : Subpattern} (h : first.number = n.part) (second : Option Subpattern) :
    n.Gives (ofSubpatterns first second) where
  minInteger := by
    simp only [ofSubpatterns, h, NumberPart.minInteger, n.lacksZeros_part, n.integerZeros_part]
    simp [part]
  minFraction := by
    simp only [ofSubpatterns, h, NumberPart.minFraction, n.lacksZeros_part, n.fractionZeros_part]
    simp [part]
  maxFraction := by
    simp only [ofSubpatterns, h, n.fractionDigits_part]
  minExponent := by
    rw [n.length_exponentChars]
    simp only [ofSubpatterns, h, part]
  ungrouped hcomma := by
    simp only [ofSubpatterns, h, n.grouping_part, if_neg hcomma]
  grouping before after heq hafter := by
    simp only [ofSubpatterns, h, n.grouping_part_of_eq heq hafter]

end NumberSource

end TagTemplate.Pattern
