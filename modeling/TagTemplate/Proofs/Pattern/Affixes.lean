/-
The affixes of the grammar of patterns are what is read as affixes. In one direction an affix is
read whatever ends it; in the other direction what has been read is an affix of the grammar.

Quoted runs side by side are read as one, with a quote where they meet. So an affix may be taken
apart in several ways, but its signs are the same in all of them.
-/
import Mathlib.Tactic.Tauto
import TagTemplate.Proofs.Pattern.Compiled
import TagTemplate.Proofs.Pattern.Grammar

namespace TagTemplate.Pattern

/-! ## Affixes of the grammar are read -/

/-- Nothing of an affix stands first. -/
def AtAffixEnd (rest : List CodePoint) : Prop := ∀ c ∈ rest.head?, endsAffix c = true

/-- A reader of affixes answers with an affix of this multiplier and leaves this rest. -/
def Answers (r : Option (Affix × List CodePoint)) (multiplier : Option Nat)
    (rest : List CodePoint) : Prop :=
  ∃ a : Affix, r = some (a, rest) ∧ a.multiplier = multiplier

theorem Answers.map {r : Option (Affix × List CodePoint)} {m : Option Nat} {rest : List CodePoint}
    (h : Answers r m rest) {f : Affix → Affix} (m' : Option Nat → Option Nat)
    (hf : ∀ a : Affix, (f a).multiplier = m' a.multiplier) :
    Answers (r.map fun (a, rest) => (f a, rest)) (m' m) rest := by
  obtain ⟨a, rfl, rfl⟩ := h
  exact ⟨f a, rfl, hf a⟩

theorem isLiteral_iff {c : CodePoint} :
    IsLiteral c ↔ endsAffix c = false ∧ c ≠ '\'' ∧ c ≠ '%' ∧ c ≠ '‰' := by
  simp only [IsLiteral, endsAffix, List.mem_cons, List.not_mem_nil, or_false, not_or,
    Bool.or_eq_false_iff, beq_eq_false_iff_ne]
  tauto

theorem splitAffix_of_atAffixEnd {rest : List CodePoint} (h : AtAffixEnd rest) :
    splitAffix rest = some (.empty, rest) := by
  cases rest with
  | nil => rw [splitAffix]
  | cons c cs =>
    have hends : endsAffix c = true := h c rfl
    have hquote : c = '\'' → False := by rintro rfl; cases hends
    have hpercent : c = '%' → False := by rintro rfl; cases hends
    have hperMille : c = '‰' → False := by rintro rfl; cases hends
    simp only [splitAffix, hends, if_true]

theorem splitAffix_plain {c : CodePoint} (h : IsLiteral c) (cs : List CodePoint) :
    splitAffix (c :: cs) = (splitAffix cs).map fun (a, rest) => (a.cons c, rest) := by
  obtain ⟨hends, hquote, hpercent, hperMille⟩ := isLiteral_iff.1 h
  simp only [splitAffix, hends, Bool.false_eq_true, if_false]

theorem splitQuoted_close (atStart : Bool) {cs : List CodePoint} (h : ∀ c ∈ cs.head?, c ≠ '\'') :
    splitQuoted atStart (↑ '\'' :: cs) =
      (splitAffix cs).map fun (a, rest) => (if atStart then a.cons '\'' else a, rest) := by
  have hsingle : ∀ cs', cs = ↑ '\'' :: cs' → False := by
    rintro cs' rfl
    exact h '\'' rfl rfl
  simp only [splitQuoted]

/-- Where no quote follows, a run that is closed leaves the rest to the affix. -/
theorem Answers.unquoted {cs rest : List CodePoint} {m : Option Nat}
    (h : Answers (splitAffix cs) m rest)
    (hquote : ∀ c ∈ cs.head?, c ≠ '\'') :
    Answers (splitAffix cs) m rest ∧
    ∀ atStart, Answers (splitQuoted atStart (↑ '\'' :: cs)) m rest := by
  refine ⟨h, fun atStart => ?_⟩
  rw [splitQuoted_close atStart hquote]
  refine h.map (f := fun a => if atStart then a.cons '\'' else a) id fun a => ?_
  split <;> rfl

theorem splitQuoted_plain (atStart : Bool) {c : CodePoint} (h : c ≠ '\'') (cs : List CodePoint) :
    splitQuoted atStart (c :: cs) =
      (splitQuoted false cs).map fun (a, rest) => (a.cons c, rest) := by
  have hquote : c = '\'' → False := h
  have hdouble : ∀ cs', c = '\'' → cs = ↑ '\'' :: cs' → False := fun _ hc _ => h hc
  simp only [splitQuoted]

/-- A character inside of a quoted run is read as it was written. -/
theorem splitQuoted_doubled_cons (atStart : Bool) (c : CodePoint) (content rest : List CodePoint) :
    splitQuoted atStart (doubled (c :: content) ++ rest) =
      (splitQuoted false (doubled content ++ rest)).map fun (a, rest) => (a.cons c, rest) := by
  rw [doubled, List.flatMap_cons, ← doubled, List.append_assoc]
  by_cases hc : c = '\''
  · rw [if_pos hc, hc, List.cons_append, List.cons_append, List.nil_append, splitQuoted]
  · rw [if_neg hc, List.singleton_append, splitQuoted_plain atStart hc]

/-- Inside of a quoted run its content is read. -/
theorem splitQuoted_doubled {cs rest : List CodePoint} {m : Option Nat}
    (hclose : ∀ atStart, Answers (splitQuoted atStart (↑ '\'' :: cs)) m rest)
    (content : List CodePoint) :
    ∀ atStart, Answers (splitQuoted atStart (doubled content ++ ↑ '\'' :: cs)) m rest := by
  induction content with
  | nil => exact hclose
  | cons c content ih =>
    intro atStart
    rw [splitQuoted_doubled_cons]
    exact (ih false).map id fun _ => rfl

/-- **An affix of the grammar is read** up to where it ends, and so is what follows a quoted run
that is still open, which goes on if the next piece is quoted. -/
theorem splitAffix_append {rest : List CodePoint} (h : AtAffixEnd rest) (pieces : AffixSource) :
    Answers (splitAffix (pieces.chars ++ rest)) pieces.multiplier? rest ∧
    ∀ atStart,
      Answers (splitQuoted atStart (↑ '\'' :: (pieces.chars ++ rest))) pieces.multiplier? rest := by
  induction pieces with
  | nil =>
    refine Answers.unquoted ⟨.empty, splitAffix_of_atAffixEnd h, rfl⟩ ?_
    rintro _ hc rfl
    cases h _ hc
  | cons piece pieces ih =>
    rw [AffixSource.chars, List.flatMap_cons, ← AffixSource.chars, List.append_assoc]
    cases piece with
    | plain c allowed =>
      refine Answers.unquoted ?_ ?_
      · rw [AffixPiece.chars, List.singleton_append, splitAffix_plain allowed]
        exact ih.1.map (f := fun a => a.cons c) id fun _ => rfl
      · rintro _ ⟨⟩
        exact (isLiteral_iff.1 allowed).2.1
    | percent =>
      refine Answers.unquoted ?_ (by simp [AffixPiece.chars])
      rw [AffixPiece.chars, List.singleton_append, splitAffix, AffixSource.multiplier?_percent]
      exact ih.1.map (f := fun a => a.consSign '%' 100) (fun m => some (m.getD 100)) fun _ => rfl
    | perMille =>
      refine Answers.unquoted ?_ (by simp [AffixPiece.chars])
      rw [AffixPiece.chars, List.singleton_append, splitAffix, AffixSource.multiplier?_perMille]
      exact ih.1.map (f := fun a => a.consSign '‰' 1000) (fun m => some (m.getD 1000)) fun _ => rfl
    | quoted content =>
      simp only [AffixPiece.chars, List.cons_append, List.append_assoc, List.nil_append]
      refine ⟨?_, fun atStart => ?_⟩
      · rw [splitAffix]
        exact splitQuoted_doubled ih.2 content true
      · rw [splitQuoted]
        exact (splitQuoted_doubled ih.2 content false).map (f := fun a => a.cons '\'') id fun _ =>
          rfl

/-! ## What is read as an affix is one -/

/-- These characters are an affix with the rest behind it. -/
def IsAffixBefore (cs rest : List CodePoint) : Prop :=
  ∃ pieces : AffixSource, cs = pieces.chars ++ rest

theorem IsAffixBefore.cons {cs rest : List CodePoint} (piece : AffixPiece)
    (h : IsAffixBefore cs rest) :
    IsAffixBefore (piece.chars ++ cs) rest := by
  obtain ⟨pieces, rfl⟩ := h
  exact ⟨piece :: pieces, by simp [AffixSource.chars]⟩

/-- These characters are the end of a quoted run, and then an affix with the rest behind it. -/
def IsQuotedBefore (cs rest : List CodePoint) : Prop :=
  ∃ content cs', cs = doubled content ++ ↑ '\'' :: cs' ∧ IsAffixBefore cs' rest

theorem IsQuotedBefore.cons {cs rest : List CodePoint} (c : CodePoint)
    (h : IsQuotedBefore cs rest) :
    IsQuotedBefore (doubled [c] ++ cs) rest := by
  obtain ⟨content, cs', rfl, haffix⟩ := h
  exact ⟨c :: content, cs', by simp [doubled], haffix⟩

/-- **What is read as an affix is one.** -/
theorem ensures_split :
    (∀ cs, Ensures (splitAffix cs) fun _ => IsAffixBefore cs) ∧
    ∀ atStart cs, Ensures (splitQuoted atStart cs) fun _ => IsQuotedBefore cs := by
  refine splitAffix.mutual_induct _ _ ?nil ?quote ?percent ?perMille ?stop ?plain ?unclosed ?doubled
    ?closed ?quoted
  case nil =>
    rw [splitAffix]
    rintro _ _ ⟨⟩
    exact ⟨[], rfl⟩
  case quote =>
    intro cs ih
    rw [splitAffix]
    intro a rest h
    obtain ⟨content, cs', rfl, haffix⟩ := ih a rest h
    have := haffix.cons (.quoted content)
    simpa [AffixPiece.chars] using this
  case percent =>
    intro cs ih
    rw [splitAffix]
    exact ih.map fun _ rest h => h.cons .percent
  case perMille =>
    intro cs ih
    rw [splitAffix]
    exact ih.map fun _ rest h => h.cons .perMille
  case stop =>
    intro c cs hquote hpercent hperMille hends
    simp only [splitAffix, hends]
    rintro _ _ ⟨⟩
    exact ⟨[], rfl⟩
  case plain =>
    intro c cs hquote hpercent hperMille hends ih
    simp only [splitAffix, hends]
    have hliteral : IsLiteral c :=
      isLiteral_iff.2 ⟨Bool.eq_false_iff.2 hends, hquote, hpercent, hperMille⟩
    exact ih.map fun _ rest h => h.cons (.plain c hliteral)
  case unclosed =>
    intro atStart
    rw [splitQuoted]
    rintro _ _ ⟨⟩
  case doubled =>
    intro atStart cs ih
    rw [splitQuoted]
    exact ih.map fun _ rest h => h.cons '\''
  case closed =>
    intro atStart cs hsingle ih
    simp only [splitQuoted]
    exact ih.map (f := fun a => if atStart then a.cons '\'' else a) fun _ rest h => ⟨[], cs, rfl, h⟩
  case quoted =>
    intro atStart c cs hdouble hquote ih
    simp only [splitQuoted]
    have hwritten : doubled [c] ++ cs = c :: cs := by
      rw [doubled, List.flatMap_singleton, if_neg hquote, List.singleton_append]
    rw [← hwritten]
    exact ih.map fun _ rest h => h.cons c

end TagTemplate.Pattern
