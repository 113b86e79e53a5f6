/-
What one tag does to a nest. `Nest.Takes` lists all that it can do, told by the name and
the lexemes of the tag alone: its position only shows in messages. `Tag.IsSound` is what a
tag needs to be wherever it stands, and `Tag.IsSound.exists_takes` says that nothing else
is asked of it but that an end tag has a loop to end.
-/
import Mathlib.Data.List.Forall2
import TagTemplate.Node.Parser
import TagTemplate.Proofs.Steps

namespace TagTemplate

/-! ## Lists of steps without a state -/

theorem mapM_eq_ok_iff {ε α β : Type} {f : α → Except ε β} {l : List α} {r : List β} :
    l.mapM f = .ok r ↔ List.Forall₂ (fun a b => f a = .ok b) l r := by
  induction l generalizing r with
  | nil => simp [pure, Except.pure, eq_comm]
  | cons a l ih =>
    rw [List.mapM_cons, except_bind_eq_ok, List.forall₂_cons_left_iff]
    refine exists_congr fun b => ?_
    simp only [except_bind_eq_ok, ih, pure, Except.pure, Except.ok.injEq, eq_comm (a := r)]
    tauto

theorem mapM_eq_error {ε α β : Type} {f : α → Except ε β} {l : List α} {err : ε}
    (h : l.mapM f = .error err) : ∃ a ∈ l, f a = .error err := by
  induction l with
  | nil => cases h
  | cons a l ih =>
    rw [List.mapM_cons] at h
    cases ha : f a with
    | error e =>
      rw [ha] at h
      cases h
      exact ⟨a, by simp, ha⟩
    | ok b =>
      rw [ha] at h
      cases hl : l.mapM f with
      | error e =>
        simp only [hl, bind, Except.bind] at h
        cases h
        obtain ⟨c, hc, hf⟩ := ih hl
        exact ⟨c, by simp [hc], hf⟩
      | ok bs =>
        simp only [hl, bind, Except.bind] at h
        cases h

theorem exists_mapM_iff {ε α β : Type} {f : α → Except ε β} {l : List α} :
    (∃ r, l.mapM f = .ok r) ↔ ∀ a ∈ l, ∃ b, f a = .ok b := by
  induction l with
  | nil => simp [pure, Except.pure]
  | cons a l ih =>
    rw [List.forall_mem_cons, ← ih]
    simp only [List.mapM_cons, except_bind_eq_ok, pure, Except.pure, Except.ok.injEq]
    constructor
    · rintro ⟨_, b, hb, bs, hbs, -⟩
      exact ⟨⟨b, hb⟩, bs, hbs⟩
    · rintro ⟨⟨b, hb⟩, bs, hbs⟩
      exact ⟨b :: bs, b, hb, bs, hbs, rfl⟩

/-! ## Lexemes -/

/-- A bare lexeme that is an optional sign and more digits than are ever read. -/
def Lexeme.IsOverlong (l : Lexeme) : Prop :=
  l.quoted = false ∧ ∃ sign ∈ ([[], ['+'], ['-']] : List (List CodePoint)), ∃ ds : List CodePoint,
    l.text.toList = sign ++ ds ∧ (∀ d ∈ ds, d.isDigit = true) ∧ 4300 < ds.length

theorem Number.exists_sign (cs : List Char) :
    ∃ sign ∈ [[], ['+'], ['-']], cs = sign ++ (splitSign cs).2 := by
  unfold splitSign
  split
  · exact ⟨['-'], by simp, rfl⟩
  · exact ⟨['+'], by simp, rfl⟩
  · exact ⟨[], by simp, rfl⟩

/-- A numeral is refused only if it is an integer that is too long. -/
theorem Number.readInt64?_eq_error {s : String} {f : Fault} (h : readInt64? s = .error f) :
    (∀ d ∈ (splitSign s.toList).2, d.isDigit = true) ∧ 4300 < (splitSign s.toList).2.length := by
  unfold readInt64? readInteger? at h
  simp only at h
  split at h
  · cases h
  next hdigits =>
  split at h
  · next hlong =>
    simp only [Bool.or_eq_true, not_or, Bool.not_eq_true'] at hdigits
    exact ⟨by simpa using hdigits.2, hlong⟩
  · cases h

theorem Lexeme.isOverlong_of_ofNumeral? {l : Lexeme} (hbare : l.quoted = false) {f : Fault}
    (h : Token.ofNumeral? l.text = .error f) : l.IsOverlong := by
  cases hcharacters : l.text.string? with
  | none =>
    rw [Token.ofNumeral?, hcharacters] at h
    cases h
  | some characters =>
    simp only [Token.ofNumeral?, hcharacters] at h
    cases hint : Number.readInt64? characters with
    | ok n? =>
      rw [hint] at h
      cases n? <;> cases h
    | error fault =>
      obtain ⟨hdigits, hlong⟩ := Number.readInt64?_eq_error hint
      obtain ⟨sign, hsign, hlist⟩ := Number.exists_sign characters.toList
      refine ⟨hbare, sign.map .scalar, List.mem_map_of_mem (f := List.map CodePoint.scalar) hsign,
        (Number.splitSign characters.toList).2.map .scalar, ?_, ?_, by rwa [List.length_map]⟩
      · rw [Text.string?_eq_some_iff.1 hcharacters, Text.toList_ofString, ← List.map_append,
          ← hlist]
      · exact List.forall_mem_map.2 hdigits

/-- Besides words that are no tokens, only integers that are too long are refused. -/
theorem Token.ofLexeme_eq_error {l : Lexeme} {f : Fault} (h : ofLexeme l = .error f) :
    (∃ cause, f = .malformed cause) ∨ l.IsOverlong := by
  unfold ofLexeme at h
  split at h
  · cases h
  next hbare =>
  unfold ofWord at h
  split at h
  · cases h
  split at h
  · simp only at h
    split at h <;> cases h
    exact .inl ⟨_, rfl⟩
  split at h
  · cases h
  cases hnumeral : ofNumeral? l.text with
  | error fault => exact .inr (Lexeme.isOverlong_of_ofNumeral? (by simpa using hbare) hnumeral)
  | ok token? =>
    rw [hnumeral] at h
    cases token? <;> cases h
    exact .inl ⟨_, rfl⟩

/-! ## Loop headers -/

theorem Loop.length_tokens (l : Loop) : l.tokens.length = 3 ∨ l.tokens.length = 4 := by
  cases hstep : l.step <;> simp [Loop.tokens, hstep]

/-- A loop header is read exactly where the lexemes of the tag are its tokens. -/
theorem Tag.loopHeader_eq_ok_iff {tag : Tag} {header : Loop} :
    tag.loopHeader = .ok header ↔ tag.lexemes.mapM Token.ofLexeme = .ok header.tokens := by
  unfold loopHeader
  constructor
  · intro h
    split at h
    · cases h
    next hcount =>
    obtain ⟨tokens, htokens, h⟩ := except_bind_eq_ok.1 h
    have hlength := (mapM_eq_ok_iff.1 htokens).length_eq
    rw [htokens]
    split at h <;> cases h
    next name start stop step =>
    have hstep : step.length ≤ 1 := by
      simp only [List.length_cons] at hlength
      omega
    have hlist : step.head?.toList = step := by
      match step, hstep with
      | [], _ => rfl
      | [_], _ => rfl
    simp [Loop.tokens, hlist]
  · intro h
    have hlength := (mapM_eq_ok_iff.1 h).length_eq
    have hcount := header.length_tokens
    rw [if_neg (by omega), h]
    cases hstep : header.step <;>
      simp [Loop.tokens, hstep, bind, Except.bind, pure, Except.pure] <;>
      rw [← hstep]

theorem Tag.loopHeader_eq_error {tag : Tag} {f : Fault} (h : tag.loopHeader = .error f) :
    (∃ cause, f = .malformed cause) ∨ ∃ l ∈ tag.lexemes, Token.ofLexeme l = .error f := by
  unfold loopHeader at h
  split at h
  · cases h
    exact .inl ⟨_, rfl⟩
  · cases htokens : tag.lexemes.mapM Token.ofLexeme with
    | error err =>
      rw [htokens] at h
      cases h
      exact .inr (mapM_eq_error htokens)
    | ok tokens =>
      simp only [htokens, bind, Except.bind] at h
      split at h <;> cases h
      exact .inl ⟨_, rfl⟩

/-! ## Tags -/

/-- All that a tag can do to a nest: add an echo, open a loop, or close one. -/
inductive Nest.Takes (n : Nest) (tag : Tag) : Nest → Prop
  | echo {tokens : List Token} : tag.name = "=" → tag.lexemes.mapM Token.ofLexeme = .ok tokens →
      Takes n tag (n.add (.echo tokens))
  | opening {header : Loop} : tag.name = "for" →
      tag.lexemes.mapM Token.ofLexeme = .ok header.tokens → Takes n tag (n.enter header)
  | closing {n' : Nest} : tag.name = "end" → tag.lexemes = [] → n.leave? = some n' → Takes n tag n'

namespace Nest

variable {n n' : Nest} {tag : Tag}

theorem addTag_eq_ok_iff : n.addTag tag = .ok n' ↔ n.Takes tag n' := by
  constructor
  · intro h
    unfold addTag at h
    split at h
    · next hname =>
      obtain ⟨tokens, htokens, h⟩ := except_bind_eq_ok.1 h
      cases h
      exact .echo hname htokens
    split at h
    · next hname =>
      obtain ⟨header, hheader, h⟩ := except_bind_eq_ok.1 h
      cases h
      exact .opening hname (Tag.loopHeader_eq_ok_iff.1 hheader)
    split at h
    · next hname =>
      split at h
      · cases h
      next hbare =>
      split at h <;> cases h
      next hleave => exact .closing hname (by simpa using hbare) hleave
    · cases h
  · intro h
    unfold addTag
    cases h with
    | echo hname htokens => simp [hname, htokens, bind, Except.bind, pure, Except.pure]
    | opening hname hheader =>
      simp [hname, Tag.loopHeader_eq_ok_iff.2 hheader, bind, Except.bind, pure, Except.pure]
    | closing hname hbare hleave => simp [hname, hbare, hleave]

theorem addTag_eq_error {f : Fault} (h : n.addTag tag = .error f) :
    (∃ cause, f = .malformed cause) ∨ ∃ l ∈ tag.lexemes, Token.ofLexeme l = .error f := by
  unfold addTag at h
  split at h
  · cases htokens : tag.lexemes.mapM Token.ofLexeme with
    | error err =>
      rw [htokens] at h
      cases h
      exact .inr (mapM_eq_error htokens)
    | ok tokens =>
      rw [htokens] at h
      cases h
  split at h
  · cases hheader : tag.loopHeader with
    | error err =>
      rw [hheader] at h
      cases h
      exact Tag.loopHeader_eq_error hheader
    | ok header =>
      rw [hheader] at h
      cases h
  split at h
  · split at h
    · cases h
      exact .inl ⟨_, rfl⟩
    split at h <;> cases h
    exact .inl ⟨_, rfl⟩
  · cases h
    exact .inl ⟨_, rfl⟩

theorem leave?_eq_none_iff : n.leave? = none ↔ n.outer = [] := by
  unfold leave?
  split <;> simp [*]

end Nest

/-- What a tag has to be, wherever it stands. -/
structure Tag.IsSound (tag : Tag) : Prop where
  /-- It is an echo, a `for` tag or an end tag. -/
  known : tag.name = "=" ∨ tag.name = "for" ∨ tag.name = "end"
  /-- The lexemes of an echo or a `for` tag are tokens. -/
  classified : tag.name = "=" ∨ tag.name = "for" → ∀ l ∈ tag.lexemes, ∃ t, Token.ofLexeme l = .ok t
  /-- A `for` tag has three or four lexemes. -/
  counted : tag.name = "for" → tag.lexemes.length = 3 ∨ tag.lexemes.length = 4
  /-- The first lexeme of a `for` tag is a variable. -/
  variable_first : tag.name = "for" →
    ∀ l ∈ tag.lexemes.head?, ∃ name, Token.ofLexeme l = .ok (.loopVariable name)
  /-- An end tag has no lexemes. -/
  bare : tag.name = "end" → tag.lexemes = []

namespace Nest

variable {n n' : Nest} {tag : Tag}

theorem Takes.isSound (h : n.Takes tag n') : tag.IsSound := by
  cases h with
  | echo hname htokens =>
    refine ⟨.inl hname, fun _ => exists_mapM_iff.1 ⟨_, htokens⟩, ?_, ?_, ?_⟩ <;> simp [hname]
  | @opening header hname htokens =>
    have hread := mapM_eq_ok_iff.1 htokens
    refine ⟨.inr (.inl hname), fun _ => exists_mapM_iff.1 ⟨_, htokens⟩, ?_, ?_, ?_⟩
    · intro _
      rw [hread.length_eq]
      exact header.length_tokens
    · intro _ l hl
      cases hlexemes : tag.lexemes with
      | nil => simp [hlexemes] at hl
      | cons first rest =>
        rw [hlexemes] at hl hread
        cases hl
        cases hread with
        | cons hfirst _ => exact ⟨header.name, hfirst⟩
    · simp [hname]
  | closing hname hbare _ =>
    refine ⟨.inr (.inr hname), ?_, ?_, ?_, fun _ => hbare⟩ <;> simp [hname]

/-- A sound tag takes effect, but for an end tag where no loop is open. -/
theorem exists_takes (h : tag.IsSound) (hopen : tag.name = "end" → n.outer ≠ []) :
    ∃ n', n.Takes tag n' := by
  rcases h.known with hname | hname | hname
  · obtain ⟨tokens, htokens⟩ := exists_mapM_iff.2 (h.classified (.inl hname))
    exact ⟨_, .echo hname htokens⟩
  · obtain ⟨tokens, htokens⟩ := exists_mapM_iff.2 (h.classified (.inr hname))
    obtain ⟨header, rfl⟩ : ∃ header : Loop, tokens = header.tokens := by
      have hread := mapM_eq_ok_iff.1 htokens
      have hcount := h.counted hname
      have hfirst := h.variable_first hname
      cases hlexemes : tag.lexemes with
      | nil => simp [hlexemes] at hcount
      | cons first rest =>
        rw [hlexemes] at hread hcount hfirst
        cases hread with
        | @cons _ t _ ts ht hrest =>
          obtain ⟨name, hname⟩ := hfirst first rfl
          rw [ht] at hname
          cases hname
          simp only [List.length_cons, hrest.length_eq] at hcount
          match ts, hcount with
          | [start, stop], _ => exact ⟨⟨name, start, stop, none⟩, rfl⟩
          | [start, stop, step], _ => exact ⟨⟨name, start, stop, some step⟩, rfl⟩
    exact ⟨_, .opening hname htokens⟩
  · obtain ⟨n', hleave⟩ := Option.ne_none_iff_exists'.1 (mt leave?_eq_none_iff.1 (hopen hname))
    exact ⟨n', .closing hname (h.bare hname) hleave⟩

/-- An end tag where no loop is open. -/
theorem addTag_unmatched (h : tag.IsSound) (hname : tag.name = "end") (hopen : n.outer = []) :
    n.addTag tag = .error (.malformed (.endUnmatched tag.pos)) := by
  simp [addTag, hname, h.bare hname, leave?_eq_none_iff.2 hopen]

end Nest

end TagTemplate
