/-
What holds of every pattern that a text is compiled to, whatever numbers are formatted by it:
the bounds on the digits after the point do not exclude each other, and the multiplier is that
of a percent or a per mille sign, or one.
-/
import TagTemplate.Pattern.Reader

namespace TagTemplate.Pattern

/-- What the signs in an affix multiply by. -/
def Affix.HasSign (a : Affix) : Prop := ∀ m ∈ a.multiplier, m = 100 ∨ m = 1000

namespace Affix

theorem HasSign.cons {a : Affix} (h : a.HasSign) (c : CodePoint) : (a.cons c).HasSign := h

theorem HasSign.consSign {a : Affix} (h : a.HasSign) (c : CodePoint) {m : Nat}
    (hm : m = 100 ∨ m = 1000) : (a.consSign c m).HasSign := by
  rintro _ ⟨⟩
  cases hsign : a.multiplier with
  | none => exact hm
  | some m' => exact h m' hsign

end Affix

/-- Whatever a reader of affixes answers with has this property. -/
def Ensures (r : Option (Affix × List CodePoint)) (P : Affix → List CodePoint → Prop) : Prop :=
  ∀ a rest, r = some (a, rest) → P a rest

theorem Ensures.map {r : Option (Affix × List CodePoint)} {P Q : Affix → List CodePoint → Prop}
    (h : Ensures r P) {f : Affix → Affix} (hPQ : ∀ a rest, P a rest → Q (f a) rest) :
    Ensures (r.map fun (a, rest) => (f a, rest)) Q := by
  intro a rest heq
  obtain ⟨⟨a₀, rest₀⟩, hr, ha⟩ := Option.map_eq_some_iff.1 heq
  rw [← (Prod.mk.inj ha).1, ← (Prod.mk.inj ha).2]
  exact hPQ a₀ rest₀ (h a₀ rest₀ hr)

/-- All affixes that a reader may answer with have signs like these. -/
def HasSigns (r : Option (Affix × List CodePoint)) : Prop :=
  ∀ a rest, r = some (a, rest) → a.HasSign

theorem HasSigns.map {r : Option (Affix × List CodePoint)} (h : HasSigns r) {f : Affix → Affix}
    (hf : ∀ a : Affix, a.HasSign → (f a).HasSign) :
    HasSigns (r.map fun (a, rest) => (f a, rest)) := Ensures.map h fun a _ => hf a

/-- Of three readers in a row, each has read its part. -/
theorem splitSubpattern_eq_some {cs rest : List CodePoint} {s : Subpattern}
    (h : splitSubpattern cs = some (s, rest)) :
    ∃ rest₁ rest₂, splitAffix cs = some (s.before, rest₁) ∧
      splitNumber rest₁ = some (s.number, rest₂) ∧ splitAffix rest₂ = some (s.after, rest) := by
  obtain ⟨⟨before, rest₁⟩, hbefore, h⟩ := Option.bind_eq_some_iff.1 h
  obtain ⟨⟨number, rest₂⟩, hnumber, h⟩ := Option.bind_eq_some_iff.1 h
  obtain ⟨⟨after, rest₃⟩, hafter, h⟩ := Option.bind_eq_some_iff.1 h
  cases h
  exact ⟨rest₁, rest₂, hbefore, hnumber, hafter⟩

/-- What every compiled pattern has. -/
structure WellFormed (p : Pattern) : Prop where
  fraction : p.minFraction ≤ p.maxFraction
  multiplier : p.multiplier ∈ [1, 100, 1000]

theorem wellFormed_plain : plain.WellFormed := ⟨by decide, by decide⟩

theorem WellFormed.multiplier_pos {p : Pattern} (h : p.WellFormed) : 0 < p.multiplier := by
  have := h.multiplier
  simp only [List.mem_cons, List.not_mem_nil, or_false] at this
  omega

theorem WellFormed.multiplier_le {p : Pattern} (h : p.WellFormed) : p.multiplier ≤ 1000 := by
  have := h.multiplier
  simp only [List.mem_cons, List.not_mem_nil, or_false] at this
  omega

end TagTemplate.Pattern
