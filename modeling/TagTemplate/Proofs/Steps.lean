/-
Steps that may fail, and that change a state or not, one after another: what two steps in a
row come to, told by what the first one comes to.
-/

namespace TagTemplate

variable {ε σ α β : Type} {x : EStateM ε σ α} {f : α → EStateM ε σ β} {s s' : σ} {err : ε}

theorem bind_of_ok {a : α} (h : x s = .ok a s') : (x >>= f) s = f a s' := by
  simp only [Bind.bind, EStateM.bind, h]

theorem bind_of_error (h : x s = .error err s') : (x >>= f) s = .error err s' := by
  simp only [Bind.bind, EStateM.bind, h]

theorem bind_eq_error (h : (x >>= f) s = .error err s') :
    x s = .error err s' ∨ ∃ a s₁, x s = .ok a s₁ ∧ f a s₁ = .error err s' := by
  cases hx : x s with
  | ok a s₁ =>
    rw [bind_of_ok hx] at h
    exact .inr ⟨a, s₁, rfl, h⟩
  | error err' s₁ =>
    rw [bind_of_error hx] at h
    cases h
    exact .inl rfl

theorem bind_eq_ok {b : β} (h : (x >>= f) s = .ok b s') :
    ∃ a s₁, x s = .ok a s₁ ∧ f a s₁ = .ok b s' := by
  cases hx : x s with
  | ok a s₁ =>
    rw [bind_of_ok hx] at h
    exact ⟨a, s₁, rfl, h⟩
  | error err' s₁ =>
    rw [bind_of_error hx] at h
    cases h

theorem exists_ok_of_run' {a : α} (h : x.run' s = some a) : ∃ s', x s = .ok a s' := by
  have hrun : (match x s with | .ok b _ => some b | .error .. => none) = some a := h
  cases hx : x s with
  | ok b s' =>
    rw [hx] at hrun
    cases hrun
    exact ⟨s', rfl⟩
  | error err s' =>
    rw [hx] at hrun
    cases hrun

theorem except_ok_bind (a : α) (f : α → Except ε β) : Except.ok a >>= f = f a := rfl

/-- For steps without a state: both succeed if the second one does. -/
theorem except_bind_eq_ok {x : Except ε α} {f : α → Except ε β} {b : β} :
    x >>= f = .ok b ↔ ∃ a, x = .ok a ∧ f a = .ok b := by
  cases x with
  | error err => simp [bind, Except.bind]
  | ok a => simp [bind, Except.bind]

theorem except_mapM_cons_eq_ok {f : α → Except ε β} {a : α} {as : List α} {bs : List β} :
    (a :: as).mapM f = .ok bs ↔ ∃ b rest, f a = .ok b ∧ as.mapM f = .ok rest ∧ bs = b :: rest := by
  simp only [List.mapM_cons, except_bind_eq_ok, pure, Except.pure, Except.ok.injEq]
  constructor
  · rintro ⟨b, hb, rest, hrest, rfl⟩
    exact ⟨b, rest, hb, hrest, rfl⟩
  · rintro ⟨b, rest, hb, hrest, rfl⟩
    exact ⟨b, hb, rest, hrest, rfl⟩

end TagTemplate
