/-
Lists of named texts in which every name occurs at most once. What is found after a
change is said by `find?_insert` and `find?_erase`.
-/
import TagTemplate.Text.Basic

namespace TagTemplate

/-- Names with their values, in an order of their own. -/
abbrev Entries := List (Text × Text)

namespace Entries

def find? (es : Entries) (name : Text) : Option Text := es.lookup name

def erase (es : Entries) (name : Text) : Entries := es.filter (·.1 != name)

/-- A name that is there keeps its place; a new one goes to the end. -/
def insert (es : Entries) (name value : Text) : Entries :=
  if (es.find? name).isSome then es.map fun e => if e.1 == name then (name, value) else e
  else es ++ [(name, value)]

/-- Later entries replace the values of earlier ones. -/
def ofList (pairs : List (Text × Text)) : Entries :=
  pairs.foldl (fun es p => es.insert p.1 p.2) []

/-- The same names with the same values, in any order. -/
def sameContents (es fs : Entries) : Bool :=
  es.length == fs.length && es.all fun e => fs.find? e.1 == some e.2

def names (es : Entries) : List Text := es.map (·.1)

theorem find?_erase (es : Entries) (x y : Text) :
    (es.erase x).find? y = if x = y then none else es.find? y := by
  simp only [find?, erase]
  induction es with
  | nil => simp
  | cons e es ih =>
    obtain ⟨k, v⟩ := e
    by_cases hx : k = x <;> by_cases hy : y = k <;> grind

/-- Replacing the value of a name in place changes what is found under that name only. -/
theorem lookup_replace (es : Entries) (x y value : Text) :
    (es.map fun e => if e.1 == x then (x, value) else e).lookup y =
      if x = y ∧ (es.find? x).isSome then some value else es.find? y := by
  simp only [find?]
  induction es with
  | nil => simp
  | cons e es ih =>
    obtain ⟨k, v⟩ := e
    by_cases hx : k = x <;> by_cases hy : y = k <;> grind

theorem find?_insert (es : Entries) (x y value : Text) :
    (es.insert x value).find? y = if x = y then some value else es.find? y := by
  by_cases h : (es.find? x).isSome = true
  · rw [insert, if_pos h, find?, lookup_replace]
    simp only [h, and_true]
  · rw [insert, if_neg h, find?, List.lookup_append]
    rw [Option.not_isSome_iff_eq_none, find?] at h
    by_cases hxy : x = y
    · subst hxy; simp [h]
    · have hne : (y == x) = false := by simpa using Ne.symm hxy
      simp [hxy, hne, find?]

end Entries

end TagTemplate
