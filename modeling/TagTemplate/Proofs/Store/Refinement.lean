/-
A bounded store beside a plain one. As long as the plain store has no more entries than the
bounded one has room for, the two have the same entries, and only their order differs: reading
moves an entry to the end of the bounded store, and setting one that is there keeps its place
in the plain store.
-/
import TagTemplate.Proofs.Store.History
import TagTemplate.Store.Basic

namespace TagTemplate

/-! ## Entries in any order -/

namespace Entries

variable {es fs : Entries} {name value : Text}

theorem find?_eq_some_iff (hnodup : es.names.Nodup) :
    es.find? name = some value ↔ (name, value) ∈ es := by
  refine ⟨mem_of_find?, fun hmem => ?_⟩
  induction es with
  | nil => cases hmem
  | cons e es ih =>
    obtain ⟨k, v⟩ := e
    rw [names, List.map_cons, List.nodup_cons] at hnodup
    rcases List.mem_cons.1 hmem with heq | htail
    · cases heq
      simp [find?]
    · have hne : (name == k) = false := by
        simp only [beq_eq_false_iff_ne]
        rintro rfl
        exact hnodup.1 (List.mem_map.2 ⟨_, htail, rfl⟩)
      simp only [find?, List.lookup_cons, hne]
      exact ih hnodup.2 htail

theorem names_perm (h : es.Perm fs) : es.names.Perm fs.names := h.map _

/-- What is found does not depend on the order. -/
theorem find?_perm (h : es.Perm fs) (hnodup : fs.names.Nodup) (name : Text) :
    es.find? name = fs.find? name := by
  have hnodup' : es.names.Nodup := (names_perm h).nodup_iff.2 hnodup
  refine Option.ext fun value => ?_
  rw [find?_eq_some_iff hnodup', find?_eq_some_iff hnodup, h.mem_iff]

theorem nodup_withLast (hnodup : es.names.Nodup) (name value : Text) :
    (Entries.names (es.erase name ++ [(name, value)])).Nodup := by
  rw [Recency.History.names_withLast, List.nodup_append]
  refine ⟨hnodup.filter _, List.nodup_singleton _, fun a ha b hb => ?_⟩
  rw [List.mem_singleton.1 hb]
  simpa using (List.mem_filter.1 ha).2

theorem names_insert (es : Entries) (name value : Text) :
    (es.insert name value).names =
      if (es.find? name).isSome then es.names else es.names ++ [name] := by
  unfold insert
  split
  · simp only [names, List.map_map, List.map_inj_left, Function.comp_apply]
    intro e _
    split
    · next h => exact (beq_iff_eq.1 h).symm
    · rfl
  · simp [names]

theorem nodup_insert (hnodup : es.names.Nodup) (name value : Text) :
    (es.insert name value).names.Nodup := by
  rw [names_insert]
  split
  · exact hnodup
  · next habsent =>
    rw [← List.concat_eq_append, List.nodup_concat]
    refine ⟨fun hmem => habsent ?_, hnodup⟩
    obtain ⟨e, he, rfl⟩ := List.mem_map.1 hmem
    rw [(find?_eq_some_iff hnodup).2 he]
    rfl

theorem mem_insert (hnodup : es.names.Nodup) {e : Text × Text} :
    e ∈ es.insert name value ↔ (e ∈ es ∧ e.1 ≠ name) ∨ e = (name, value) := by
  obtain ⟨k, v⟩ := e
  rw [← find?_eq_some_iff (nodup_insert hnodup name value), find?_insert,
    ← find?_eq_some_iff hnodup]
  grind

/-- Setting an entry is the same wherever the entry is put. -/
theorem insert_perm (hnodup : es.names.Nodup) (name value : Text) :
    (es.insert name value).Perm (es.erase name ++ [(name, value)]) := by
  refine (List.perm_ext_iff_of_nodup (nodup_insert hnodup name value).of_map
    (nodup_withLast hnodup name value).of_map).2 fun e => ?_
  rw [mem_insert hnodup]
  simp [erase]

/-- Reading an entry that is there moves it only. -/
theorem withLast_perm (hnodup : es.names.Nodup) (h : es.find? name = some value) :
    (es.erase name ++ [(name, value)]).Perm es := by
  have hmem := (find?_eq_some_iff hnodup).1 h
  refine (List.perm_ext_iff_of_nodup (nodup_withLast hnodup name value).of_map
    hnodup.of_map).2 fun e => ?_
  have hunique : e ∈ es → e.1 = name → e = (name, value) := by
    intro he hname
    have he' := (find?_eq_some_iff hnodup).2 (show (name, e.2) ∈ es from hname ▸ he)
    rw [h, Option.some.injEq] at he'
    exact Prod.ext hname he'.symm
  simp only [erase, List.mem_append, List.mem_filter, bne_iff_ne, List.mem_singleton]
  grind

end Entries

/-! ## Stores -/

namespace Store

/-- A plain store and a bounded one of this capacity, with the same entries. -/
inductive Refines (capacity : Int) : Store → Store → Prop
  | intro {es : Entries} {r : Recency} : r.capacity = capacity → es.names.Nodup →
      (es.length : Int) ≤ capacity → r.entries.Perm es → Refines capacity (unbounded es) (bounded r)

namespace Refines

variable {capacity : Int} {plain store : Store}

theorem entries_perm (h : Refines capacity plain store) : store.entries.Perm plain.entries := by
  cases h with
  | intro _ _ _ hperm => exact hperm

theorem read (h : Refines capacity plain store) (name : Text) :
    (store.read name).1 = (plain.read name).1 ∧
      Refines capacity (plain.read name).2 (store.read name).2 := by
  cases h with
  | @intro es r hcapacity hnodup hfits hperm =>
    have hfind := Entries.find?_perm hperm hnodup name
    have hnodup' : r.entries.names.Nodup := (Entries.names_perm hperm).nodup_iff.2 hnodup
    simp only [Store.read, Recency.read, hfind]
    cases hvalue : es.find? name with
    | none => exact ⟨rfl, .intro hcapacity hnodup hfits hperm⟩
    | some value =>
      rw [← hfind] at hvalue
      have hmoved := (Entries.withLast_perm hnodup' hvalue).trans hperm
      exact ⟨rfl, .intro hcapacity hnodup hfits hmoved⟩

theorem erase (h : Refines capacity plain store) (name : Text) :
    Refines capacity (plain.erase name) (store.erase name) := by
  cases h with
  | @intro es _ hcapacity hnodup hfits hperm =>
    have hsublist : List.Sublist (es.erase name) es := List.filter_sublist
    refine .intro hcapacity (hnodup.sublist (hsublist.map _)) ?_ (hperm.filter _)
    have hlength := hsublist.length_le
    omega

/-- Setting an entry makes none of the bounded store go, as long as the plain one does not
have too many then. -/
theorem insert (h : Refines capacity plain store) {name value : Text}
    (hfits : ((plain.insert name value).entries.length : Int) ≤ capacity) :
    Refines capacity (plain.insert name value) (store.insert name value) := by
  cases h with
  | @intro es r hcapacity hnodup _ hperm =>
    have hinsert : (r.entries.erase name ++ [(name, value)]).Perm (es.insert name value) :=
      ((hperm.filter _).append_right _).trans (Entries.insert_perm hnodup name value).symm
    refine .intro hcapacity (Entries.nodup_insert hnodup name value) hfits ?_
    have hroom : ¬r.capacity < (r.entries.erase name ++ [(name, value)]).length := by
      rw [hinsert.length_eq, hcapacity]
      exact Int.not_lt.2 hfits
    simp only [Recency.insert]
    rwa [if_neg hroom]

theorem empty {capacity : Int} (h : 0 ≤ capacity) :
    Refines capacity (unbounded []) (bounded (.empty capacity)) :=
  .intro rfl List.nodup_nil h .nil

end Refines

/-- A plain store only grows when entries are set. -/
theorem length_insertAll_le (es : Entries) (pairs : List (Text × Text)) :
    es.length ≤ ((unbounded es).insertAll pairs).entries.length := by
  induction pairs generalizing es with
  | nil => exact Nat.le_refl _
  | cons p pairs ih =>
    refine Nat.le_trans ?_ (ih (es.insert p.1 p.2))
    unfold Entries.insert
    split <;> simp

/-- Seeding both with the same pairs. -/
theorem Refines.insertAll {capacity : Int} {plain store : Store} (h : Refines capacity plain store)
    {pairs : List (Text × Text)}
    (hfits : ((plain.insertAll pairs).entries.length : Int) ≤ capacity) :
    Refines capacity (plain.insertAll pairs) (store.insertAll pairs) := by
  induction pairs generalizing plain store with
  | nil => exact h
  | cons p pairs ih =>
    refine ih (h.insert ?_) hfits
    cases h with
    | @intro es _ _ _ _ _ =>
      have hle := length_insertAll_le (es.insert p.1 p.2) pairs
      exact Int.le_trans (Int.ofNat_le.2 hle) hfits

end Store

end TagTemplate
