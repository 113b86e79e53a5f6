/-
Which entries a bounded store still has. As long as no request lets entries go, the store
holds the names used last, as many as it has room for: a name is there if it was set, and
fewer other names than the capacity were used since its own last use.
-/
import Mathlib.Data.List.Dedup
import TagTemplate.Proofs.Store.History

namespace TagTemplate.Recency

/-! ## Names in the order of their last use -/

/-- Each name once, where it occurs first. -/
def distinct : List Text → List Text
  | [] => []
  | name :: names => name :: (distinct names).filter (· != name)

theorem mem_distinct {a : Text} {names : List Text} : a ∈ distinct names ↔ a ∈ names := by
  induction names with
  | nil => rfl
  | cons name names ih =>
    rw [distinct, List.mem_cons, List.mem_cons, List.mem_filter, ih]
    grind

theorem nodup_distinct (names : List Text) : (distinct names).Nodup := by
  induction names with
  | nil => exact List.nodup_nil
  | cons name names ih =>
    rw [distinct, List.nodup_cons]
    exact ⟨by simp, ih.filter _⟩

theorem length_distinct (names : List Text) : (distinct names).length = names.dedup.length := by
  have hperm : (distinct names).Perm names.dedup := by
    rw [List.perm_ext_iff_of_nodup (nodup_distinct names) (List.nodup_dedup names)]
    exact fun a => by rw [mem_distinct, List.mem_dedup]
  exact hperm.length_eq

/-- The names used since a name was used last are the ones before it. -/
theorem distinct_usedSince (used : List Text) (a : Text) :
    distinct (usedSince used a) = (distinct used).takeWhile (· ≠ a) := by
  induction used with
  | nil => rfl
  | cons x used ih =>
    by_cases hx : x = a
    · simp [usedSince_cons, hx, distinct]
    · have hwhile : (fun b => !(b != x) || decide (b ≠ a)) = fun b => decide (b ≠ a) := by
        funext b
        grind
      rw [usedSince_cons, if_neg hx, distinct, distinct, ih,
        List.takeWhile_cons_of_pos (by simpa using hx), List.takeWhile_filter, hwhile]

theorem mem_take_iff {names : List Text} {a : Text} {count : Nat} :
    a ∈ names.take count ↔ a ∈ names ∧ (names.takeWhile (· ≠ a)).length < count := by
  induction names generalizing count with
  | nil => simp
  | cons x names ih =>
    cases count with
    | zero => simp
    | succ count =>
      by_cases hx : x = a
      · simp [hx]
      · have hne : a ≠ x := Ne.symm hx
        simp [ih, hx, hne]

/-- Without one of the names the next one is among the first. -/
theorem take_filter_take {names : List Text} (hnodup : names.Nodup) (a : Text) (count : Nat) :
    ((names.take (count + 1)).filter (· != a)).take count = (names.filter (· != a)).take count := by
  induction names generalizing count with
  | nil => simp
  | cons x names ih =>
    obtain ⟨hx, hnodup⟩ := List.nodup_cons.1 hnodup
    by_cases hxa : x = a
    · have hall : ∀ b ∈ names, (b != a) = true := fun b hb => by grind
      rw [List.take_succ_cons, List.filter_cons_of_neg (by simpa using hxa),
        List.filter_cons_of_neg (by simpa using hxa), List.filter_eq_self.2 hall,
        List.filter_eq_self.2 fun b hb => hall b (List.mem_of_mem_take hb), List.take_take,
        Nat.min_self]
    · cases count with
      | zero => simp
      | succ count =>
        rw [List.take_succ_cons, List.filter_cons_of_pos (by simpa using hxa),
          List.filter_cons_of_pos (by simpa using hxa), List.take_succ_cons, List.take_succ_cons,
          ih hnodup]

/-! ## What is kept -/

namespace History

/-- The store has the names used last, as many as it has room for. -/
def KeepsLatest (h : History) (room : Nat) : Prop :=
  h.store.entries.names.reverse = (distinct h.used).take room

variable {h : History} {room : Nat}

/-- The name that is used comes before the others, and the last of these may go. -/
theorem KeepsLatest.take_cons (hk : h.KeepsLatest (room + 1)) (name : Text) :
    (name :: h.store.entries.names.reverse.filter (· != name)).take (room + 1) =
      (distinct (name :: h.used)).take (room + 1) := by
  rw [hk, distinct, List.take_succ_cons, List.take_succ_cons,
    take_filter_take (nodup_distinct h.used)]

theorem KeepsLatest.length_le (hk : h.KeepsLatest room) : h.store.entries.names.length ≤ room := by
  rw [← List.length_reverse, hk, List.length_take]
  exact Nat.min_le_left ..

/-- What does not find room at the end of the list is the first name. -/
theorem reverse_evict {names : List Text} (h : names.length ≤ room + 1) :
    (if room < names.length then names.tail else names).reverse = names.reverse.take room := by
  split
  · next hfull =>
    have hroom : names.reverse.length - 1 = room := by
      rw [List.length_reverse]
      omega
    rw [← List.dropLast_reverse, List.dropLast_eq_take, hroom]
  · next hfits => exact (List.take_of_length_le (by simpa using hfits)).symm

theorem reverse_names_withLast (entries : Entries) (name value : Text) :
    (Entries.names (entries.erase name ++ [(name, value)])).reverse =
      name :: entries.names.reverse.filter (· != name) := by
  rw [names_withLast, List.reverse_append, List.filter_reverse]
  rfl

theorem KeepsLatest.set (hk : h.KeepsLatest (room + 1)) (hroom : h.store.capacity = room + 1)
    (name value : Text) : (h.set name value).KeepsLatest (room + 1) := by
  have hlength : (Entries.names (h.store.entries.erase name ++ [(name, value)])).length ≤
      room + 1 + 1 := by
    have hle := hk.length_le
    have hfilter := List.length_filter_le (· != name) h.store.entries.names
    rw [names_withLast, List.length_append, List.length_singleton]
    omega
  have hnames : (h.set name value).store.entries.names =
      if room + 1 < (Entries.names (h.store.entries.erase name ++ [(name, value)])).length then
        (Entries.names (h.store.entries.erase name ++ [(name, value)])).tail
      else Entries.names (h.store.entries.erase name ++ [(name, value)]) := by
    simp only [History.set, insert, hroom, Entries.names, List.length_map]
    split <;> split <;> first | omega | simp only [List.map_tail]
  rw [KeepsLatest, hnames, reverse_evict hlength, reverse_names_withLast, hk.take_cons]
  rfl

theorem KeepsLatest.read (hk : h.KeepsLatest (room + 1)) {name : Text}
    (hname : h.store.contains name = true) : (h.read name).KeepsLatest (room + 1) := by
  obtain ⟨value, hfind, hread⟩ := read_present hname
  have hmem : name ∈ h.store.entries.names.reverse :=
    List.mem_reverse.2 (List.mem_map_of_mem (Entries.mem_of_find? hfind))
  have hlength : (name :: h.store.entries.names.reverse.filter (· != name)).length ≤ room + 1 := by
    have hlt : (h.store.entries.names.reverse.filter (· != name)).length <
        h.store.entries.names.reverse.length :=
      List.length_filter_lt_length_iff_exists.2 ⟨name, hmem, by simp⟩
    have hle := hk.length_le
    rw [List.length_reverse] at hlt
    rw [List.length_cons]
    omega
  rw [KeepsLatest, History.read, hread, reverse_names_withLast, ← hk.take_cons,
    List.take_of_length_le hlength]

theorem keepsLatest_run (requests : List Request)
    (hkeep : ∀ request ∈ requests, request.removes = false) :
    (run (room + 1) requests).KeepsLatest (room + 1) := by
  -- The capacity is part of the invariant, as setting an entry asks for it.
  let P (h : History) : Prop := h.store.capacity = room + 1 ∧ h.KeepsLatest (room + 1)
  have hset (h : History) (name value : Text) (hp : P h) : P (h.set name value) :=
    ⟨hp.1, hp.2.set hp.1 name value⟩
  have hread (h : History) (name : Text) (hname : h.store.contains name = true) (hp : P h) :
      P (h.read name) := by
    obtain ⟨_, -, hread⟩ := read_present hname
    exact ⟨by simpa only [History.read, hread] using hp.1, hp.2.read hname⟩
  have hrun : P (run (room + 1) requests) :=
    run_preserves ⟨rfl, rfl⟩ fun request hrequest _ hp =>
      step_preserves request hset hread
        (fun hremoves => by rw [hkeep request hrequest] at hremoves; cases hremoves) hp
  exact hrun.2

theorem contains_iff {r : Recency} {name : Text} :
    r.contains name = true ↔ name ∈ r.entries.names :=
  Entries.isSome_find?_iff

/-- **A bounded store, told by its history.** After every run of requests from an empty store
on, the names of the entries are distinct and no more than there is room for; the entries
stand in the order of the last use of their names, each with the value that was set last,
so that the first one, which is the one to go, is the one not used for the longest time;
and a request that fails changes nothing. If there is room for one entry at least and no
request let entries go, a name is there exactly if it was set, and fewer other names than
there is room for were used since it was used last. -/
theorem run_discipline (capacity : Int) (requests : List Request) :
    let h := run capacity requests
    let entries := h.store.entries
    entries.names.Nodup ∧ (entries.length : Int) ≤ max capacity 0 ∧
      (∀ name ∈ entries.names, name ∈ h.used) ∧
      entries.names.Pairwise (fun a b => b ∈ h.since a) ∧
      (∀ e ∈ entries, h.assigned.lookup e.1 = some e.2) ∧
      (∀ name value rest, entries = (name, value) :: rest →
        h.store.answer .takeFirst = (.entry name value, ⟨capacity, rest⟩) ∧
          ∀ other ∈ Entries.names rest, other ∈ h.since name) ∧
      (∀ request f, (h.store.answer request).1 = .fault f →
        f.category = "KeyError" ∧ (h.store.answer request).2 = h.store) ∧
      (1 ≤ capacity → (∀ request ∈ requests, request.removes = false) → ∀ name,
        h.store.contains name = true ↔
          (∃ value, (name, value) ∈ h.assigned) ∧
            ((h.since name).dedup.length : Int) < capacity) := by
  intro h entries
  have hf : h.IsFaithful := isFaithful_run capacity requests
  have hcapacity : h.store.capacity = capacity := capacity_run capacity requests
  refine ⟨hf.reflects.nodup, hcapacity ▸ hf.size, hf.reflects.known, hf.reflects.order,
    hf.reflects.value, ?_, fun _ _ => answer_fault, ?_⟩
  · intro name value rest hentries
    have hstore : h.store.entries = (name, value) :: rest := hentries
    have horder := hf.reflects.order
    rw [hstore, Entries.names, List.map_cons, List.pairwise_cons] at horder
    exact ⟨by simp only [answer, hstore, hcapacity], horder.1⟩
  · intro hroom hkeep name
    obtain ⟨room, rfl⟩ : ∃ room : Nat, capacity = room + 1 := ⟨(capacity - 1).toNat, by omega⟩
    have hlatest : h.KeepsLatest (room + 1) := keepsLatest_run requests hkeep
    rw [contains_iff, ← List.mem_reverse, hlatest, mem_take_iff, mem_distinct, hf.assigned,
      ← distinct_usedSince, length_distinct, since]
    exact and_congr_right fun _ => by omega

/-- Room for two: reading the first entry makes the second one go for the third. -/
theorem run_discipline_two :
    let requests : List Request :=
      [.set "a" "1", .set "b" "2", .get "a" none, .require "z", .set "c" "3"]
    let h := run 2 requests
    (1 : Int) ≤ 2 ∧ (∀ request ∈ requests, request.removes = false) ∧
      h.store.entries = ([("a", "1"), ("c", "3")] : Entries) ∧
      h.store.answer .takeFirst = (.entry "a" "1", ⟨2, [("c", "3")]⟩) ∧
      (h.store.answer (.delete "b")).1 = .fault (.unknownName "b") ∧
      (h.store.answer (.delete "b")).2 = h.store ∧
      h.store.contains "a" = true ∧ h.store.contains "b" = false := by
  intro requests h
  obtain ⟨-, -, -, -, -, hfirst, hfault, hpresent⟩ := run_discipline 2 requests
  have hroom : (1 : Int) ≤ 2 := by decide
  have hkeep : ∀ request ∈ requests, request.removes = false := by decide
  have hentries : h.store.entries = ([("a", "1"), ("c", "3")] : Entries) := by decide +kernel
  have habsent : (h.store.answer (.delete "b")).1 = .fault (.unknownName "b") := by decide +kernel
  have ha := (hpresent hroom hkeep "a").2 ⟨⟨"1", by decide +kernel⟩, by decide +kernel⟩
  have hb : h.store.contains "b" = false := by
    rw [← Bool.not_eq_true, hpresent hroom hkeep "b"]
    exact fun hb => absurd hb.2 (by decide +kernel)
  exact ⟨hroom, hkeep, hentries, (hfirst "a" "1" _ hentries).1, habsent,
    (hfault _ _ habsent).2, ha, hb⟩

end History

end TagTemplate.Recency
