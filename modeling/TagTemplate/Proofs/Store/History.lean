/-
A bounded store together with what was done to it. Of a run of requests it is kept which
names they used and which entries they set, the latest ones first, and the store is told
by that: its entries stand in the order of their last use, each with the value that was
set last.

Requests do three things to the entries. They set one, which goes to the end; they read
one, which moves it there; and they let some go, which leaves the others in their order. So
an invariant that these three keep is one of all requests (`History.step_preserves`).
-/
import Mathlib.Data.List.Nodup
import TagTemplate.Store.Recency

namespace TagTemplate

theorem Entries.mem_of_find? {es : Entries} {name value : Text} (h : es.find? name = some value) :
    (name, value) ∈ es := by
  obtain ⟨before, after, rfl, -⟩ := List.lookup_eq_some_iff.1 h
  simp

theorem Entries.isSome_find?_iff {es : Entries} {name : Text} :
    (es.find? name).isSome = true ↔ name ∈ es.names := by
  rw [← Option.ne_none_iff_isSome, Ne, find?, List.lookup_eq_none_iff]
  simp [names]

namespace Recency

/-- The names that a request uses, in order: those that it sets, and those that it reads
with success. -/
def uses (r : Recency) : Request → List Text
  | .set name _ | .getOrSet name _ => [name]
  | .require name | .get name _ | .take name _ => if r.contains name then [name] else []
  | .update pairs => pairs.map (·.1)
  | .delete _ | .contains _ | .takeFirst | .clear | .keys | .equals _ => []

/-- The entries that a request sets, in order. -/
def sets (r : Recency) : Request → List (Text × Text)
  | .set name value => [(name, value)]
  | .getOrSet name value => if r.contains name then [] else [(name, value)]
  | .update pairs => pairs
  | _ => []

/-- Whether a request is one to let entries go. -/
def Request.removes : Request → Bool
  | .delete _ | .take .. | .takeFirst | .clear => true
  | _ => false

variable {r : Recency} {name : Text}

theorem read_absent (h : r.contains name = false) : r.read name = (none, r) := by
  have hnone : r.entries.find? name = none := by
    rwa [contains, Option.isSome_eq_false_iff, Option.isNone_iff_eq_none] at h
  simp only [read, hnone]

theorem read_present (h : r.contains name = true) :
    ∃ value, r.entries.find? name = some value ∧
      r.read name = (some value, ⟨r.capacity, r.entries.erase name ++ [(name, value)]⟩) := by
  obtain ⟨value, hsome⟩ := Option.isSome_iff_exists.1 h
  exact ⟨value, hsome, by simp only [read, hsome]⟩

/-- A request that fails does so for want of an entry, and changes nothing. -/
theorem answer_fault {request : Request} {f : Fault} (h : (r.answer request).1 = .fault f) :
    f.category = "KeyError" ∧ (r.answer request).2 = r := by
  cases request with
  | require name | get name _ | take name _ | getOrSet name _ =>
    cases hname : r.contains name with
    | true =>
      obtain ⟨_, -, hread⟩ := read_present hname
      simp only [answer, hread] at h
      cases h
    | false =>
      simp only [answer, read_absent hname] at h ⊢
      grind [Fault.category]
  | delete name =>
    simp only [answer] at h ⊢
    split at h <;> cases h
    next habsent => exact ⟨rfl, by rw [if_neg habsent]⟩
  | takeFirst =>
    simp only [answer] at h ⊢
    split at h <;> cases h
    exact ⟨rfl, rfl⟩
  | set _ _ | contains _ | update _ | clear | keys | equals _ => cases h

/-- Of the names used, the latest first, those that were used since a name was used last. -/
def usedSince (used : List Text) (name : Text) : List Text := used.takeWhile (· ≠ name)

theorem usedSince_cons (used : List Text) (x name : Text) :
    usedSince (x :: used) name = if x = name then [] else x :: usedSince used name := by
  by_cases hx : x = name <;> simp [usedSince, hx]

/-! ## Histories -/

/-- A store with what was done to it: the names used and the entries set, each time the
latest first. -/
structure History where
  store : Recency
  used : List Text
  assigned : List (Text × Text)

namespace History

def empty (capacity : Int) : History := ⟨.empty capacity, [], []⟩

/-- One request. -/
def step (h : History) (request : Request) : History where
  store := (h.store.answer request).2
  used := (h.store.uses request).reverse ++ h.used
  assigned := (h.store.sets request).reverse ++ h.assigned

/-- Requests from an empty store on. -/
def run (capacity : Int) (requests : List Request) : History :=
  requests.foldl step (empty capacity)

/-- The names used since a name was used last. -/
def since (h : History) (name : Text) : List Text := usedSince h.used name

/-! ## What requests are made of -/

def set (h : History) (name value : Text) : History :=
  ⟨h.store.insert name value, name :: h.used, (name, value) :: h.assigned⟩

def read (h : History) (name : Text) : History :=
  ⟨(h.store.read name).2, name :: h.used, h.assigned⟩

def withEntries (h : History) (entries : Entries) : History :=
  { h with store := { h.store with entries := entries } }

theorem foldl_set (pairs : List (Text × Text)) :
    ∀ h : History, pairs.foldl (fun h p => h.set p.1 p.2) h =
      ⟨h.store.insertAll pairs, (pairs.map (·.1)).reverse ++ h.used,
        pairs.reverse ++ h.assigned⟩ := by
  induction pairs with
  | nil => exact fun h => rfl
  | cons p pairs ih =>
    intro h
    rw [List.foldl_cons, ih]
    simp [set, insertAll]

/-- What setting an entry, reading one that is there, and letting entries go all keep is
kept by every request; and for those that are not to let entries go, the first two will do. -/
theorem step_preserves {P : History → Prop} (request : Request)
    (hset : ∀ h name value, P h → P (h.set name value))
    (hread : ∀ h name, h.store.contains name = true → P h → P (h.read name))
    (hdrop : request.removes = true →
      ∀ h entries, List.Sublist entries h.store.entries → P h → P (h.withEntries entries))
    {h : History} (hp : P h) : P (h.step request) := by
  cases request with
  | set name value => exact hset h name value hp
  | update pairs =>
    have hfold : h.step (.update pairs) = pairs.foldl (fun h p => h.set p.1 p.2) h :=
      (foldl_set pairs h).symm
    rw [hfold]
    clear hfold hdrop
    induction pairs generalizing h with
    | nil => exact hp
    | cons p pairs ih => exact ih (hset h p.1 p.2 hp)
  | require name | get name _ | getOrSet name _ =>
    cases hname : h.store.contains name with
    | true =>
      obtain ⟨_, -, hfound⟩ := read_present hname
      have hstep := hread h name hname hp
      simp only [step, answer, uses, sets, read, hname, hfound] at hstep ⊢
      exact hstep
    | false =>
      simp only [step, answer, uses, sets, read_absent hname, hname]
      -- Only the last of the three sets an entry then.
      first
      | exact hp
      | exact hset h name _ hp
  | take name default =>
    cases hname : h.store.contains name with
    | true =>
      obtain ⟨value, -, hfound⟩ := read_present hname
      have hstep := hdrop rfl _ _ (List.filter_sublist (p := (·.1 != name))) (hread h name hname hp)
      simp only [step, answer, uses, sets, read, withEntries, hname, hfound] at hstep ⊢
      exact hstep
    | false =>
      cases default <;> simp only [step, answer, uses, sets, read_absent hname, hname] <;> exact hp
  | delete name =>
    simp only [step, answer, uses, sets]
    split
    · exact hdrop rfl h _ List.filter_sublist hp
    · exact hp
  | takeFirst =>
    simp only [step, answer, uses, sets]
    split
    · exact hp
    · next hentries => exact hdrop rfl h _ (hentries ▸ List.sublist_cons_self ..) hp
  | clear => exact hdrop rfl h _ (List.nil_sublist _) hp
  | contains _ | keys | equals _ => exact hp

/-- What holds of an empty store and is kept by every request of a run holds at its end. -/
theorem run_preserves {P : History → Prop} {capacity : Int} {requests : List Request}
    (hempty : P (empty capacity))
    (hstep : ∀ request ∈ requests, ∀ h, P h → P (h.step request)) : P (run capacity requests) := by
  rw [run]
  generalize empty capacity = h at hempty
  induction requests generalizing h with
  | nil => exact hempty
  | cons request requests ih =>
    rw [List.foldl_cons]
    exact ih (fun request hrequest => hstep request (by simp [hrequest])) _
      (hstep request (by simp) h hempty)

/-! ## The order of the entries -/

/-- Entries that stand in the order of the last use of their names, each with the value that
was set last. -/
structure Reflects (entries : Entries) (used : List Text) (assigned : List (Text × Text)) :
    Prop where
  nodup : entries.names.Nodup
  known : ∀ name ∈ entries.names, name ∈ used
  order : entries.names.Pairwise fun a b => b ∈ usedSince used a
  value : ∀ e ∈ entries, assigned.lookup e.1 = some e.2

variable {entries : Entries} {used : List Text} {assigned : List (Text × Text)}

theorem names_withLast (entries : Entries) (name value : Text) :
    Entries.names (entries.erase name ++ [(name, value)]) =
      entries.names.filter (· != name) ++ [name] := by
  simp [Entries.names, Entries.erase, List.filter_map, Function.comp_def]

theorem Reflects.sublist (h : Reflects entries used assigned) {entries' : Entries}
    (hsub : List.Sublist entries' entries) : Reflects entries' used assigned where
  nodup := h.nodup.sublist (hsub.map _)
  known := fun name hname => h.known name ((hsub.map _).subset hname)
  order := h.order.sublist (hsub.map _)
  value := fun e he => h.value e (hsub.subset he)

/-- An entry is used: it goes to the end, with the value that it has from then on. -/
theorem Reflects.withLast (h : Reflects entries used assigned) {name value : Text}
    {assigned' : List (Text × Text)} (hname : assigned'.lookup name = some value)
    (hother : ∀ other, other ≠ name → assigned'.lookup other = assigned.lookup other) :
    Reflects (entries.erase name ++ [(name, value)]) (name :: used) assigned' where
  nodup := by
    rw [names_withLast, List.nodup_append]
    refine ⟨h.nodup.filter _, List.nodup_singleton _, fun a ha b hb => ?_⟩
    rw [List.mem_singleton.1 hb]
    simpa using (List.mem_filter.1 ha).2
  known := by
    intro a ha
    rw [names_withLast, List.mem_append, List.mem_singleton] at ha
    rcases ha with ha | rfl
    · exact List.mem_cons_of_mem _ (h.known a (List.mem_filter.1 ha).1)
    · exact List.mem_cons_self
  order := by
    rw [names_withLast, List.pairwise_append]
    have hsince {a : Text} (ha : a ∈ entries.names.filter (· != name)) :
        usedSince (name :: used) a = name :: usedSince used a := by
      have hne : a ≠ name := by simpa using (List.mem_filter.1 ha).2
      rw [usedSince_cons, if_neg (Ne.symm hne)]
    refine ⟨(h.order.filter _).imp_of_mem fun ha _ hb => ?_, List.pairwise_singleton .., ?_⟩
    · rw [hsince ha]
      exact List.mem_cons_of_mem _ hb
    · intro a ha b hb
      rw [hsince ha, List.mem_singleton.1 hb]
      exact List.mem_cons_self
  value := by
    intro e he
    rcases List.mem_append.1 he with he | he
    · have hne : e.1 ≠ name := by simpa using (List.mem_filter.1 he).2
      rw [hother e.1 hne]
      exact h.value e (List.mem_filter.1 he).1
    · rw [List.mem_singleton.1 he]
      exact hname

/-- A history whose store reflects it and is no larger than it may be, and in which the
names used are the ones that were set. -/
structure IsFaithful (h : History) : Prop where
  reflects : Reflects h.store.entries h.used h.assigned
  size : (h.store.entries.length : Int) ≤ max h.store.capacity 0
  assigned : ∀ name, name ∈ h.used ↔ ∃ value, (name, value) ∈ h.assigned

theorem isFaithful_empty (capacity : Int) : (empty capacity).IsFaithful where
  reflects := ⟨List.nodup_nil, by simp [empty, Recency.empty, Entries.names], .nil,
    by simp [empty, Recency.empty]⟩
  size := Int.le_max_right ..
  assigned := by simp [empty]

theorem IsFaithful.set {h : History} (hf : h.IsFaithful) (name value : Text) :
    (h.set name value).IsFaithful where
  reflects := by
    have hother (other : Text) (hne : other ≠ name) :
        List.lookup other ((name, value) :: h.assigned) = h.assigned.lookup other := by
      have hne : (other == name) = false := by simpa using hne
      simp [List.lookup_cons, hne]
    have hlast := hf.reflects.withLast (List.lookup_cons_self ..) hother
    simp only [History.set, insert]
    split
    · exact hlast.sublist (List.tail_sublist _)
    · exact hlast
  size := by
    have hsize := hf.size
    have hfilter : (h.store.entries.erase name).length ≤ h.store.entries.length :=
      List.length_filter_le ..
    simp only [History.set, insert]
    split <;> simp only [List.length_tail, List.length_append, List.length_singleton] at * <;> omega
  assigned := by
    intro a
    simp only [History.set, List.mem_cons, hf.assigned a, Prod.mk.injEq]
    grind

/-- Reading an entry leaves as many as there were. -/
theorem IsFaithful.read {h : History} (hf : h.IsFaithful) {name : Text}
    (hname : h.store.contains name = true) : (h.read name).IsFaithful := by
  obtain ⟨value, hfind, hread⟩ := read_present hname
  have hmem := Entries.mem_of_find? hfind
  have hvalue := hf.reflects.value _ hmem
  refine ⟨?_, ?_, ?_⟩ <;> simp only [History.read, hread]
  · exact hf.reflects.withLast hvalue fun _ _ => rfl
  · have hlt : (h.store.entries.erase name).length < h.store.entries.length :=
      List.length_filter_lt_length_iff_exists.2 ⟨_, hmem, by simp⟩
    have hsize := hf.size
    simp only [List.length_append, List.length_singleton]
    omega
  · intro a
    have hused := hf.reflects.known name (List.mem_map_of_mem hmem)
    rw [List.mem_cons, ← hf.assigned a]
    grind

theorem IsFaithful.withEntries {h : History} (hf : h.IsFaithful) {entries : Entries}
    (hsub : List.Sublist entries h.store.entries) : (h.withEntries entries).IsFaithful where
  reflects := hf.reflects.sublist hsub
  size := by
    have hsize := hf.size
    have hlength := hsub.length_le
    simp only [History.withEntries]
    omega
  assigned := hf.assigned

theorem isFaithful_run (capacity : Int) (requests : List Request) :
    (run capacity requests).IsFaithful :=
  run_preserves (isFaithful_empty capacity) fun request _ _ hf =>
    step_preserves request (fun _ name value hf => hf.set name value)
      (fun _ _ hname hf => hf.read hname) (fun _ _ _ hsub hf => hf.withEntries hsub) hf

theorem capacity_run (capacity : Int) (requests : List Request) :
    (run capacity requests).store.capacity = capacity := by
  refine run_preserves (P := fun h => h.store.capacity = capacity) rfl fun request _ _ hf => ?_
  refine step_preserves (P := fun h => h.store.capacity = capacity) request
    (fun _ _ _ hf => hf) (fun h name hname hf => ?_) (fun _ _ _ _ hf => hf) hf
  obtain ⟨_, -, hread⟩ := read_present hname
  simpa only [History.read, hread] using hf

end History

end Recency

end TagTemplate
