/-
The names of a scope do not know of each other. Whatever is asked of a scope, the answers to
the requests about one name are those of a single stack that hears of nothing else, and so
is what the name is bound to afterwards (`run_project`). Requests about different names can
therefore be put in any other order.

A name that was bound once and one that never was are the same to every request: two scopes
with the same stacks answer alike (`run_congr`).
-/
import TagTemplate.Scope

namespace TagTemplate.Scope

/-- The name that a request is about. -/
def Request.name : Request → Text
  | push name _ | pop name | peek name | isEmpty name | contains name => name

/-- One request to a single stack, its top first. It has no names but its own, by which a
value that is missing is reported. -/
def answerAlone (name : Text) (values : List Number) : Request → Reply × List Number
  | .push _ v => (.done, v :: values)
  | .pop _ =>
    match values with
    | [] => (.fault (.unknownName name), [])
    | v :: rest => (.value v, rest)
  | .peek _ =>
    match values with
    | [] => (.fault (.unknownName name), [])
    | v :: rest => (.value v, v :: rest)
  | .isEmpty _ => (.flag values.isEmpty, values)
  | .contains _ => (.flag !values.isEmpty, values)

/-- Requests one after another: each with its answer, and the state after all of them. -/
def run {σ : Type} (answer : σ → Request → Reply × σ) (s : σ) :
    List Request → List (Request × Reply) × σ
  | [] => ([], s)
  | r :: rs =>
    let (reply, s) := answer s r
    let (record, s) := run answer s rs
    ((r, reply) :: record, s)

/-- The requests about a name, in their order. -/
def about (name : Text) (requests : List Request) : List Request :=
  requests.filter (·.name = name)

/-- What a record has about a name. -/
def recordAbout (name : Text) (record : List (Request × Reply)) : List (Request × Reply) :=
  record.filter (·.1.name = name)

theorem about_cons (name : Text) (r : Request) (requests : List Request) :
    about name (r :: requests) =
      if r.name = name then r :: about name requests else about name requests := by
  simp only [about, List.filter_cons, decide_eq_true_eq]

theorem recordAbout_cons (name : Text) (e : Request × Reply) (record : List (Request × Reply)) :
    recordAbout name (e :: record) =
      if e.1.name = name then e :: recordAbout name record else recordAbout name record := by
  simp only [recordAbout, List.filter_cons, decide_eq_true_eq]

/-! ## One request -/

theorem isBound_eq (s : Scope) (name : Text) : s.isBound name = !(s.stack name).isEmpty := by
  rw [isBound, peek?_eq_head?]
  cases s.stack name <;> rfl

/-- A request is answered as the stack of its name alone answers it. -/
theorem answer_own (s : Scope) (r : Request) :
    let alone := answerAlone r.name (s.stack r.name) r
    (s.answer r).1 = alone.1 ∧ (s.answer r).2.stack r.name = alone.2 := by
  cases r with
  | push name v => simp [answer, answerAlone, Request.name]
  | pop name | peek name =>
    cases hstack : s.stack name <;>
      simp [answer, answerAlone, Request.name, pop?, peek?_eq_head?, hstack]
  | isEmpty name | contains name => simp [answer, answerAlone, Request.name, isBound_eq]

/-- A request changes the stack of no other name. -/
theorem answer_other (s : Scope) {r : Request} {name : Text} (h : r.name ≠ name) :
    (s.answer r).2.stack name = s.stack name := by
  cases r with
  | push x v => exact (stack_push s x name v).trans (if_neg h)
  | pop x =>
    simp only [answer, pop?]
    cases s.peek? x with
    | none => rfl
    | some v => exact (stack_drop s x name).trans (if_neg h)
  | peek x =>
    simp only [answer]
    cases s.peek? x <;> rfl
  | isEmpty x | contains x => rfl

/-! ## Runs -/

/-- What a run has about a name, and what the name is bound to after it, is the run of the
stack of this name alone. -/
theorem run_project (name : Text) (requests : List Request) :
    ∀ s : Scope,
      let alone := run (answerAlone name) (s.stack name) (about name requests)
      recordAbout name (run answer s requests).1 = alone.1 ∧
        (run answer s requests).2.stack name = alone.2 := by
  induction requests with
  | nil => exact fun s => ⟨rfl, rfl⟩
  | cons r requests ih =>
    intro s
    obtain ⟨hrecord, hafter⟩ := ih (s.answer r).2
    by_cases hr : r.name = name
    · subst hr
      obtain ⟨hreply, hstack⟩ := answer_own s r
      rw [hstack] at hrecord hafter
      rw [about_cons, if_pos rfl]
      simp only [run, recordAbout_cons, if_pos, hreply]
      exact ⟨congrArg _ hrecord, hafter⟩
    · rw [answer_other s hr] at hrecord hafter
      rw [about_cons, if_neg hr]
      simp only [run, recordAbout_cons, if_neg hr]
      exact ⟨hrecord, hafter⟩

/-- Scopes with the same stacks answer alike. -/
theorem run_congr (requests : List Request) :
    ∀ {s t : Scope}, (∀ name, s.stack name = t.stack name) →
      (run answer s requests).1 = (run answer t requests).1 := by
  induction requests with
  | nil => exact fun _ => rfl
  | cons r requests ih =>
    intro s t h
    obtain ⟨hs, hs'⟩ := answer_own s r
    obtain ⟨ht, ht'⟩ := answer_own t r
    have hsame (name : Text) : (s.answer r).2.stack name = (t.answer r).2.stack name := by
      by_cases hr : r.name = name
      · subst hr
        rw [hs', ht', h]
      · rw [answer_other s hr, answer_other t hr, h]
    simp only [run, hs, ht, h, ih hsame]

/-- **Names are independent.** In every run of requests, what is answered about a name, and
what it is bound to in the end, is what a stack of its own gives that gets the requests
about this name only: one whose top is the value pushed last, and of which an empty one fails
to pop and to peek, by the name, without a change. So the requests can be mixed in any way
that keeps those about each name in order: each of them is answered as before, and no
request that follows can tell the difference. -/
theorem names_independent (s : Scope) (requests : List Request) :
    (∀ name,
      let alone := run (answerAlone name) (s.stack name) (about name requests)
      recordAbout name (run answer s requests).1 = alone.1 ∧
        (run answer s requests).2.stack name = alone.2) ∧
    ∀ others, (∀ name, about name others = about name requests) →
      (∀ name, recordAbout name (run answer s others).1 =
        recordAbout name (run answer s requests).1) ∧
      ∀ later, (run answer (run answer s others).2 later).1 =
        (run answer (run answer s requests).2 later).1 := by
  refine ⟨fun name => run_project name requests s, fun others hmixed => ?_⟩
  constructor
  · intro name
    rw [(run_project name others s).1, (run_project name requests s).1, hmixed name]
  · intro later
    refine run_congr later fun name => ?_
    rw [(run_project name others s).2, (run_project name requests s).2, hmixed name]

/-- Two nested loops over `i` beside a binding of `j`, which may as well be made before. -/
theorem names_independent_shadowed :
    let one : Number := .integer 1
    let two : Number := .integer 2
    let requests : List Request :=
      [.push "i" one, .peek "j", .push "i" two, .push "j" one, .pop "i", .peek "i", .pop "i",
        .pop "i", .isEmpty "i", .contains "j"]
    let others : List Request :=
      [.peek "j", .push "j" one, .contains "j", .push "i" one, .push "i" two, .pop "i",
        .peek "i", .pop "i", .pop "i", .isEmpty "i"]
    let replies (name : Text) := (recordAbout name (run answer .empty others).1).map (·.2)
    (∀ name, about name others = about name requests) ∧
      recordAbout "i" (run answer .empty requests).1 =
        (run (answerAlone "i") [] (about "i" requests)).1 ∧
      replies "i" = [.done, .done, .value two, .value one, .value one,
        .fault (.unknownName "i"), .flag true] ∧
      replies "j" = [.fault (.unknownName "j"), .done, .flag true] ∧
      (run answer (run answer .empty others).2 [.pop "j"]).1 =
        (run answer (run answer .empty requests).2 [.pop "j"]).1 := by
  intro one two requests others replies
  obtain ⟨halone, hmix⟩ := names_independent .empty requests
  have hmixed (name : Text) : about name others = about name requests := by
    by_cases hi : "i" = name
    · subst hi; rfl
    · by_cases hj : "j" = name
      · subst hj; rfl
      · simp [about, others, requests, Request.name, hi, hj]
  obtain ⟨hrecord, hlater⟩ := hmix others hmixed
  have hi : replies "i" = (recordAbout "i" (run answer .empty requests).1).map (·.2) :=
    congrArg (List.map (·.2)) (hrecord "i")
  have hj : replies "j" = (recordAbout "j" (run answer .empty requests).1).map (·.2) :=
    congrArg (List.map (·.2)) (hrecord "j")
  refine ⟨hmixed, (halone "i").1, ?_, ?_, hlater _⟩
  · rw [hi, (halone "i").1]
    rfl
  · rw [hj, (halone "j").1]
    rfl

end TagTemplate.Scope
