/-
No run of a tree leaves anything behind in the scope of its engine, whether it ends
well or fails anywhere in the tree. So between the requests of a session an engine is
outside of all loops, and `scope_discipline` says that a host can put in or leave out
a new engine at any point without seeing a difference.
-/
import TagTemplate.Proofs.Engine.Lexical
import TagTemplate.Session

namespace TagTemplate.Engine

/-- The engine after a run, whether it ended well or failed. -/
def after (r : Run α) (e : Engine) : Engine :=
  match r e with
  | .ok _ e => e
  | .error _ e => e

/-! ## One run -/

theorem Agrees.after {scope : Scope} {depth : Nat} {x : Run α} {y : Lexical.Steps α}
    (h : Agrees scope depth x y) (sink : Sink) :
    ∃ sink', after x ⟨sink, scope, depth⟩ = ⟨sink', scope, depth⟩ := by
  simp only [Engine.after, h sink]
  cases y sink with
  | ok _ s => exact ⟨s, rfl⟩
  | error _ s => exact ⟨s, rfl⟩

/-- A run of a tree changes nothing but the sink. -/
theorem after_visit (limit : Nat) (node : Node) (e : Engine) :
    ∃ sink, after (visit limit node) e = ⟨sink, e.scope, e.depth⟩ :=
  (visit_eq_lexical limit e.scope e.depth node).after e.sink

/-! ## Runs from outside of all loops -/

/-- A run that leaves an engine outside of all loops where it was so before. -/
def StaysOutside (r : Run α) : Prop :=
  ∀ sink, ∃ sink', after r (onSink sink) = onSink sink'

namespace StaysOutside

theorem of_agrees {x : Run α} {y : Lexical.Steps α} (h : Agrees .empty 0 x y) : StaysOutside x :=
  fun sink => h.after sink

theorem pure (a : α) : StaysOutside (Pure.pure a : Run α) := fun sink => ⟨sink, rfl⟩

theorem bind {x : Run α} {f : α → Run β} (hx : StaysOutside x) (hf : ∀ a, StaysOutside (f a)) :
    StaysOutside (x >>= f) := by
  intro sink
  obtain ⟨s, hs⟩ := hx sink
  simp only [after, Bind.bind, EStateM.bind] at hs ⊢
  cases hr : x (onSink sink) with
  | ok a e =>
    rw [hr] at hs
    subst hs
    exact hf a s
  | error halt e =>
    rw [hr] at hs
    exact ⟨s, hs⟩

theorem act (a : Scope → Action α) : StaysOutside (Engine.act a) := of_agrees (.act a)

theorem lift (r : Except Fault α) : StaysOutside (Engine.lift r) := of_agrees (.lift r)

theorem visit (limit : Nat) (node : Node) : StaysOutside (Engine.visit limit node) :=
  of_agrees (visit_eq_lexical limit .empty 0 node)

theorem execute (limit : Nat) (node : Node) : StaysOutside (Engine.execute limit node) :=
  fun sink => visit limit node sink

theorem render (limit : Nat) (text : Text) : StaysOutside (Engine.render limit text) :=
  .bind (.lift _) fun node => execute limit node

theorem change (f : Sink → Sink) : StaysOutside (Session.answer.change f) :=
  .bind (.act _) fun _ => .pure none

end StaysOutside

/-! ## Sessions -/

/-- Every request finds and leaves the engine outside of all loops. -/
theorem staysOutside_answer (limit : Nat) (r : Session.Request) :
    StaysOutside (Session.answer limit r) := by
  cases r with
  | render text => exact .bind (.render limit text) fun _ => .pure none
  | execute node => exact .bind (.execute limit node) fun _ => .pure none
  | visit node => exact .bind (.visit limit node) fun _ => .pure none
  | visitText text =>
    exact .bind (.lift _) fun node => .bind (.visit limit node) fun _ => .pure none
  | engine => exact fun sink => ⟨sink, rfl⟩
  | request parameters => exact fun sink => ⟨_, rfl⟩
  | write text => exact .bind (.act _) fun _ => .pure none
  | getValue => exact fun sink => StaysOutside.lift (some <$> sink.contents) sink
  | getParameter name => exact .act fun _ => .read (·.parameter? name)
  | getPersistent name => exact .act fun _ => Sink.readPersistent name
  | getTemporary name => exact .act fun _ => .read (·.temporary? name)
  | writeBytes bytes => exact .change (Sink.append bytes)
  | setPersistent name value => exact .change (Sink.setPersistent name value)
  | setTemporary name value => exact .change (Sink.setTemporary name value)
  | erasePersistent name => exact .change (Sink.erasePersistent name)
  | eraseTemporary name => exact .change (Sink.eraseTemporary name)
  | setMime mime => exact .change (Sink.setMime mime)

theorem step_onSink (limit : Nat) (sink : Sink) (r : Session.Request) :
    ∃ sink', (Session.step limit (onSink sink) r).2 = onSink sink' := by
  obtain ⟨s, hs⟩ := staysOutside_answer limit r sink
  refine ⟨s, ?_⟩
  simp only [Session.step]
  simp only [after] at hs
  split at hs <;> simp_all

/-- On an engine that is outside of all loops, a new engine is the engine itself. -/
theorem step_engine (limit : Nat) (sink : Sink) :
    Session.step limit (onSink sink) .engine = (.ok none, onSink sink) := rfl

theorem steps_insert_engine (limit : Nat) (later : List Session.Request) :
    ∀ (before : List Session.Request) (sink : Sink),
      (Session.steps limit (onSink sink) (before ++ .engine :: later)).eraseIdx before.length =
        Session.steps limit (onSink sink) (before ++ later)
  | [], sink => by
    simp only [List.nil_append, Session.steps, step_engine, List.length_nil,
      List.eraseIdx_cons_zero]
  | r :: before, sink => by
    obtain ⟨s, hs⟩ := step_onSink limit sink r
    simp only [List.cons_append, Session.steps, List.length_cons, List.eraseIdx_cons_succ, hs,
      steps_insert_engine limit later before s]

/-- **A run leaves the scope as it was**: whenever a node has been run on an engine in any
state, ending well or with a fault, every name has the same stack of values as before, and
as many loops are open. So, at any place of any session, a request for a new engine on the
same sink changes no answer, no output and no state of the requests after it: the record
of the session is the one without it, but for its own entry. -/
theorem scope_discipline (limit : Nat) :
    (∀ (node : Node) (e : Engine),
      (∀ name, (after (visit limit node) e).scope.stack name = e.scope.stack name) ∧
        (after (visit limit node) e).depth = e.depth) ∧
    ∀ (sink : Sink) (before later : List Session.Request),
      (Session.steps limit (onSink sink) (before ++ .engine :: later)).eraseIdx before.length =
        Session.steps limit (onSink sink) (before ++ later) := by
  refine ⟨fun node e => ?_, fun sink before later => steps_insert_engine limit later before sink⟩
  obtain ⟨sink, hsink⟩ := after_visit limit node e
  rw [hsink]
  exact ⟨fun _ => rfl, rfl⟩

end TagTemplate.Engine
