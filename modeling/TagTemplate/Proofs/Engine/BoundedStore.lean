/-
A template does not see that its persistent store is bounded until there are too many entries.
Two sessions go in step, one on a plain store and one on a bounded store with the same entries,
as long as the plain store has at no time more entries than the other has room for.

Which names a run sets is computed on the way, and a run may set entries and delete them
before it ends. So the times are those of the plain run itself: between the requests, and
after each token that a run evaluates (`Session.Holds`).
-/
import TagTemplate.Proofs.Engine.Evaluation
import TagTemplate.Proofs.Engine.Isolation
import TagTemplate.Proofs.Store.Refinement
import TagTemplate.Proofs.Steps
import TagTemplate.Session

namespace TagTemplate

/-- A store with so many entries at most. -/
def Store.Fits (capacity : Int) (s : Store) : Prop := (s.entries.length : Int) ≤ capacity

/-- Two sinks that differ in their stores only, a plain one and a bounded one with the same
entries. -/
inductive Sink.Refines (capacity : Int) (s : Sink) : Sink → Prop
  | intro {store : Store} : Store.Refines capacity s.persistent store →
      Refines capacity s { s with persistent := store }

variable {capacity : Int}

/-! ## Tokens -/

/-- What has nothing to do with the store goes in step. -/
theorem InStep.refines {ε α : Type} {x : EStateM ε Sink α}
    (h : ∀ own own', InStep (Sink.Part.persistent.Apart own own') x) :
    InStep (Sink.Refines capacity) x := by
  rintro s _ (@⟨store, hstore⟩)
  refine (h s { s with persistent := store } s _ ⟨Sink.Part.copy_self _ s, rfl⟩).mono
    fun s₁ s₁' ⟨h₁, h₁'⟩ => ?_
  have hkept : (Sink.Part.persistent.copy s s₁).persistent = s₁.persistent := by rw [h₁]
  subst h₁'
  exact ⟨hkept ▸ hstore⟩

theorem readPersistent_refines {s s' : Sink} (h : Sink.Refines capacity s s') (name : Text) :
    SameEnd (Sink.Refines capacity) (Sink.readPersistent name s) (Sink.readPersistent name s') := by
  obtain ⟨hstore⟩ := h
  obtain ⟨hvalue, hread⟩ := hstore.read name
  simp only [Sink.readPersistent]
  rw [hvalue]
  exact .ok ⟨hread⟩

theorem call_refines {token : Token} {stack : Stack} {b : Builtin} {s s' : Sink}
    (h : Sink.Refines capacity s s')
    (hfits : (endState (b.call token stack s)).persistent.Fits capacity) :
    SameEnd (Sink.Refines capacity) (b.call token stack s) (b.call token stack s') := by
  have hstep := InStep.compositional Fault (Sink.Refines capacity)
  cases b with
  | persistentGet =>
    exact hstep.lookUp (fun name _ _ h => readPersistent_refines h name) token stack s s' h
  | persistentSet =>
    simp only [Builtin.call, Builtin.changeByTwo] at hfits ⊢
    refine (hstep.ofExcept _ s s' h).bind fun name s₁ s₁' hname h₁ => ?_
    rw [bind_of_ok hname] at hfits
    refine (hstep.ofExcept _ s₁ s₁' h₁).bind fun value s₂ s₂' hvalue h₂ => ?_
    rw [bind_of_ok hvalue] at hfits
    obtain ⟨hstore⟩ := h₂
    exact .ok ⟨hstore.insert hfits⟩
  | persistentDel =>
    refine hstep.changeBy (fun name s₁ _ h₁ => ?_) token stack s s' h
    obtain ⟨hstore⟩ := h₁
    exact .ok ⟨hstore.erase name⟩
  | sin | decfmt | dup | swap | setMimeType | paramGet | temporaryGet | temporarySet
  | temporaryDel => exact InStep.refines (fun own own' => .call token stack (by decide)) s s' h

/-- A token that leaves the plain store with few enough entries. -/
theorem act_refines {lookup : Echo.Lookup} {stack : Stack} {token : Token} {s s' : Sink}
    (h : Sink.Refines capacity s s')
    (hfits : (endState (Echo.act lookup stack token s)).persistent.Fits capacity) :
    SameEnd (Sink.Refines capacity) (Echo.act lookup stack token s)
      (Echo.act lookup stack token s') := by
  cases token with
  | function name =>
    cases hb : Builtin.ofName? name with
    | some b =>
      simp only [Echo.act, hb] at hfits ⊢
      exact call_refines h hfits
    | none =>
      simp only [Echo.act, hb]
      exact .ok h
  | operator | loopVariable | integer | double | text =>
    exact InStep.refines (fun own own' => .act lookup stack fun _ _ => rfl) s s' h

theorem evaluate_refines {lookup : Echo.Lookup} {tokens : List Token} :
    ∀ {stack : Stack} {s s' : Sink}, Sink.Refines capacity s s' →
      (∀ before token after stack₁ s₁, tokens = before ++ token :: after →
        Echo.evaluate lookup stack before s = .ok stack₁ s₁ →
        (endState (Echo.act lookup stack₁ token s₁)).persistent.Fits capacity) →
      SameEnd (Sink.Refines capacity) (Echo.evaluate lookup stack tokens s)
        (Echo.evaluate lookup stack tokens s') := by
  induction tokens with
  | nil => exact fun h _ => .ok h
  | cons token tokens ih =>
    intro stack s s' h hfits
    rw [Echo.evaluate, List.foldlM_cons]
    have hfirst := act_refines h (hfits [] token tokens stack s rfl rfl)
    refine hfirst.bind fun stack₁ s₁ s₁' hact h₁ => ?_
    refine ih h₁ fun before t after stack₂ s₂ htokens hbefore => ?_
    refine hfits (token :: before) t after stack₂ s₂ (by rw [htokens]; rfl) ?_
    rw [Echo.evaluate, List.foldlM_cons]
    exact (bind_of_ok hact).trans hbefore

/-! ## Trees -/

namespace Engine

/-- A run of the node holds the store: some token that it evaluates leaves it so. -/
inductive Holds (limit : Nat) (node : Node) (e : Engine) : Store → Prop
  | intro {token : Token} {stack : Stack} {e₁ : Engine} {loops : List (Text × Number)} :
      Evaluates limit token stack e₁ node e loops →
      Holds limit node e (endState (Echo.act e₁.scope.peek? stack token e₁.sink)).persistent

theorem Holds.echo {limit : Nat} {tokens : List Token} {e : Engine} {store : Store}
    (h : Holds limit (.echo tokens) e store) :
    ∃ before token after stack s, before ++ token :: after = tokens ∧
      Echo.evaluate e.scope.peek? [] before e.sink = .ok stack s ∧
      store = (endState (Echo.act e.scope.peek? stack token s)).persistent := by
  obtain ⟨heval⟩ := h
  cases heval with
  | echo hbefore he =>
    subst he
    exact ⟨_, _, _, _, _, rfl, hbefore, rfl⟩

theorem sameEnd_act {R : Sink → Sink → Prop} (a : Scope → Action α) {e e' : Engine}
    (h : Beside R e e') (ha : SameEnd R (a e.scope e.sink) (a e.scope e'.sink)) :
    SameEnd (Beside R) (act a e) (act a e') := by
  obtain ⟨sink, scope, depth⟩ := e
  obtain ⟨sink', _, _⟩ := e'
  obtain ⟨rfl, rfl, -⟩ := h
  rw [Agrees.act a sink, Agrees.act a sink']
  exact sameEnd_resume scope depth ha.lexicalAct

theorem sameEnd_advance {R : Sink → Sink → Prop} {e e' : Engine} (h : Beside R e e')
    (name : Text) (step : Number) :
    SameEnd (Beside R) (advance name step e) (advance name step e') := by
  obtain ⟨sink, scope, depth⟩ := e
  obtain ⟨sink', _, _⟩ := e'
  obtain ⟨rfl, rfl, hsink⟩ := h
  simp only [advance]
  cases scope.pop? name with
  | none => exact .error ⟨rfl, rfl, hsink⟩
  | some popped => exact .ok ⟨rfl, rfl, hsink⟩

/-- The passes of a loop go in step if its body does so wherever a pass begins. -/
theorem sameEnd_passes {R : Sink → Sink → Prop} {P : Engine → Prop} {name : Text}
    {stop step : Number} {body : Run Unit}
    (hbody : ∀ e e', Beside R e e' → P e → SameEnd (Beside R) (body e) (body e')) (limit : Nat) :
    ∀ {current : Number} {e e' : Engine}, Beside R e e' →
      (∀ v e₁, BeginsPass name stop step body limit current e v e₁ → P e₁) →
      SameEnd (Beside R) (passes name stop step body limit current e)
        (passes name stop step body limit current e') := by
  induction limit with
  | zero =>
    intro current e e' h _
    rw [passes]
    split
    · exact .ok h
    · exact .error h
  | succ limit ih =>
    intro current e e' h hP
    rw [passes]
    split
    · exact .ok h
    · next hc =>
      refine (hbody e e' h (hP current e (.here hc))).bind fun _ e₁ e₁' hb h₁ => ?_
      refine (sameEnd_advance h₁ name step).bind fun next e₂ e₂' ha h₂ => ?_
      exact ih h₂ fun v e₃ hp => hP v e₃ (.later hc hb ha hp)

theorem Beside.bind {R : Sink → Sink → Prop} {e e' : Engine} (h : Beside R e e') (name : Text)
    (v : Number) : Beside R (e.bind name v) (e'.bind name v) :=
  ⟨congrArg (·.push name v) h.scope, congrArg (· + 1) h.depth, h.sink⟩

theorem sameEnd_release {R : Sink → Sink → Prop} {r r' : EStateM.Result Halt Engine α}
    (h : SameEnd (Beside R) r r') (name : Text) :
    SameEnd (Beside R) (release name r) (release name r') := by
  have hunbind {e e' : Engine} (h : Beside R e e') : Beside R (e.unbind name) (e'.unbind name) :=
    ⟨congrArg (·.drop name) h.scope, congrArg (· - 1) h.depth, h.sink⟩
  cases h with
  | ok h => exact .ok (hunbind h)
  | error h => exact .error (hunbind h)

mutual

/-- **A run of a node goes in step on both stores**, as long as the plain one has few enough
entries whenever the run holds it. -/
theorem visit_refines {limit : Nat} :
    ∀ {node : Node} {e e' : Engine}, Beside (Sink.Refines capacity) e e' →
      (∀ store, Holds limit node e store → store.Fits capacity) →
      SameEnd (Beside (Sink.Refines capacity)) (visit limit node e) (visit limit node e')
  | .document children, e, e', h, hfits => by
    rw [visit]
    exact visitAll_refines h hfits
  | .text content, e, e', h, _ => by
    rw [visit]
    exact sameEnd_act _ h (InStep.refines (fun _ _ => .write content) _ _ h.sink)
  | .echo tokens, e, e', h, hfits => by
    rw [visit]
    refine sameEnd_act _ h ?_
    have heval : SameEnd (Sink.Refines capacity) (Echo.evaluate e.scope.peek? [] tokens e.sink)
        (Echo.evaluate e.scope.peek? [] tokens e'.sink) := by
      refine evaluate_refines h.sink fun before token after stack s htokens hbefore => ?_
      subst htokens
      exact hfits _ (.intro (.echo hbefore rfl))
    refine heval.bind fun stack s s' _ hs => ?_
    exact InStep.refines (fun _ _ => (InStep.compositional Fault _).writeAll InStep.write _) s s' hs
  | .loop header children, e, e', h, hfits => by
    rw [visit]
    cases hb : bounds header with
    | error f =>
      rw [Engine.loop, bind_of_error (lift_error hb e), bind_of_error (lift_error hb e')]
      exact .error h
    | ok b =>
      obtain ⟨start, stop, step⟩ := b
      by_cases hn : stop.isNaN = true
      · rw [Engine.loop, bind_of_ok (lift_ok hb e), bind_of_ok (lift_ok hb e')]
        simp only [hn, if_true]
        exact .ok h
      · rw [Bool.not_eq_true] at hn
        rw [loop_eq_release limit _ e hb hn, loop_eq_release limit _ e' hb hn]
        refine sameEnd_release (sameEnd_passes (fun e e' h hP => visitAll_refines h hP) limit
          (h.bind header.name start) fun v e₁ hp store hstore => ?_) header.name
        obtain ⟨heval⟩ := hstore
        exact hfits _ (.intro (.loop hb hn hp heval))

theorem visitAll_refines {limit : Nat} :
    ∀ {nodes : List Node} {e e' : Engine}, Beside (Sink.Refines capacity) e e' →
      (∀ store, Holds limit (.document nodes) e store → store.Fits capacity) →
      SameEnd (Beside (Sink.Refines capacity)) (visitAll limit nodes e) (visitAll limit nodes e')
  | [], e, e', h, _ => by
    rw [visitAll]
    exact .ok h
  | node :: nodes, e, e', h, hfits => by
    rw [visitAll]
    have hnil : visitAll limit [] e = .ok () e := by
      rw [visitAll]
      rfl
    refine (visit_refines h fun store hstore => ?_).bind fun _ e₁ e₁' hv h₁ =>
      visitAll_refines h₁ fun store hstore => ?_
    · obtain ⟨heval⟩ := hstore
      exact hfits _ (.intro (.child hnil heval))
    · obtain ⟨heval⟩ := hstore
      exact hfits _ (.intro (heval.cons hv))

end

end Engine

/-! ## Sessions -/

namespace Session

open Engine

/-- A request to an engine is one to run the node on an engine. -/
inductive Runs (e : Engine) : Request → Node → Engine → Prop
  | render {text : Text} {node : Node} :
      Node.parse text = .ok node → Runs e (.render text) node (.onSink e.sink)
  | execute {node : Node} : Runs e (.execute node) node (.onSink e.sink)
  | visit {node : Node} : Runs e (.visit node) node e
  | visitText {text : Text} {node : Node} :
      Node.parse text = .ok node → Runs e (.visitText text) node e

/-- A session that begins on the engine holds the store at some time: before or after a
request, or during one that runs a node. -/
inductive Holds (limit : Nat) : Engine → List Request → Store → Prop
  | now {e : Engine} {requests : List Request} : Holds limit e requests e.sink.persistent
  | during {e e₀ : Engine} {r : Request} {requests : List Request} {node : Node} {store : Store} :
      Runs e r node e₀ → Engine.Holds limit node e₀ store → Holds limit e (r :: requests) store
  | later {e : Engine} {r : Request} {requests : List Request} {store : Store} :
      Holds limit (step limit e r).2 requests store → Holds limit e (r :: requests) store

/-- One request goes in step on both stores, as long as the plain one has few enough entries
during it and after it. -/
theorem answer_refines {limit : Nat} {r : Request} {e e' : Engine}
    (h : Beside (Sink.Refines capacity) e e')
    (hduring : ∀ node e₀ store, Runs e r node e₀ → Engine.Holds limit node e₀ store →
      store.Fits capacity)
    (hafter : (step limit e r).2.sink.persistent.Fits capacity) :
    SameEnd (Beside (Sink.Refines capacity)) (answer limit r e) (answer limit r e') := by
  have hfresh : Beside (Sink.Refines capacity) (.onSink e.sink) (.onSink e'.sink) :=
    ⟨rfl, rfl, h.sink⟩
  have hnone {x : Run Unit} (hx : SameEnd (Beside (Sink.Refines capacity)) (x e) (x e')) :
      SameEnd (Beside (Sink.Refines capacity)) ((x >>= fun _ => pure (none : Option Text)) e)
        ((x >>= fun _ => pure (none : Option Text)) e') := hx.bind fun _ _ _ _ h₁ => .ok h₁
  obtain ⟨sink, scope, depth⟩ := e
  obtain ⟨sink', _, _⟩ := e'
  obtain ⟨rfl, rfl, hsink⟩ := id h
  cases r with
  | render text =>
    refine hnone ?_
    cases hparse : Node.parse text with
    | error f =>
      rw [render, bind_of_error (lift_error hparse _), bind_of_error (lift_error hparse _)]
      exact .error h
    | ok node =>
      rw [render, bind_of_ok (lift_ok hparse _), bind_of_ok (lift_ok hparse _)]
      exact visit_refines hfresh fun store => hduring node _ store (.render hparse)
  | execute node => exact hnone (visit_refines hfresh fun store => hduring node _ store .execute)
  | visit node => exact hnone (visit_refines h fun store => hduring node _ store .visit)
  | visitText text =>
    cases hparse : Node.parse text with
    | error f =>
      rw [answer, bind_of_error (lift_error hparse _), bind_of_error (lift_error hparse _)]
      exact .error h
    | ok node =>
      rw [answer, bind_of_ok (lift_ok hparse _), bind_of_ok (lift_ok hparse _)]
      exact hnone (visit_refines h fun store => hduring node _ store (.visitText hparse))
  | write text =>
    exact hnone (sameEnd_act (fun _ => Sink.write text) h
      (InStep.refines (fun _ _ => .write text) _ _ hsink))
  | getPersistent name =>
    exact sameEnd_act (fun _ => Sink.readPersistent name) h (readPersistent_refines hsink name)
  | engine => exact .ok hfresh
  | request parameters =>
    obtain ⟨hstore⟩ := hsink
    exact .ok ⟨rfl, rfl, ⟨hstore⟩⟩
  | getValue =>
    obtain ⟨hstore⟩ := hsink
    show SameEnd _ (Engine.lift (some <$> sink.contents) _) (Engine.lift (some <$> sink.contents) _)
    cases sink.contents with
    | error f => exact .error h
    | ok text => exact .ok h
  | setPersistent name value =>
    obtain ⟨hstore⟩ := hsink
    exact .ok ⟨rfl, rfl, ⟨hstore.insert hafter⟩⟩
  | erasePersistent name =>
    obtain ⟨hstore⟩ := hsink
    exact .ok ⟨rfl, rfl, ⟨hstore.erase name⟩⟩
  | getParameter | getTemporary | writeBytes | setTemporary | eraseTemporary | setMime =>
    obtain ⟨hstore⟩ := hsink
    exact .ok ⟨rfl, rfl, ⟨hstore⟩⟩

theorem step_refines (limit : Nat) (r : Request) {e e' : Engine}
    (h : Beside (Sink.Refines capacity) e e')
    (hduring : ∀ node e₀ store, Runs e r node e₀ → Engine.Holds limit node e₀ store →
      store.Fits capacity)
    (hafter : (step limit e r).2.sink.persistent.Fits capacity) :
    (step limit e r).1 = (step limit e' r).1 ∧
      Beside (Sink.Refines capacity) (step limit e r).2 (step limit e' r).2 := by
  have hend := answer_refines h hduring hafter
  simp only [step]
  cases hr : answer limit r e <;> cases hr' : answer limit r e' <;> rw [hr, hr'] at hend <;>
    cases hend <;> exact ⟨rfl, ‹_›⟩

/-- The requests of a session one after another. -/
theorem steps_refine {limit : Nat} {requests : List Request} {e e' : Engine}
    (h : Beside (Sink.Refines capacity) e e')
    (hfits : ∀ store, Holds limit e requests store → store.Fits capacity) :
    List.Forall₂ (fun p p' => p.1 = p'.1 ∧ Beside (Sink.Refines capacity) p.2 p'.2)
      (steps limit e requests) (steps limit e' requests) := by
  induction requests generalizing e e' with
  | nil => exact .nil
  | cons r requests ih =>
    obtain ⟨hresult, hnext⟩ := step_refines limit r h
      (fun node e₀ store hr hstore => hfits store (.during hr hstore)) (hfits _ (.later .now))
    exact .cons ⟨hresult, hnext⟩ (ih hnext fun store hstore => hfits store (.later hstore))

/-- **A bounded store is a plain one until it overflows.** Two sessions with the same requests
begin on sinks that differ in their stores only, a plain one and one of some capacity, both
seeded with the same pairs. If the plain session holds at no time a store with more entries
than the capacity, the two sessions give the same answer to every request, and after every
request they have written the same and have the same kind of document, the same temporary
parameters, and the same entries in their stores. -/
theorem bounded_refines_plain (limit : Nat) (capacity : Int) (s : Sink)
    (pairs : List (Text × Text)) (requests : List Request) :
    let plain := { s with persistent := (Store.unbounded []).insertAll pairs }
    let bounded := { s with persistent := (Store.bounded (.empty capacity)).insertAll pairs }
    (∀ store, Holds limit (onSink plain) requests store →
      (store.entries.length : Int) ≤ capacity) →
    List.Forall₂ (fun p p' => p'.1 = p.1 ∧ p'.2.sink.output = p.2.sink.output ∧
        p'.2.sink.mime = p.2.sink.mime ∧ p'.2.sink.temporary = p.2.sink.temporary ∧
        p'.2.sink.persistent.entries.Perm p.2.sink.persistent.entries)
      (steps limit (onSink plain) requests) (steps limit (onSink bounded) requests) := by
  intro plain bounded hfits
  have hseeded : (plain.persistent.entries.length : Int) ≤ capacity := hfits _ .now
  have hcapacity : 0 ≤ capacity := Int.le_trans (Int.natCast_nonneg _) hseeded
  have hbegin : Beside (Sink.Refines capacity) (onSink plain) (onSink bounded) :=
    ⟨rfl, rfl, ⟨(Store.Refines.empty hcapacity).insertAll hseeded⟩⟩
  refine (steps_refine hbegin hfits).imp fun p p' ⟨hresult, hnext⟩ => ?_
  obtain ⟨result, sink, scope, depth⟩ := p
  obtain ⟨result', sink', _, _⟩ := p'
  obtain ⟨rfl, rfl, ⟨hstore⟩⟩ := hnext
  exact ⟨hresult.symm, rfl, rfl, rfl, hstore.entries_perm⟩

/-- Room for two: an echo makes room for the entry that is set after it. -/
theorem bounded_refines_plain_two :
    let s : Sink := .fresh .utf8 true [] (.unbounded [])
    let pairs : Entries := [("a", "1"), ("b", "2")]
    let echo : Node := .echo [.text "b", .function "PParamDel"]
    let requests : List Request := [.getPersistent "a", .execute echo, .setPersistent "c" "3"]
    let plain := { s with persistent := (Store.unbounded []).insertAll pairs }
    let bounded := { s with persistent := (Store.bounded (.empty 2)).insertAll pairs }
    (∀ store, Holds 1 (onSink plain) requests store → (store.entries.length : Int) ≤ 2) ∧
      List.Forall₂ (fun p p' => p'.1 = p.1 ∧ p'.2.sink.output = p.2.sink.output ∧
          p'.2.sink.mime = p.2.sink.mime ∧ p'.2.sink.temporary = p.2.sink.temporary ∧
          p'.2.sink.persistent.entries.Perm p.2.sink.persistent.entries)
        (steps 1 (onSink plain) requests) (steps 1 (onSink bounded) requests) ∧
      ((steps 1 (onSink bounded) requests).map fun p => p.2.sink.persistent.entries) =
        ([[("b", "2"), ("a", "1")], [("a", "1")], [("a", "1"), ("c", "3")]] :
          List Entries) := by
  intro s pairs echo requests plain bounded
  have hfits : ∀ store, Holds 1 (onSink plain) requests store →
      (store.entries.length : Int) ≤ 2 := by
    intro store hstore
    change Holds 1 _ [_, _, _] store at hstore
    cases hstore with
    | now => decide
    | during hr _ => cases hr
    | later hstore =>
      cases hstore with
      | now => decide
      | during hr hstore =>
        cases hr
        obtain ⟨before, token, after, stack, sink, htokens, hbefore, rfl⟩ := hstore.echo
        rcases before with _ | ⟨t₁, _ | ⟨t₂, before⟩⟩ <;>
          simp only [List.cons_append, List.nil_append, List.cons.injEq, reduceCtorEq,
            List.append_eq_nil_iff, and_false] at htokens
        · obtain ⟨rfl, -⟩ := htokens
          cases hbefore
          decide +kernel
        · obtain ⟨rfl, rfl, -⟩ := htokens
          cases hbefore
          decide +kernel
      | later hstore =>
        cases hstore with
        | now => decide +kernel
        | during hr _ => cases hr
        | later hstore =>
          cases hstore
          decide +kernel
  exact ⟨hfits, bounded_refines_plain 1 2 s pairs requests hfits, by decide +kernel⟩

end Session

end TagTemplate
