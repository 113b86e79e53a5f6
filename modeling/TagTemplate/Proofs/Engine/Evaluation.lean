/-
Which tokens a run evaluates, and in which loops. `Evaluates` follows a run of the engine
down to one token: the nodes before it end well, and each loop around it has come to
a pass with some value of its variable. `lexical_scoping` then says what a loop
variable stands for at that place: the value of the innermost of these loops that has
its name; and that a run ends for want of a binding exactly at a variable around which
no loop has the name.
-/
import TagTemplate.Proofs.Engine.FaultOrigin
import TagTemplate.Proofs.Engine.Lexical
import TagTemplate.Proofs.Steps

namespace TagTemplate.Engine

/-- A loop that stands at the value `current` with the engine `e` comes to begin a pass at
the value `v` with the engine `e'`: at once, or after some passes that end well. -/
inductive BeginsPass (name : Text) (stop step : Number) (body : Run Unit) :
    Nat → Number → Engine → Number → Engine → Prop
  | here {limit : Nat} {current : Number} {e : Engine} :
      current.order stop ≠ .gt → BeginsPass name stop step body (limit + 1) current e current e
  | later {limit : Nat} {current next v : Number} {e e₁ e₂ e' : Engine} :
      current.order stop ≠ .gt → body e = .ok () e₁ → advance name step e₁ = .ok next e₂ →
      BeginsPass name stop step body limit next e₂ v e' →
      BeginsPass name stop step body (limit + 1) current e v e'

/-- Running a node on the engine `e` comes to evaluate the token, with this stack and on the
engine `e'`, inside `loops`: the loops of the node that are around the token, innermost
first, each with the value that its variable has in the pass. -/
inductive Evaluates (limit : Nat) (token : Token) (stack : Stack) (e' : Engine) :
    Node → Engine → List (Text × Number) → Prop
  | echo {before after : List Token} {e : Engine} {sink : Sink} :
      Echo.evaluate e.scope.peek? [] before e.sink = .ok stack sink →
      e' = ⟨sink, e.scope, e.depth⟩ →
      Evaluates limit token stack e' (.echo (before ++ token :: after)) e []
  | child {before after : List Node} {node : Node} {e e₁ : Engine}
      {loops : List (Text × Number)} :
      visitAll limit before e = .ok () e₁ → Evaluates limit token stack e' node e₁ loops →
      Evaluates limit token stack e' (.document (before ++ node :: after)) e loops
  | loop {header : Loop} {children : List Node} {start stop step v : Number} {e e₁ : Engine}
      {loops : List (Text × Number)} :
      bounds header = .ok (start, stop, step) → stop.isNaN = false →
      BeginsPass header.name stop step (visitAll limit children) limit start
        (e.bind header.name start) v e₁ →
      Evaluates limit token stack e' (.document children) e₁ loops →
      Evaluates limit token stack e' (.loop header children) e (loops ++ [(header.name, v)])

/-! ## The scope at a token -/

theorem eq_of_agrees {e e' : Engine} {x : Run α} {y : Lexical.Steps α} {a : α}
    (h : Agrees e.scope e.depth x y) (hx : x e = .ok a e') :
    ∃ sink, e' = ⟨sink, e.scope, e.depth⟩ := by
  have h := h e.sink
  rw [show (⟨e.sink, e.scope, e.depth⟩ : Engine) = e from rfl, hx] at h
  cases hy : y e.sink with
  | ok b s =>
    rw [hy] at h
    cases h
    exact ⟨s, rfl⟩
  | error halt s =>
    rw [hy] at h
    cases h

/-- Nodes that end well leave an engine with its scope and its open loops. -/
theorem eq_of_visitAll {limit : Nat} {nodes : List Node} {e e' : Engine}
    (h : visitAll limit nodes e = .ok () e') : ∃ sink, e' = ⟨sink, e.scope, e.depth⟩ :=
  eq_of_agrees (visitAll_eq_lexical limit e.scope e.depth nodes) h

/-- At the begin of a pass the scope is the one around the loop with the value of the
variable put in. -/
theorem BeginsPass.eq_of_visitAll {name : Text} {stop step current v : Number}
    {children : List Node} {limit passLimit depth : Nat} {scope : Scope} {e e' : Engine}
    (h : BeginsPass name stop step (visitAll limit children) passLimit current e v e')
    (he : ∃ sink, e = ⟨sink, scope.push name current, depth⟩) :
    ∃ sink, e' = ⟨sink, scope.push name v, depth⟩ := by
  induction h with
  | here => exact he
  | later _ hb ha _ ih =>
    obtain ⟨sink, rfl⟩ := he
    obtain ⟨sink', rfl⟩ := Engine.eq_of_visitAll hb
    rw [advance_push] at ha
    cases ha
    exact ih ⟨sink', rfl⟩

theorem extend_eq_or (env : Echo.Lookup) (name x : Text) (v : Number) :
    Lexical.extend env name v x = (List.lookup x [(name, v)]).or (env x) := by
  by_cases h : name = x
  · simp [Lexical.extend, h]
  · have hne : (x == name) = false := by simpa using Ne.symm h
    simp [Lexical.extend, List.lookup_cons, h, hne]

/-- At a token a name has the value of the innermost of the loops around it that has this
name, and the value from before only where there is none. -/
theorem Evaluates.peek? {limit : Nat} {token : Token} {stack : Stack} {node : Node} {e e' : Engine}
    {loops : List (Text × Number)} (h : Evaluates limit token stack e' node e loops)
      (x : Text) :
    e'.scope.peek? x = (loops.lookup x).or (e.scope.peek? x) := by
  induction h with
  | echo _ he => rw [he]; rfl
  | child hv _ ih =>
    obtain ⟨sink, rfl⟩ := eq_of_visitAll hv
    exact ih
  | @loop header children start stop step v e e₁ loops _ _ hp _ ih =>
    obtain ⟨sink, rfl⟩ := hp.eq_of_visitAll ⟨e.sink, rfl⟩
    rw [ih, Scope.peek?_push, extend_eq_or, List.lookup_append, Option.or_assoc]

/-! ## A token that fails ends the run -/

theorem run_of_act_error {lookup : Echo.Lookup} {stack : Stack} {token : Token}
    {before after : List Token} {s s₁ s₂ : Sink} {f : Fault}
    (hb : Echo.evaluate lookup [] before s = .ok stack s₁)
    (ht : Echo.act lookup stack token s₁ = .error f s₂) :
    Echo.run lookup (before ++ token :: after) s = .error f s₂ := by
  refine bind_of_error ?_
  rw [Echo.evaluate, List.foldlM_append]
  refine (bind_of_ok hb).trans ?_
  rw [List.foldlM_cons]
  exact bind_of_error ht

theorem visitAll_append (limit : Nat) (nodes : List Node) {e₁ : Engine} :
    ∀ {before : List Node} {e : Engine}, visitAll limit before e = .ok () e₁ →
      visitAll limit (before ++ nodes) e = visitAll limit nodes e₁
  | [], e, h => by
    simp only [visitAll] at h
    cases h
    rfl
  | node :: before, e, h => by
    simp only [visitAll] at h
    obtain ⟨_, e₂, h₁, h₂⟩ := bind_eq_ok h
    rw [List.cons_append, visitAll, bind_of_ok h₁]
    exact visitAll_append limit nodes h₂

theorem BeginsPass.passes_eq {name : Text} {stop step current v : Number} {body : Run Unit}
    {limit : Nat} {e e₁ e₂ : Engine} {halt : Halt}
    (h : BeginsPass name stop step body limit current e v e₁) (hb : body e₁ = .error halt e₂) :
    passes name stop step body limit current e = .error halt e₂ := by
  induction h with
  | here hc =>
    rw [passes, if_neg hc]
    exact bind_of_error hb
  | later hc hbody ha _ ih =>
    rw [passes, if_neg hc]
    exact (bind_of_ok hbody).trans ((bind_of_ok ha).trans (ih hb))

theorem lift_ok {r : Except Fault α} {x : α} (h : r = .ok x) (e : Engine) :
    Engine.lift r e = .ok x e := by
  rw [h]
  rfl

theorem lift_error {r : Except Fault α} {f : Fault} (h : r = .error f) (e : Engine) :
    Engine.lift r e = .error (.fault f) e := by
  rw [h]
  rfl

theorem loop_eq_release {header : Loop} {start stop step : Number} (limit : Nat) (body : Run Unit)
    (e : Engine) (hb : bounds header = .ok (start, stop, step)) (hn : stop.isNaN = false) :
    Engine.loop limit header body e =
      release header.name
        (passes header.name stop step body limit start (e.bind header.name start)) := by
  unfold Engine.loop
  rw [bind_of_ok (lift_ok hb e)]
  simp only [hn, Bool.false_eq_true, if_false]
  exact binding_eq_release ..

/-- A run that comes to a token which fails ends there. -/
theorem Evaluates.visit_eq {limit : Nat} {token : Token} {stack : Stack} {node : Node}
    {e e' : Engine} {loops : List (Text × Number)} {f : Fault} {s : Sink}
    (h : Evaluates limit token stack e' node e loops)
    (hf : Echo.act e'.scope.peek? stack token e'.sink = .error f s) :
    visit limit node e = .error (.fault f) ⟨s, e.scope, e.depth⟩ := by
  induction h with
  | echo hb he =>
    subst he
    simp only [visit, act, run_of_act_error hb hf]
  | child hv _ ih =>
    rw [visit, visitAll_append limit _ hv, visitAll, bind_of_error ih]
    obtain ⟨sink, rfl⟩ := eq_of_visitAll hv
    rfl
  | @loop header children start stop step v e e₁ loops hb hn hp _ ih =>
    rw [visit] at ih
    rw [visit, loop_eq_release limit _ e hb hn, hp.passes_eq ih]
    obtain ⟨sink, rfl⟩ := hp.eq_of_visitAll ⟨e.sink, rfl⟩
    simp [release, unbind]

/-! ## A run that fails for want of a binding -/

/-- An echo whose evaluation fails does so at one of its tokens, after those before it. -/
theorem evaluate_error {lookup : Echo.Lookup} {f : Fault} {s' : Sink} :
    ∀ {tokens : List Token} {stack : Stack} {s : Sink},
      Echo.evaluate lookup stack tokens s = .error f s' →
      ∃ before token after stack' s₁, tokens = before ++ token :: after ∧
        Echo.evaluate lookup stack before s = .ok stack' s₁ ∧
        Echo.act lookup stack' token s₁ = .error f s'
  | [], _, _, h => by cases h
  | token :: tokens, stack, s, h => by
    rw [Echo.evaluate, List.foldlM_cons] at h
    rcases bind_eq_error h with h | ⟨stack₁, s₁, h₁, h₂⟩
    · exact ⟨[], token, tokens, stack, s, rfl, rfl, h⟩
    · obtain ⟨before, t, after, stack', s₂, rfl, hb, ht⟩ := evaluate_error h₂
      refine ⟨token :: before, t, after, stack', s₂, rfl, ?_, ht⟩
      rw [Echo.evaluate, List.foldlM_cons]
      exact (bind_of_ok h₁).trans hb

theorem write_error {text : Text} {f : Fault} {s s' : Sink}
    (h : Sink.write text s = .error f s') : f = .unencodable := by
  simp only [Sink.write] at h
  split at h <;> cases h
  rfl

/-- Writing a value fails if it has no text, or if that has no bytes in the output. -/
theorem writeAll_error {f : Fault} {s' : Sink} : ∀ {values : List Datum} {s : Sink},
    Echo.writeAll values s = .error f s' → f = .integerTooLong ∨ f = .unencodable
  | [], _, h => by cases h
  | d :: values, s, h => by
    have h : (Echo.write d >>= fun _ => Echo.writeAll values) s = .error f s' := h
    rcases bind_eq_error h with h | ⟨_, s₁, _, h₂⟩
    · rcases bind_eq_error h with h | ⟨_, _, _, h⟩
      · exact .inl (ActsOrFailsOnly.ofExcept d.toText_failsOnly s f s' h)
      · exact .inr (write_error h)
    · exact writeAll_error h₂

theorem run_unknownName {lookup : Echo.Lookup} {tokens : List Token} {name : Text} {s s' : Sink}
    (h : Echo.run lookup tokens s = .error (.unknownName name) s') :
    ∃ before after stack, tokens = before ++ .loopVariable name :: after ∧
      Echo.evaluate lookup [] before s = .ok stack s' ∧ lookup name = none := by
  rcases bind_eq_error h with h | ⟨_, _, _, h⟩
  · obtain ⟨before, token, after, stack, s₁, rfl, hb, ht⟩ := evaluate_error h
    rcases Echo.act_failsOnly lookup stack token s₁ _ s' ht with h | h | ⟨x, rfl, hx, ⟨⟩⟩
    · cases h
    · cases h
    · simp only [Echo.act, hx] at ht
      cases ht
      exact ⟨before, after, stack, rfl, hb, hx⟩
  · rcases writeAll_error h with h | h <;> cases h

/-- A loop that fails does so in the body of a pass that it has come to begin. -/
theorem passes_error {name : Text} {stop step : Number} {limit depth : Nat} {scope : Scope}
    {children : List Node} {e' : Engine} {f : Fault} :
    ∀ {passLimit : Nat} {current : Number} {sink : Sink},
      passes name stop step (visitAll limit children) passLimit current
          ⟨sink, scope.push name current, depth⟩ = .error (.fault f) e' →
      ∃ v e₁, BeginsPass name stop step (visitAll limit children) passLimit current
          ⟨sink, scope.push name current, depth⟩ v e₁ ∧
        visitAll limit children e₁ = .error (.fault f) e' := by
  intro passLimit
  induction passLimit with
  | zero =>
    intro current sink h
    rw [passes] at h
    split at h <;> cases h
  | succ passLimit ih =>
    intro current sink h
    rw [passes] at h
    split at h
    · cases h
    · next hc =>
      rcases bind_eq_error h with h | ⟨_, e₁, hb, h⟩
      · exact ⟨current, _, .here hc, h⟩
      · obtain ⟨sink₁, rfl⟩ := eq_of_visitAll hb
        rw [bind_of_ok (advance_push ..)] at h
        obtain ⟨v, e₂, hp, hv⟩ := ih h
        exact ⟨v, e₂, .later hc hb (advance_push ..) hp, hv⟩

theorem Evaluates.cons {limit : Nat} {token : Token} {stack : Stack} {e e₁ e' : Engine}
    {node : Node} {nodes : List Node} {loops : List (Text × Number)}
    (hv : visit limit node e = .ok () e₁)
    (h : Evaluates limit token stack e' (.document nodes) e₁ loops) :
    Evaluates limit token stack e' (.document (node :: nodes)) e loops := by
  cases h with
  | @child before after n _ e₂ _ hb hn =>
    have hbefore : visitAll limit (node :: before) e = .ok () e₂ := by
      rw [visitAll, bind_of_ok hv]
      exact hb
    exact .child hbefore hn

mutual

/-- A run that ends for want of a binding has come to a loop variable that has none. -/
theorem evaluates_of_unknownName {limit : Nat} {name : Text} {e' : Engine} :
    ∀ {node : Node} {e : Engine}, visit limit node e = .error (.fault (.unknownName name)) e' →
      ∃ stack e₁ loops, Evaluates limit (.loopVariable name) stack e₁ node e loops ∧
        e₁.scope.peek? name = none ∧ e'.sink = e₁.sink
  | .document children, e, h => evaluatesAll_of_unknownName (by rwa [visit] at h)
  | .text content, e, h => by
    simp only [visit, act] at h
    split at h
    · cases h
    · next hw =>
      cases h
      cases write_error hw
  | .echo tokens, e, h => by
    simp only [visit, act] at h
    split at h
    · cases h
    · next hr =>
      cases h
      obtain ⟨before, after, stack, rfl, hb, hn⟩ := run_unknownName hr
      exact ⟨stack, _, [], .echo hb rfl, hn, rfl⟩
  | .loop header children, e, h => by
    rw [visit] at h
    cases hb : bounds header with
    | error f =>
      rw [Engine.loop, bind_of_error (lift_error hb e)] at h
      cases h
      rcases bounds_failsOnly header _ hb with h | ⟨_, h⟩ <;> cases h
    | ok b =>
      obtain ⟨start, stop, step⟩ := b
      by_cases hn : stop.isNaN = true
      · rw [Engine.loop, bind_of_ok (lift_ok hb e)] at h
        simp only [hn, if_true] at h
        cases h
      · rw [Bool.not_eq_true] at hn
        rw [loop_eq_release limit _ e hb hn] at h
        cases hp : passes header.name stop step (visitAll limit children) limit start
            (e.bind header.name start) with
        | ok _ _ => rw [hp] at h; cases h
        | error halt e₂ =>
          rw [hp] at h
          cases h
          obtain ⟨v, e₁, hbegin, hv⟩ := passes_error hp
          obtain ⟨stack, e₃, loops, heval, hpeek, hsink⟩ := evaluatesAll_of_unknownName hv
          exact ⟨stack, e₃, _, .loop hb hn hbegin heval, hpeek, hsink⟩

theorem evaluatesAll_of_unknownName {limit : Nat} {name : Text} {e' : Engine} :
    ∀ {nodes : List Node} {e : Engine},
      visitAll limit nodes e = .error (.fault (.unknownName name)) e' →
      ∃ stack e₁ loops, Evaluates limit (.loopVariable name) stack e₁ (.document nodes) e loops ∧
        e₁.scope.peek? name = none ∧ e'.sink = e₁.sink
  | [], e, h => by
    rw [visitAll] at h
    cases h
  | node :: nodes, e, h => by
    rw [visitAll] at h
    rcases bind_eq_error h with h | ⟨_, e₁, hv, h⟩
    · obtain ⟨stack, e₂, loops, heval, hpeek, hsink⟩ := evaluates_of_unknownName h
      have hnil : visitAll limit [] e = .ok () e := by
        rw [visitAll]
        rfl
      exact ⟨stack, e₂, loops, .child hnil heval, hpeek, hsink⟩
    · obtain ⟨stack, e₂, loops, heval, hpeek, hsink⟩ := evaluatesAll_of_unknownName h
      exact ⟨stack, e₂, loops, heval.cons hv, hpeek, hsink⟩

end

/-! ## Lexical scoping -/

/-- **Loops bind lexically.** Running a tree from outside of all loops does to the sink what
the interpreter without a scope does, within the same limit on the passes: the same output,
kind of document and parameters, and the same end, with the same fault if it is one.
Wherever the run evaluates a loop variable, this stands for the value of the innermost loop
around it that has its name. And the run ends for want of a binding of a name exactly when
it comes to a variable of that name around which there is no such loop; the sink is then
as it was at that token. -/
theorem lexical_scoping (limit : Nat) (node : Node) (e : Engine) :
    execute limit node e =
        resume .empty 0 (Lexical.visit limit Lexical.outermost node e.sink) ∧
      (∀ (name : Text) (stack : Stack) (e₁ : Engine) (loops : List (Text × Number)),
        Evaluates limit (.loopVariable name) stack e₁ node (onSink e.sink) loops →
        Echo.act e₁.scope.peek? stack (.loopVariable name) e₁.sink =
          match loops.lookup name with
          | some v => .ok (.ofNumber v :: stack) e₁.sink
          | none => .error (.unknownName name) e₁.sink) ∧
      ∀ (name : Text) (e' : Engine),
        execute limit node e = .error (.fault (.unknownName name)) e' ↔
          ∃ stack e₁ loops,
            Evaluates limit (.loopVariable name) stack e₁ node (onSink e.sink) loops ∧
              loops.lookup name = none ∧ e' = onSink e₁.sink := by
  have hpeek : ∀ {name : Text} {stack : Stack} {e₁ : Engine} {loops : List (Text × Number)},
      Evaluates limit (.loopVariable name) stack e₁ node (onSink e.sink) loops →
      e₁.scope.peek? name = loops.lookup name := fun h => by
    rw [h.peek?, onSink, Scope.peek?_empty]
    exact Option.or_none
  refine ⟨visit_eq_lexical limit .empty 0 node e.sink, fun name stack e₁ loops h => ?_,
    fun name e' => ⟨fun h => ?_, ?_⟩⟩
  · rw [Echo.act, hpeek h]
    cases loops.lookup name <;> rfl
  · obtain ⟨stack, e₁, loops, heval, hnone, hsink⟩ := evaluates_of_unknownName h
    refine ⟨stack, e₁, loops, heval, (hpeek heval).symm.trans hnone, ?_⟩
    have hlex := visit_eq_lexical limit .empty 0 node e.sink
    rw [show visit limit node ⟨e.sink, .empty, 0⟩ = _ from h] at hlex
    cases hy : Lexical.visit limit Scope.empty.peek? node e.sink with
    | ok _ s => rw [hy] at hlex; cases hlex
    | error halt s =>
      rw [hy] at hlex
      cases hlex
      rw [← hsink]
      rfl
  · rintro ⟨stack, e₁, loops, heval, hnone, rfl⟩
    refine heval.visit_eq ?_
    rw [Echo.act, hpeek heval, hnone]
    rfl

end TagTemplate.Engine
