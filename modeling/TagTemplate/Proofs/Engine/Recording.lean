/-
A run with a record of every text that it hands to its sink, whether it is plain text or the text of
a value, and of whether the sink took it. Recording changes nothing (`Records`): the run comes to
the same end, in the same state. And the record tells what the run has done to the output (`Told`):
it has put the bytes of the texts that were taken behind the output, and nothing else.
-/
import TagTemplate.Proofs.Engine.TokenBoundary

namespace TagTemplate

/-- A text handed to a sink. -/
structure Attempt where
  text : Text
  taken : Bool

namespace Attempt

/-- The texts that were taken, as one. -/
def written (attempts : List Attempt) : Text :=
  Text.join ((attempts.filter Attempt.taken).map Attempt.text)

theorem written_append (before after : List Attempt) :
    written (before ++ after) = written before ++ written after := by
  rw [written, List.filter_append, List.map_append, Text.join_append]
  rfl

end Attempt

/-! ## Runs with a record -/

namespace Recorded

/-- Steps of an engine that keep a record. -/
abbrev Steps := EStateM Halt (Engine × List Attempt)

/-- The end of a run, with a record. -/
def noted (log : List Attempt) : EStateM.Result Halt Engine α →
    EStateM.Result Halt (Engine × List Attempt) α
  | .ok x e => .ok x (e, log)
  | .error h e => .error h (e, log)

/-- Steps that hand nothing to the sink. -/
def quiet (x : Run α) : Steps α := fun state => noted state.2 (x state.1)

def write (text : Text) : Steps Unit := fun state =>
  match Engine.act (fun _ => Sink.write text) state.1 with
  | .ok _ e => .ok () (e, state.2 ++ [⟨text, true⟩])
  | .error h e => .error h (e, state.2 ++ [⟨text, false⟩])

def echo (tokens : List Token) : Steps Unit := do
  let stack ← quiet (Engine.act fun scope => Echo.evaluate scope.peek? [] tokens)
  stack.reverse.forM fun d => do
    write (← quiet (Engine.lift d.toText))

def binding (name : Text) (v : Number) (body : Steps Unit) : Steps Unit := fun state =>
  match body (state.1.bind name v, state.2) with
  | .ok x (e, log) => .ok x (e.unbind name, log)
  | .error h (e, log) => .error h (e.unbind name, log)

def passes (name : Text) (stop step : Number) (body : Steps Unit) :
    (limit : Nat) → (current : Number) → Steps Unit
  | limit, current =>
    if current.order stop = .gt then pure ()
    else
      match limit with
      | 0 => throw .passLimit
      | limit + 1 => do
        body
        let next ← quiet (Engine.advance name step)
        passes name stop step body limit next

def loop (limit : Nat) (header : Loop) (body : Steps Unit) : Steps Unit := do
  let (start, stop, step) ← quiet (Engine.lift (Engine.bounds header))
  if stop.isNaN then return
  binding header.name start (passes header.name stop step body limit start)

mutual

def visit (limit : Nat) : Node → Steps Unit
  | .document children => visitAll limit children
  | .text content => write content
  | .echo tokens => echo tokens
  | .loop header children => loop limit header (visitAll limit children)

def visitAll (limit : Nat) : List Node → Steps Unit
  | [] => pure ()
  | node :: nodes => do
    visit limit node
    visitAll limit nodes

end

end Recorded

/-- Writing a text notes it. -/
theorem Recorded.write_eq (text : Text) (e : Engine) (log : List Attempt) : ∃ taken,
    write text (e, log) =
      noted (log ++ [⟨text, taken⟩]) (Engine.act (fun _ => Sink.write text) e) := by
  simp only [write]
  cases Engine.act (fun _ => Sink.write text) e with
  | ok _ e₁ => exact ⟨true, rfl⟩
  | error h e₁ => exact ⟨false, rfl⟩

/-! ## Steps of an engine -/

namespace Engine

theorem endState_lift (r : Except Fault α) (e : Engine) : endState (Engine.lift r e) = e := by
  cases r <;> rfl

theorem act_bind {a : Scope → Action α} {k : α → Action β} :
    Engine.act (fun scope => a scope >>= k) =
      Engine.act a >>= fun x => Engine.act fun _ => k x := by
  funext e
  cases ha : a e.scope e.sink with
  | ok x s =>
    have hrun : Engine.act a e = .ok x ⟨s, e.scope, e.depth⟩ := by simp only [Engine.act, ha]
    rw [bind_of_ok hrun]
    simp only [Engine.act, bind_of_ok ha]
  | error f s =>
    have hrun :
      Engine.act a e = .error (.fault f) ⟨s, e.scope, e.depth⟩ := by simp only [Engine.act, ha]
    rw [bind_of_error hrun]
    simp only [Engine.act, bind_of_error ha]

theorem act_ofExcept (r : Except Fault α) :
    (Engine.act fun _ => Action.ofExcept r) = Engine.lift r := by
  cases r <;> rfl

end Engine

/-! ## What a record tells -/

/-- What has become of the output of an engine by the end of a run that has handed these texts to
it. -/
structure Told (e : Engine) (attempts : List Attempt)
    (r : EStateM.Result Halt Engine α) : Prop where
  encoding : (endState r).sink.encoding = e.sink.encoding
  inMemory : (endState r).sink.inMemory = e.sink.inMemory
  output : ∃ bytes, e.sink.encoding.encode? (Attempt.written attempts) = some bytes ∧
    (endState r).sink.output = e.sink.output ++ bytes
  taken_iff : ∀ a ∈ attempts, a.taken = true ↔ (e.sink.encoding.encode? a.text).isSome = true
  /-- A text that is not taken is the last one, and the fault of the run. -/
  refused : (∀ a ∈ attempts, a.taken = true) ∨
    ∃ before a, attempts = before ++ [a] ∧ (∀ b ∈ before, b.taken = true) ∧
      r = .error (.fault .unencodable) (endState r)

namespace Told

variable {e e₁ : Engine} {attempts before after : List Attempt}

/-- Nothing is handed to the sink, and the output stays. -/
theorem nothing {r : EStateM.Result Halt Engine α} (hx : e.sink.Extends (endState r).sink)
    (ho : (endState r).sink.output = e.sink.output) : Told e [] r where
  encoding := hx.encoding
  inMemory := hx.inMemory
  output := ⟨.empty, Encoding.encode?_empty _, by rw [ho, ByteArray.append_empty]⟩
  taken_iff := List.forall_mem_nil _
  refused := .inl (List.forall_mem_nil _)

/-- All texts have been taken where a run ends well. -/
theorem all_taken {x : α} (h : Told e attempts (.ok x e₁)) : ∀ a ∈ attempts, a.taken = true := by
  rcases h.refused with htaken | ⟨_, _, _, _, hfault⟩
  · exact htaken
  · cases hfault

theorem refused_last {r : EStateM.Result Halt Engine α} (h : Told e attempts r) {a : Attempt}
    (ha : a ∈ attempts) (hfalse : a.taken = false) :
    attempts.getLast? = some a ∧ r = .error (.fault .unencodable) (endState r) := by
  have hnot : ¬a.taken = true := by simp [hfalse]
  rcases h.refused with htaken | ⟨before, last, rfl, hbefore, hfault⟩
  · exact absurd (htaken a ha) hnot
  · rcases List.mem_append.1 ha with ha | ha
    · exact absurd (hbefore a ha) hnot
    · rw [List.mem_singleton.1 ha, List.getLast?_concat]
      exact ⟨rfl, hfault⟩

/-- The end of a run counts for what has been written before it, however it ends. -/
theorem append {x : α} {r : EStateM.Result Halt Engine β} (h : Told e before (.ok x e₁))
    (h' : Told e₁ after r) : Told e (before ++ after) r where
  encoding := h'.encoding.trans h.encoding
  inMemory := h'.inMemory.trans h.inMemory
  output := by
    obtain ⟨bytes, hbytes, ho⟩ := h.output
    obtain ⟨bytes', hbytes', ho'⟩ := h'.output
    have hencoding : e₁.sink.encoding = e.sink.encoding := h.encoding
    have hfirst : e₁.sink.output = e.sink.output ++ bytes := ho
    refine ⟨bytes ++ bytes', ?_, by rw [ho', hfirst, ByteArray.append_assoc]⟩
    rw [hencoding] at hbytes'
    rw [Attempt.written_append, Encoding.encode?_append, hbytes, hbytes']
    rfl
  taken_iff := by
    have hencoding : e₁.sink.encoding = e.sink.encoding := h.encoding
    intro a ha
    rcases List.mem_append.1 ha with ha | ha
    · exact h.taken_iff a ha
    · exact hencoding ▸ h'.taken_iff a ha
  refused := by
    rcases h'.refused with htaken | ⟨more, a, rfl, hmore, hfault⟩
    · exact .inl (List.forall_mem_append.2 ⟨h.all_taken, htaken⟩)
    · exact .inr ⟨before ++ more, a, (List.append_assoc ..).symm,
        List.forall_mem_append.2 ⟨h.all_taken, hmore⟩, hfault⟩

/-- Of the engine only the sink counts. -/
theorem of_sink {e' : Engine} {r : EStateM.Result Halt Engine α} (h : Told e attempts r)
    (hsink : e'.sink = e.sink) : Told e' attempts r where
  encoding := by rw [hsink, h.encoding]
  inMemory := by rw [hsink, h.inMemory]
  output := by
    rw [hsink]
    exact h.output
  taken_iff := by
    rw [hsink]
    exact h.taken_iff
  refused := h.refused

/-- The end of a run may be another one, with the same sink, if a refused text is still its
fault. -/
theorem of_same {r : EStateM.Result Halt Engine α} {r' : EStateM.Result Halt Engine β}
    (h : Told e attempts r)
    (hsink : (endState r').sink = (endState r).sink)
    (hfault : r = .error (.fault .unencodable) (endState r) →
      r' = .error (.fault .unencodable) (endState r')) : Told e attempts r' where
  encoding := by rw [hsink, h.encoding]
  inMemory := by rw [hsink, h.inMemory]
  output := by
    rw [hsink]
    exact h.output
  taken_iff := h.taken_iff
  refused := by
    rcases h.refused with htaken | ⟨before, a, hattempts, hbefore, hr⟩
    · exact .inl htaken
    · exact .inr ⟨before, a, hattempts, hbefore, hfault hr⟩

end Told

/-- Recorded steps that come to what the steps of an engine come to, with a record that tells of
them. -/
def Records (x : Recorded.Steps α) (y : Run α) : Prop :=
  ∀ e log, ∃ attempts, x (e, log) = Recorded.noted (log ++ attempts) (y e) ∧ Told e attempts (y e)

namespace Records

theorem bind {x : Recorded.Steps α} {y : Run α} {f : α → Recorded.Steps β} {g : α → Run β}
    (hx : Records x y) (hf : ∀ a, Records (f a) (g a)) : Records (x >>= f) (y >>= g) := by
  intro e log
  obtain ⟨attempts, hrun, htold⟩ := hx e log
  cases hy : y e with
  | ok a e₁ =>
    rw [hy] at hrun htold
    obtain ⟨more, hrun', htold'⟩ := hf a e₁ (log ++ attempts)
    rw [bind_of_ok hrun, bind_of_ok hy, hrun', List.append_assoc]
    exact ⟨attempts ++ more, rfl, htold.append htold'⟩
  | error h e₁ =>
    rw [hy] at hrun htold
    rw [bind_of_error hrun, bind_of_error hy]
    refine ⟨attempts, rfl, htold.of_same rfl ?_⟩
    rintro ⟨⟩
    rfl

/-- Steps that leave the output alone hand nothing to it. -/
theorem quiet {x : Run α} (h : ∀ e, e.sink.Extends (endState (x e)).sink ∧
    (endState (x e)).sink.output = e.sink.output) : Records (Recorded.quiet x) x := by
  intro e log
  refine ⟨[], ?_, .nothing (h e).1 (h e).2⟩
  rw [List.append_nil]
  rfl

theorem pure (x : α) : Records (Pure.pure x) (Pure.pure x) :=
  quiet (x := Pure.pure x) fun e => ⟨.refl e.sink, rfl⟩

theorem throw (h : Halt) : Records (MonadExcept.throw h : Recorded.Steps α) (MonadExcept.throw h) :=
  quiet (x := MonadExcept.throw h) fun e => ⟨.refl e.sink, rfl⟩

theorem lift (r : Except Fault α) : Records (Recorded.quiet (Engine.lift r)) (Engine.lift r) := by
  refine quiet fun e => ?_
  rw [Engine.endState_lift]
  exact ⟨.refl e.sink, rfl⟩

theorem advance (name : Text) (step : Number) :
    Records (Recorded.quiet (Engine.advance name step)) (Engine.advance name step) := by
  refine quiet fun e => ?_
  simp only [Engine.advance]
  split <;> exact ⟨.refl e.sink, rfl⟩

theorem act {a : Scope → Action α} (hx : ∀ scope, OnlyExtends (a scope))
    (hk : ∀ scope, KeepsOutput (a scope)) :
      Records (Recorded.quiet (Engine.act a)) (Engine.act a) := by
  refine quiet fun e => ?_
  have hx := hx e.scope e.sink
  have hk := hk e.scope e.sink
  simp only [Engine.act]
  cases ha : a e.scope e.sink <;> rw [ha] at hx hk <;> exact ⟨hx, hk⟩

theorem write (text : Text) :
    Records (Recorded.write text) (Engine.act fun _ => Sink.write text) := by
  intro e log
  cases hbytes : e.sink.encoding.encode? text with
  | some bytes =>
    have hrun : Engine.act (fun _ => Sink.write text) e =
        .ok () ⟨e.sink.append bytes, e.scope, e.depth⟩ := by
      simp only [Engine.act, Sink.write_of_some hbytes]
    refine ⟨[⟨text, true⟩], by simp only [Recorded.write, hrun, Recorded.noted], ?_⟩
    rw [hrun]
    have hwritten : Attempt.written [⟨text, true⟩] = text := Text.append_empty text
    refine ⟨rfl, rfl, ⟨bytes, by rw [hwritten, hbytes], rfl⟩, ?_, .inl (by simp)⟩
    simp [hbytes]
  | none =>
    have hrun : Engine.act (fun _ => Sink.write text) e =
        .error (.fault .unencodable) ⟨e.sink, e.scope, e.depth⟩ := by
      simp only [Engine.act, Sink.write_of_none hbytes]
    refine ⟨[⟨text, false⟩], by simp only [Recorded.write, hrun, Recorded.noted], ?_⟩
    rw [hrun]
    refine ⟨rfl, rfl, ⟨.empty, Encoding.encode?_empty _, ByteArray.append_empty.symm⟩, ?_, ?_⟩
    · simp [hbytes]
    · exact .inr ⟨[], _, rfl, List.forall_mem_nil _, rfl⟩

/-! ## Echoes -/

theorem writeAll (values : List Datum) :
    Records (values.forM fun d => do Recorded.write (← Recorded.quiet (Engine.lift d.toText)))
      (Engine.act fun _ => Echo.writeAll values) := by
  induction values with
  | nil => exact pure ()
  | cons d values ih =>
    have hcons : (Engine.act fun _ => Echo.writeAll (d :: values)) =
        (Engine.act fun _ => Echo.write d) >>= fun _ => Engine.act fun _ => Echo.writeAll values :=
      Engine.act_bind
    have hwrite : (Engine.act fun _ => Echo.write d) =
        Engine.lift d.toText >>= fun text => Engine.act fun _ => Sink.write text :=
      Engine.act_bind.trans (by rw [Engine.act_ofExcept])
    rw [hcons, hwrite]
    exact ((lift d.toText).bind write).bind fun _ => ih

theorem echo (tokens : List Token) :
    Records (Recorded.echo tokens) (Engine.act fun scope => Echo.run scope.peek? tokens) := by
  have hrun : (Engine.act fun scope => Echo.run scope.peek? tokens) =
      (Engine.act fun scope => Echo.evaluate scope.peek? [] tokens) >>= fun stack =>
        Engine.act fun _ => Echo.writeAll stack.reverse := Engine.act_bind
  rw [hrun]
  have hevaluate := act (fun scope => OnlyExtends.evaluate scope.peek? [] tokens)
    (fun scope => KeepsOutput.evaluate scope.peek? [] tokens)
  exact hevaluate.bind fun stack => writeAll stack.reverse

/-! ## Loops and trees -/

theorem binding {body : Recorded.Steps Unit} {body' : Run Unit} (h : Records body body')
    (name : Text)
    (v : Number) : Records (Recorded.binding name v body) (Engine.binding name v body') := by
  intro e log
  obtain ⟨attempts, hrun, htold⟩ := h (e.bind name v) log
  refine ⟨attempts, ?_, ?_⟩
  · simp only [Recorded.binding, hrun, Engine.binding]
    cases body' (e.bind name v) <;> rfl
  · -- Binding a name and taking it out again leave the sink alone.
    have htold : Told e attempts (body' (e.bind name v)) := htold.of_sink rfl
    refine htold.of_same ?_ ?_ <;> simp only [Engine.binding] <;> cases body' (e.bind name v)
    · rfl
    · rfl
    · rintro ⟨⟩
    · rintro ⟨⟩
      rfl

theorem passes {name : Text} {stop step : Number} {body : Recorded.Steps Unit} {body' : Run Unit}
    (h : Records body body') (limit : Nat) :
    ∀ current, Records (Recorded.passes name stop step body limit current)
      (Engine.passes name stop step body' limit current) := by
  induction limit with
  | zero =>
    intro current
    rw [Recorded.passes, Engine.passes]
    split
    · exact pure ()
    · exact throw _
  | succ limit ih =>
    intro current
    rw [Recorded.passes, Engine.passes]
    split
    · exact pure ()
    · exact h.bind fun _ => (advance name step).bind fun next => ih next

theorem loop {limit : Nat} {header : Loop} {body : Recorded.Steps Unit} {body' : Run Unit}
    (h : Records body body') :
      Records (Recorded.loop limit header body) (Engine.loop limit header body') := by
  refine (lift (Engine.bounds header)).bind fun bounds => ?_
  obtain ⟨start, stop, step⟩ := bounds
  by_cases hnan : stop.isNaN = true
  · simp only [hnan, if_true]
    exact pure ()
  · simp only [hnan]
    exact (h.passes limit start).binding header.name start

mutual

/-- **A recorded run of a tree** comes to what the run comes to, and its record tells what has
become of the output. -/
theorem visit (limit : Nat) : ∀ node, Records (Recorded.visit limit node) (Engine.visit limit node)
  | .document children => by
    rw [Recorded.visit, Engine.visit]
    exact visitAll limit children
  | .text content => by
    rw [Recorded.visit, Engine.visit]
    exact write content
  | .echo tokens => by
    rw [Recorded.visit, Engine.visit]
    exact echo tokens
  | .loop header children => by
    rw [Recorded.visit, Engine.visit]
    exact loop (visitAll limit children)

theorem visitAll (limit : Nat) :
    ∀ nodes, Records (Recorded.visitAll limit nodes) (Engine.visitAll limit nodes)
  | [] => by
    rw [Recorded.visitAll, Engine.visitAll]
    exact pure ()
  | node :: nodes => by
    rw [Recorded.visitAll, Engine.visitAll]
    exact (visit limit node).bind fun _ => visitAll limit nodes

end

end Records

end TagTemplate
