/-
What a tree does not name it neither reads nor changes. Each function is about one part of the
sink at most: the parameters of the request, the persistent ones, the temporary ones, or the
kind of document. Two runs of a tree on sinks that differ in one part go in step, as long as
no echo of the tree calls a function of that part: they come to the same end on sinks that
still differ in this part only, each with its own.

The parameters of the request are not changed by any function, so that all runs keep them.
-/
import TagTemplate.Proofs.Engine.Output
import TagTemplate.Proofs.Steps

namespace TagTemplate

/-! ## Two runs -/

/-- Two steps end alike: both well and with the same value, or both with the same error, and
in states with the relation. -/
inductive SameEnd {ε σ α : Type} (R : σ → σ → Prop) :
    EStateM.Result ε σ α → EStateM.Result ε σ α → Prop
  | ok {a : α} {s s' : σ} : R s s' → SameEnd R (.ok a s) (.ok a s')
  | error {err : ε} {s s' : σ} : R s s' → SameEnd R (.error err s) (.error err s')

theorem SameEnd.mono {ε σ α : Type} {R R' : σ → σ → Prop} {r r' : EStateM.Result ε σ α}
    (h : SameEnd R r r') (hR : ∀ s s', R s s' → R' s s') : SameEnd R' r r' := by
  cases h with
  | ok h => exact .ok (hR _ _ h)
  | error h => exact .error (hR _ _ h)

theorem SameEnd.bind {ε σ α β : Type} {R : σ → σ → Prop} {x : EStateM ε σ α}
    {f : α → EStateM ε σ β} {s s' : σ} (hx : SameEnd R (x s) (x s'))
    (hf : ∀ a s₁ s₁', x s = .ok a s₁ → R s₁ s₁' → SameEnd R (f a s₁) (f a s₁')) :
    SameEnd R ((x >>= f) s) ((x >>= f) s') := by
  cases h : x s with
  | ok a s₁ =>
    rw [h] at hx
    cases hx' : x s' <;> rw [hx'] at hx <;> cases hx
    next hR =>
    rw [bind_of_ok h, bind_of_ok hx']
    exact hf a _ _ h hR
  | error err s₁ =>
    rw [h] at hx
    cases hx' : x s' <;> rw [hx'] at hx <;> cases hx
    next hR =>
    rw [bind_of_error h, bind_of_error hx']
    exact .error hR

theorem SameEnd.lexicalAct {R : Sink → Sink → Prop} {α : Type} {a : Action α} {s s' : Sink}
    (h : SameEnd R (a s) (a s')) : SameEnd R (Lexical.act a s) (Lexical.act a s') := by
  simp only [Lexical.act]
  cases hs : a s <;> cases hs' : a s' <;> rw [hs, hs'] at h <;> cases h
  · exact .ok ‹_›
  · exact .error ‹_›

/-- From sinks with the relation the steps end alike. -/
def InStep {ε α : Type} (R : Sink → Sink → Prop) (x : EStateM ε Sink α) : Prop :=
  ∀ s s', R s s' → SameEnd R (x s) (x s')

namespace InStep

variable {R : Sink → Sink → Prop}

theorem compositional (ε : Type) (R : Sink → Sink → Prop) :
    Compositional (fun {α} x => @InStep ε α R x) where
  pure _ := fun _ _ hR => .ok hR
  throw _ := fun _ _ hR => .error hR
  bind hx hf := fun s s' hR => (hx s s' hR).bind fun a s₁ s₁' _ => hf a s₁ s₁'

theorem lexicalAct {α : Type} {a : Action α} (h : InStep R a) : InStep R (Lexical.act a) :=
  fun s s' hR => (h s s' hR).lexicalAct

end InStep

/-! ## Parts of a sink -/

/-- What the functions of a template are about. -/
inductive Sink.Part where
  | parameters
  | persistent
  | temporary
  | mime
  deriving DecidableEq

/-- The part of a sink that a function is about, if there is one. -/
def Builtin.part? : Builtin → Option Sink.Part
  | .sin | .decfmt | .dup | .swap => none
  | .paramGet => some .parameters
  | .persistentGet | .persistentSet | .persistentDel => some .persistent
  | .temporaryGet | .temporarySet | .temporaryDel => some .temporary
  | .setMimeType => some .mime

/-- Whether a token calls the function, by its name in any case. -/
def Token.calls (b : Builtin) : Token → Bool
  | .function name => name.map CodePoint.toLower == b.name
  | _ => false

/-- Whether some echo of a tree calls the function. -/
def Node.calls (b : Builtin) (node : Node) : Bool := node.echoes.any (·.any (Token.calls b))

theorem Builtin.calls_of_ofName? {name : Text} {b : Builtin} (h : ofName? name = some b) :
    Token.calls b (.function name) = true := by
  have hname := List.find?_some h
  simp only [beq_iff_eq] at hname
  simp only [Token.calls, hname, beq_self_eq_true]

namespace Sink.Part

/-- A sink with one part taken from another one. -/
def copy (p : Part) (source s : Sink) : Sink :=
  match p with
  | parameters => { s with parameters := source.parameters }
  | persistent => { s with persistent := source.persistent }
  | temporary => { s with temporary := source.temporary }
  | mime => { s with mime := source.mime }

@[simp] theorem copy_self (p : Part) (s : Sink) : p.copy s s = s := by cases p <;> rfl

@[simp] theorem copy_encoding (p : Part) (source s : Sink) :
    (p.copy source s).encoding = s.encoding := by cases p <;> rfl

/-- Two sinks that differ in one part at most, and have it from a sink each. -/
def Apart (p : Part) (own own' s s' : Sink) : Prop := p.copy own s = s ∧ p.copy own' s = s'

end Sink.Part

/-! ## Functions that are not about a part -/

namespace InStep

open Sink (Part)

variable {p : Part} {own own' : Sink}

theorem change {f : Sink → Sink} (hf : ∀ source s, p.copy source (f s) = f (p.copy source s)) :
    InStep (p.Apart own own') (Action.change f) := by
  rintro s _ ⟨hs, rfl⟩
  refine .ok ⟨?_, hf own' s⟩
  rw [hf, hs]

theorem read {α : Type} {f : Sink → α} (hf : ∀ source s, f (p.copy source s) = f s) :
    InStep (p.Apart own own') (Action.read f) := by
  rintro s _ ⟨hs, rfl⟩
  simp only [Action.read, hf]
  exact .ok ⟨hs, rfl⟩

theorem write (text : Text) : InStep (p.Apart own own') (Sink.write text) := by
  rintro s _ ⟨hs, rfl⟩
  simp only [Sink.write, Part.copy_encoding]
  cases s.encoding.encode? text with
  | none => exact .error ⟨hs, rfl⟩
  | some bytes =>
    have happend : ∀ source, p.copy source (s.append bytes) = (p.copy source s).append bytes := by
      intro source
      cases p <;> rfl
    refine .ok ⟨?_, happend own'⟩
    rw [happend, hs]

/-- Reading a persistent parameter changes the persistent ones at most. -/
theorem readPersistent (hp : p ≠ .persistent) (name : Text) :
    InStep (p.Apart own own') (Sink.readPersistent name) := by
  rintro s _ ⟨hs, rfl⟩
  cases p with
  | persistent => exact absurd rfl hp
  | parameters | temporary | mime => exact .ok ⟨by rw [← hs]; rfl, rfl⟩

theorem call (token : Token) (stack : Stack) {b : Builtin} (hb : b.part? ≠ some p) :
    InStep (p.Apart own own') (b.call token stack) := by
  have h := compositional Fault (p.Apart own own')
  cases b with
  | sin | decfmt | dup | swap => exact h.ofExcept _
  | paramGet | temporaryGet =>
    simp only [Builtin.call]
    refine h.lookUp (fun _ => read fun source s => ?_) token stack
    cases p <;> first | rfl | exact absurd rfl hb
  | persistentGet =>
    exact h.lookUp (readPersistent fun hp => hb (by rw [hp]; rfl)) token stack
  | setMimeType | persistentDel | temporaryDel =>
    simp only [Builtin.call]
    refine h.changeBy (fun _ => change fun source s => ?_) token stack
    cases p <;> first | rfl | exact absurd rfl hb
  | persistentSet | temporarySet =>
    simp only [Builtin.call]
    refine h.changeByTwo (fun _ _ => change fun source s => ?_) token stack
    cases p <;> first | rfl | exact absurd rfl hb

theorem act (lookup : Echo.Lookup) (stack : Stack) {token : Token}
    (htoken : ∀ b : Builtin, b.part? = some p → token.calls b = false) :
    InStep (p.Apart own own') (Echo.act lookup stack token) := by
  refine (compositional Fault _).act lookup stack token fun name b heq hb => call token stack ?_
  intro hp
  have hcalls := htoken b hp
  rw [heq, Builtin.calls_of_ofName? hb] at hcalls
  cases hcalls

/-- **A run of a tree that calls no function of a part** goes in step on sinks that differ in
this part. -/
theorem visit (limit : Nat) (env : Echo.Lookup) {node : Node}
    (hnode : ∀ b : Builtin, b.part? = some p → node.calls b = false) :
    InStep (p.Apart own own') (Lexical.visit limit env node) := by
  refine (compositional Halt _).visit (fun text => .lexicalAct (write text)) limit env node
    fun tokens htokens lookup => .lexicalAct ?_
  refine (compositional Fault _).run write lookup fun token htoken stack => act lookup stack ?_
  intro b hb
  have hcalls := hnode b hb
  simp only [Node.calls, List.any_eq_false, Bool.not_eq_true] at hcalls
  exact hcalls tokens htokens token htoken

end InStep

/-! ## Runs of an engine -/

namespace Engine

/-- An engine with one part of its sink taken from another sink. -/
def withPart (p : Sink.Part) (source : Sink) (e : Engine) : Engine :=
  { e with sink := p.copy source e.sink }

/-- Two engines in the same scope, with sinks that have the relation. -/
structure Beside (R : Sink → Sink → Prop) (e e' : Engine) : Prop where
  scope : e.scope = e'.scope
  depth : e.depth = e'.depth
  sink : R e.sink e'.sink

theorem sameEnd_resume {α : Type} {R : Sink → Sink → Prop} (scope : Scope) (depth : Nat)
    {r r' : EStateM.Result Halt Sink α} (h : SameEnd R r r') :
    SameEnd (Beside R) (resume scope depth r) (resume scope depth r') := by
  cases h with
  | ok h => exact .ok ⟨rfl, rfl, h⟩
  | error h => exact .error ⟨rfl, rfl, h⟩

theorem visit_isolated {limit : Nat} {node : Node} {part : Sink.Part}
    (hnode : ∀ b : Builtin, b.part? = some part → node.calls b = false) (e : Engine)
    (other : Sink) :
    SameEnd (fun e₁ e₁' => e₁.withPart part e.sink = e₁ ∧ e₁.withPart part other = e₁')
      (visit limit node e) (visit limit node (e.withPart part other)) := by
  obtain ⟨sink, scope, depth⟩ := e
  have hstep : SameEnd (part.Apart sink other) (Lexical.visit limit scope.peek? node sink)
      (Lexical.visit limit scope.peek? node (part.copy other sink)) :=
    InStep.visit limit scope.peek? hnode sink _ ⟨part.copy_self sink, rfl⟩
  rw [visit_eq_lexical limit scope depth node sink, withPart,
    visit_eq_lexical limit scope depth node (part.copy other sink)]
  refine (sameEnd_resume scope depth hstep).mono ?_
  rintro ⟨s, sc, d⟩ ⟨s', _, _⟩ ⟨rfl, rfl, hs, rfl⟩
  exact ⟨by rw [withPart, hs], rfl⟩

/-- No run changes the parameters of the request. -/
theorem visit_parameters (limit : Nat) (node : Node) (e : Engine) :
    (endState (visit limit node e)).sink.parameters = e.sink.parameters := by
  obtain ⟨sink, scope, depth⟩ := e
  have hextends := OnlyExtends.visit limit scope.peek? node sink
  rw [visit_eq_lexical limit scope depth node sink]
  cases hend : Lexical.visit limit scope.peek? node sink <;> rw [hend] at hextends <;>
    exact hextends.parameters

/-- **A tree has nothing to do with the parts of the sink that it does not name.** If none of
its echoes calls a function of a part, two runs on sinks that differ in this part only, from
the same scope or from outside of all loops, end alike: with the same fault if there is one,
and on sinks that still differ in this part only, each with its own as it was. And no tree
changes the parameters of the request. -/
theorem run_isolated (limit : Nat) (node : Node) :
    (∀ part : Sink.Part, (∀ b : Builtin, b.part? = some part → node.calls b = false) →
      ∀ run ∈ [visit limit node, execute limit node], ∀ (e : Engine) (other : Sink),
        SameEnd (fun e₁ e₁' => e₁.withPart part e.sink = e₁ ∧ e₁.withPart part other = e₁')
          (run e) (run (e.withPart part other))) ∧
      ∀ run ∈ [visit limit node, execute limit node], ∀ e : Engine,
        (endState (run e)).sink.parameters = e.sink.parameters := by
  simp only [List.forall_mem_cons, List.not_mem_nil, false_implies, implies_true, and_true]
  refine ⟨fun part hnode => ⟨visit_isolated hnode, fun e other => ?_⟩,
    visit_parameters limit node, fun e => visit_parameters limit node (onSink e.sink)⟩
  exact visit_isolated hnode (onSink e.sink) other

/-- A loop that sets persistent parameters, and then a fault: the temporary ones stay apart. -/
theorem run_isolated_temporary :
    let setting : Node :=
      .loop ⟨"i", .integer 1, .integer 2, none⟩
        [.text "x", .echo [.loopVariable "i", .text "n", .function "PParamSet"]]
    let node : Node := .document [setting, .echo [.integer 1, .integer 0, .operator "/"]]
    let e := onSink (.fresh .utf8 true [] (.unbounded []))
    let other : Sink := { e.sink with temporary := [("n", "9")] }
    (∀ b : Builtin, b.part? = some .temporary → node.calls b = false) ∧
      SameEnd
        (fun e₁ e₁' => e₁.withPart .temporary e.sink = e₁ ∧ e₁.withPart .temporary other = e₁')
        (visit 2 node e) (visit 2 node (e.withPart .temporary other)) ∧
      (endState (visit 2 node (e.withPart .temporary other))).sink.temporary =
        ([("n", "9")] : Entries) ∧
      (endState (visit 2 node (e.withPart .temporary other))).sink.persistent.entries =
        ([("n", "2")] : Entries) := by
  intro setting node e other
  have hnode : ∀ b : Builtin, b.part? = some .temporary → node.calls b = false := by
    intro b
    cases b <;> decide +kernel
  refine ⟨hnode, ?_, by decide +kernel, by decide +kernel⟩
  exact (run_isolated 2 node).1 .temporary hnode _ List.mem_cons_self e other

end Engine

end TagTemplate
