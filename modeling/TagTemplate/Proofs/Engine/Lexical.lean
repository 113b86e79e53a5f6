/-
A second way to run a tree, without a scope that is changed: each node is run in an
environment, and a loop runs its body in the environment in which its own variable
has the value of the pass. `visit_eq_lexical` says that an engine does the same to its
sink, whatever its scope holds, and that its scope is as before afterwards, whether
the run ends well or fails.

The scope is changed all the time in between: a loop puts its variable in, and takes
it out and puts the next value in after each pass. What carries the proof is that a
pass begins in the scope from outside the loop with one binding on top, and that
dropping this binding gives the outer scope back.
-/
import TagTemplate.Engine.Basic

namespace TagTemplate

/-! ## The interpreter without a scope -/

namespace Lexical

/-- Steps on a sink. -/
abbrev Steps := EStateM Halt Sink

/-- A step of an echo or of a text. -/
def act (a : Action α) : Steps α := fun sink =>
  match a sink with
  | .ok x sink => .ok x sink
  | .error f sink => .error (.fault f) sink

def lift (r : Except Fault α) : Steps α := fun sink =>
  match r with
  | .ok x => .ok x sink
  | .error f => .error (.fault f) sink

/-- The environment outside of all loops. -/
def outermost : Echo.Lookup := fun _ => none

/-- The environment inside a loop. -/
def extend (env : Echo.Lookup) (name : Text) (v : Number) : Echo.Lookup :=
  fun x => if name = x then some v else env x

/-- The passes of a loop from the value `current` on, with the body as a function of the
value. -/
def passes (stop step : Number) (body : Number → Steps Unit) :
    (limit : Nat) → (current : Number) → Steps Unit
  | limit, current =>
    if current.order stop = .gt then pure ()
    else
      match limit with
      | 0 => throw .passLimit
      | limit + 1 => do
        body current
        passes stop step body limit (current.plus step)

def loop (limit : Nat) (header : Loop) (body : Number → Steps Unit) : Steps Unit := do
  let (start, stop, step) ← lift (Engine.bounds header)
  if stop.isNaN then return
  passes stop step body limit start

mutual

/-- Runs a node in an environment, with at most `limit` passes of each loop. -/
def visit (limit : Nat) (env : Echo.Lookup) : Node → Steps Unit
  | .document children => visitAll limit env children
  | .text content => act (Sink.write content)
  | .echo tokens => act (Echo.run env tokens)
  | .loop header children =>
    loop limit header fun v => visitAll limit (extend env header.name v) children

def visitAll (limit : Nat) (env : Echo.Lookup) : List Node → Steps Unit
  | [] => pure ()
  | node :: nodes => do
    visit limit env node
    visitAll limit env nodes

end

theorem visitAll_append (limit : Nat) (env : Echo.Lookup) (nodes nodes' : List Node) :
    visitAll limit env (nodes ++ nodes') =
      (do visitAll limit env nodes; visitAll limit env nodes') := by
  induction nodes with
  | nil => simp [visitAll]
  | cons node nodes ih => simp [visitAll, ih]

end Lexical

/-! ## Lookup in a scope -/

namespace Scope

theorem peek?_empty : Scope.empty.peek? = Lexical.outermost := rfl

theorem peek?_push (s : Scope) (name : Text) (v : Number) :
    (s.push name v).peek? = Lexical.extend s.peek? name v := by
  funext x
  simp only [peek?_eq_head?, stack_push, Lexical.extend]
  split <;> rfl

@[simp] theorem pop?_push (s : Scope) (name : Text) (v : Number) :
    (s.push name v).pop? name = some (v, s) := by
  simp [pop?, peek?_push, Lexical.extend]

end Scope

/-! ## Steps that leave the scope alone -/

namespace Engine

/-- The outcome of steps on the sink, as that of an engine with this scope. -/
def resume (scope : Scope) (depth : Nat) : EStateM.Result Halt Sink α → EStateM.Result Halt Engine α
  | .ok x sink => .ok x ⟨sink, scope, depth⟩
  | .error h sink => .error h ⟨sink, scope, depth⟩

/-- In this scope a run of the engine comes to the same as steps on its sink, and leaves
the scope as it was. -/
def Agrees (scope : Scope) (depth : Nat) (x : Run α) (y : Lexical.Steps α) : Prop :=
  ∀ sink, x ⟨sink, scope, depth⟩ = resume scope depth (y sink)

namespace Agrees

variable {scope : Scope} {depth : Nat}

theorem pure (a : α) : Agrees scope depth (Pure.pure a) (Pure.pure a) := fun _ => rfl

theorem act (a : Scope → Action α) : Agrees scope depth (Engine.act a) (Lexical.act (a scope)) := by
  intro sink
  simp only [Engine.act, Lexical.act]
  cases a scope sink <;> rfl

theorem lift (r : Except Fault α) : Agrees scope depth (Engine.lift r) (Lexical.lift r) := by
  intro sink
  cases r <;> rfl

theorem bind {x : Run α} {y : Lexical.Steps α} {f : α → Run β} {g : α → Lexical.Steps β}
    (hx : Agrees scope depth x y) (hf : ∀ a, Agrees scope depth (f a) (g a)) :
    Agrees scope depth (x >>= f) (y >>= g) := by
  intro sink
  have hx := hx sink
  simp only [Bind.bind, EStateM.bind]
  cases hy : y sink with
  | ok a s =>
    rw [hy] at hx
    rw [hx]
    exact hf a s
  | error h s =>
    rw [hy] at hx
    rw [hx]
    rfl

end Agrees

/-! ## Loops -/

/-- The outcome of a run, with the binding that counts for a name taken out. -/
def release (name : Text) : EStateM.Result Halt Engine α → EStateM.Result Halt Engine α
  | .ok x e => .ok x (e.unbind name)
  | .error h e => .error h (e.unbind name)

theorem binding_eq_release (name : Text) (v : Number) (body : Run Unit) (e : Engine) :
    binding name v body e = release name (body (e.bind name v)) := by
  simp only [binding]
  cases body (e.bind name v) <;> rfl

@[simp] theorem release_resume (scope : Scope) (depth : Nat) (name : Text) (v : Number)
    (r : EStateM.Result Halt Sink α) :
    release name (resume (scope.push name v) (depth + 1) r) = resume scope depth r := by
  cases r <;> simp [resume, release, unbind]

theorem advance_push (sink : Sink) (scope : Scope) (depth : Nat) (name : Text) (v step : Number) :
    advance name step ⟨sink, scope.push name v, depth⟩ =
      .ok (v.plus step) ⟨sink, scope.push name (v.plus step), depth⟩ := by
  simp [advance]

/-- The passes of a loop, begun with its variable on top of a scope, leave that scope once
the variable is taken out. -/
theorem release_passes {scope : Scope} {depth : Nat} {name : Text} {stop step : Number}
    {body : Run Unit} {inner : Number → Lexical.Steps Unit}
    (h : ∀ v, Agrees (scope.push name v) (depth + 1) body (inner v)) (limit : Nat) :
    ∀ (current : Number) (sink : Sink),
      release name (passes name stop step body limit current
          ⟨sink, scope.push name current, depth + 1⟩) =
        resume scope depth (Lexical.passes stop step inner limit current sink) := by
  induction limit with
  | zero =>
    intro current sink
    unfold passes Lexical.passes
    split
    · exact release_resume scope depth name current (.ok () sink)
    · exact release_resume scope depth name current (.error .passLimit sink)
  | succ limit ih =>
    intro current sink
    unfold passes Lexical.passes
    split
    · exact release_resume scope depth name current (.ok () sink)
    · have hbody := h current sink
      simp only [Bind.bind, EStateM.bind]
      cases hinner : inner current sink with
      | ok _ s =>
        rw [hinner] at hbody
        rw [hbody]
        simp only [resume, advance_push]
        exact ih (current.plus step) s
      | error halt s =>
        rw [hinner] at hbody
        rw [hbody]
        exact release_resume scope depth name current (.error halt s)

theorem Agrees.loop {scope : Scope} {depth limit : Nat} {header : Loop} {body : Run Unit}
    {inner : Number → Lexical.Steps Unit}
    (h : ∀ v, Agrees (scope.push header.name v) (depth + 1) body (inner v)) :
    Agrees scope depth (Engine.loop limit header body) (Lexical.loop limit header inner) := by
  refine .bind (.lift (bounds header)) fun (start, stop, step) => ?_
  by_cases hnan : stop.isNaN = true
  · simp only [hnan, if_true]
    exact .pure ()
  · simp only [hnan]
    intro sink
    exact (binding_eq_release ..).trans (release_passes h limit start sink)

/-! ## Trees -/

mutual

/-- **A run in a scope is a run in the environment that the scope is**, and leaves the
scope as it was, however it ends. -/
theorem visit_eq_lexical (limit : Nat) (scope : Scope) (depth : Nat) :
    ∀ node, Agrees scope depth (visit limit node) (Lexical.visit limit scope.peek? node)
  | .document children => by
    simp only [visit, Lexical.visit]
    exact visitAll_eq_lexical limit scope depth children
  | .text content => by
    simp only [visit, Lexical.visit]
    exact .act fun _ => Sink.write content
  | .echo tokens => by
    simp only [visit, Lexical.visit]
    exact .act fun scope => Echo.run scope.peek? tokens
  | .loop header children => by
    simp only [visit, Lexical.visit]
    refine .loop fun v => ?_
    rw [← Scope.peek?_push]
    exact visitAll_eq_lexical limit (scope.push header.name v) (depth + 1) children

theorem visitAll_eq_lexical (limit : Nat) (scope : Scope) (depth : Nat) :
    ∀ nodes, Agrees scope depth (visitAll limit nodes) (Lexical.visitAll limit scope.peek? nodes)
  | [] => by
    simp only [visitAll, Lexical.visitAll]
    exact .pure ()
  | node :: nodes => by
    simp only [visitAll, Lexical.visitAll]
    exact .bind (visit_eq_lexical limit scope depth node)
      fun _ => visitAll_eq_lexical limit scope depth nodes

end

end Engine

end TagTemplate
