/-
Properties that pass from the steps of a run to the whole run. If a property holds of doing
nothing, of failing, and of two steps in a row that both have it, it holds of an echo as soon
as it holds of its tokens and of writing, and of a tree as soon as it holds of writing and of
the echoes of the tree.
-/
import TagTemplate.Proofs.Engine.Lexical

namespace TagTemplate

namespace Node

mutual

/-- The tokens of each echo of a tree. -/
def echoes : Node → List (List Token)
  | document children => echoesAll children
  | text _ => []
  | echo tokens => [tokens]
  | loop _ children => echoesAll children

def echoesAll : List Node → List (List Token)
  | [] => []
  | node :: nodes => echoes node ++ echoesAll nodes

end

end Node

/-- A property of steps that they keep when they are put together. -/
structure Compositional {ε : Type} (P : ∀ {α : Type}, EStateM ε Sink α → Prop) : Prop where
  pure : ∀ {α : Type} (a : α), P (Pure.pure a : EStateM ε Sink α)
  throw : ∀ {α : Type} (err : ε), P (MonadExcept.throw err : EStateM ε Sink α)
  bind : ∀ {α β : Type} {x : EStateM ε Sink α} {f : α → EStateM ε Sink β},
    P x → (∀ a, P (f a)) → P (x >>= f)

namespace Compositional

/-! ## Echoes -/

section Echoes

variable {P : ∀ {α : Type}, Action α → Prop}

theorem ofExcept (h : Compositional P) {α : Type} (r : Except Fault α) : P (Action.ofExcept r) := by
  cases r with
  | ok a => exact h.pure a
  | error f => exact h.throw f

theorem lookUp (h : Compositional P) {read : Text → Action (Option Text)}
    (hread : ∀ name, P (read name)) (token : Token) (stack : Stack) :
    P (Builtin.lookUp read token stack) :=
  h.bind (h.ofExcept _) fun _ => h.bind (h.ofExcept _) fun _ => h.bind (hread _) fun _ => h.pure _

theorem changeBy (h : Compositional P) {f : Text → Sink → Sink}
    (hchange : ∀ text, P (.change (f text))) (token : Token) (stack : Stack) :
    P (Builtin.changeBy f token stack) :=
  h.bind (h.ofExcept _) fun _ => h.bind (hchange _) fun _ => h.pure _

theorem changeByTwo (h : Compositional P) {f : Text → Text → Sink → Sink}
    (hchange : ∀ name value, P (.change (f name value))) (token : Token) (stack : Stack) :
    P (Builtin.changeByTwo f token stack) :=
  h.bind (h.ofExcept _) fun _ => h.bind (h.ofExcept _) fun _ =>
    h.bind (hchange _ _) fun _ => h.pure _

/-- A token is a computation on the stack, unless it calls a function. -/
theorem act (h : Compositional P) (lookup : Echo.Lookup) (stack : Stack) (token : Token)
    (hcall : ∀ name b, token = .function name → Builtin.ofName? name = some b →
      P (b.call token stack)) : P (Echo.act lookup stack token) := by
  cases token with
  | integer | double | text => exact h.pure _
  | loopVariable name =>
    simp only [Echo.act]
    split
    · exact h.pure _
    · exact h.throw _
  | operator symbol =>
    exact h.bind (h.ofExcept _) fun _ => h.bind (h.ofExcept _) fun _ => h.pure _
  | function name =>
    simp only [Echo.act]
    split
    · next b hb => exact hcall name b rfl hb
    · exact h.pure _

theorem evaluate (h : Compositional P) (lookup : Echo.Lookup) {tokens : List Token}
    (hact : ∀ token ∈ tokens, ∀ stack, P (Echo.act lookup stack token)) :
    ∀ stack, P (Echo.evaluate lookup stack tokens) := by
  induction tokens with
  | nil => exact fun stack => h.pure stack
  | cons token tokens ih =>
    intro stack
    rw [Echo.evaluate, List.foldlM_cons]
    exact h.bind (hact token List.mem_cons_self stack)
      (ih fun token htoken => hact token (List.mem_cons_of_mem _ htoken))

/-- What holds of all functions holds of evaluating any tokens. -/
theorem evaluate_of_call (h : Compositional P)
    (hcall : ∀ token stack (b : Builtin), P (b.call token stack))
    (lookup : Echo.Lookup) (stack : Stack) (tokens : List Token) :
      P (Echo.evaluate lookup stack tokens) :=
  h.evaluate lookup (fun token _ stack => h.act lookup stack token fun _ b _ _ =>
    hcall token stack b) stack

theorem writeAll (h : Compositional P) (hwrite : ∀ text, P (Sink.write text))
    (values : List Datum) : P (Echo.writeAll values) := by
  induction values with
  | nil => exact h.pure ()
  | cons d values ih => exact h.bind (h.bind (h.ofExcept d.toText) hwrite) fun _ => ih

theorem run (h : Compositional P) (hwrite : ∀ text, P (Sink.write text)) (lookup : Echo.Lookup)
    {tokens : List Token} (hact : ∀ token ∈ tokens, ∀ stack, P (Echo.act lookup stack token)) :
    P (Echo.run lookup tokens) :=
  h.bind (h.evaluate lookup hact []) fun stack => h.writeAll hwrite stack.reverse

end Echoes

/-! ## Trees -/

section Trees

variable {P : ∀ {α : Type}, Lexical.Steps α → Prop}

theorem lift (h : Compositional P) {α : Type} (r : Except Fault α) : P (Lexical.lift r) := by
  cases r with
  | ok a => exact h.pure a
  | error f => exact h.throw (.fault f)

theorem passes (h : Compositional P) {stop step : Number} {body : Number → Lexical.Steps Unit}
    (hbody : ∀ v, P (body v)) (limit : Nat) :
    ∀ current, P (Lexical.passes stop step body limit current) := by
  induction limit with
  | zero =>
    intro current
    rw [Lexical.passes]
    split
    · exact h.pure ()
    · exact h.throw _
  | succ limit ih =>
    intro current
    rw [Lexical.passes]
    split
    · exact h.pure ()
    · exact h.bind (hbody current) fun _ => ih _

theorem loop (h : Compositional P) {limit : Nat} {header : Loop}
    {body : Number → Lexical.Steps Unit} (hbody : ∀ v, P (body v)) :
    P (Lexical.loop limit header body) := by
  refine h.bind (h.lift _) fun (start, stop, step) => ?_
  by_cases hnan : stop.isNaN = true
  · simp only [hnan, if_true]
    exact h.pure ()
  · simp only [hnan]
    exact h.passes hbody limit start

mutual

/-- **What holds of writing and of all echoes of a tree holds of running the tree.** -/
theorem visit (h : Compositional P) (hwrite : ∀ text, P (Lexical.act (Sink.write text)))
    (limit : Nat) (env : Echo.Lookup) :
    ∀ node : Node, (∀ tokens ∈ node.echoes, ∀ lookup, P (Lexical.act (Echo.run lookup tokens))) →
      P (Lexical.visit limit env node)
  | .document children, hecho => by
    rw [Lexical.visit]
    exact visitAll h hwrite limit env children hecho
  | .text content, _ => by
    rw [Lexical.visit]
    exact hwrite content
  | .echo tokens, hecho => by
    rw [Lexical.visit]
    exact hecho tokens List.mem_cons_self env
  | .loop header children, hecho => by
    rw [Lexical.visit]
    exact h.loop fun v => visitAll h hwrite limit _ children hecho

theorem visitAll (h : Compositional P) (hwrite : ∀ text, P (Lexical.act (Sink.write text)))
    (limit : Nat) (env : Echo.Lookup) :
    ∀ nodes : List Node,
      (∀ tokens ∈ Node.echoesAll nodes, ∀ lookup, P (Lexical.act (Echo.run lookup tokens))) →
      P (Lexical.visitAll limit env nodes)
  | [], _ => by
    rw [Lexical.visitAll]
    exact h.pure ()
  | node :: nodes, hecho => by
    rw [Lexical.visitAll]
    simp only [Node.echoesAll, List.mem_append] at hecho
    exact h.bind (visit h hwrite limit env node fun tokens ht => hecho tokens (.inl ht))
      fun _ => visitAll h hwrite limit env nodes fun tokens ht => hecho tokens (.inr ht)

end

end Trees

end Compositional

end TagTemplate
