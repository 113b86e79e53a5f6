/-
Loops with constants in their headers can be written out: a copy of the body for each pass,
with the value of the pass in place of the variable.

To an echo a variable and the constant of its value are the same, so a run in the
environment of a pass is a run of the copy in the environment around the loop. An inner
loop over the same variable hides it, and is the same in all copies. The bounds of inner
loops need no copying: a variable is no bound, also where it has a value.
-/
import TagTemplate.Proofs.Engine.Counting
import TagTemplate.Proofs.Engine.Lexical

namespace TagTemplate

/-! ## Writing a value in place of a variable -/

/-- The constant that stands for a number. -/
def Number.constant : Number → Token
  | .integer n => .integer n.toInt
  | .double x => .double x

/-- A token with the value in place of the variable. -/
def Token.instantiate (name : Text) (v : Number) : Token → Token
  | .loopVariable x => if name = x then v.constant else .loopVariable x
  | token => token

namespace Node

mutual

/-- A node with the value in place of the variable in all echoes, but for those in loops
over a variable of the same name. -/
def instantiate (name : Text) (v : Number) : Node → Node
  | document children => document (instantiateAll name v children)
  | text content => text content
  | echo tokens => echo (tokens.map (·.instantiate name v))
  | loop header children =>
    if name = header.name then loop header children
    else loop header (instantiateAll name v children)

def instantiateAll (name : Text) (v : Number) : List Node → List Node
  | [] => []
  | node :: nodes => instantiate name v node :: instantiateAll name v nodes

end

/-- The copies of a loop's body, one for each of its passes. -/
def unrolled (name : Text) (start step : Number) (passes : Nat) (children : List Node) :
    List Node :=
  (List.range passes).flatMap fun k => instantiateAll name (start.counted step k) children

theorem unrolled_succ (name : Text) (start step : Number) (passes : Nat) (children : List Node) :
    unrolled name start step (passes + 1) children =
      instantiateAll name start children ++ unrolled name (start.plus step) step passes
        children := by
  simp only [unrolled, List.range_succ_eq_map, List.flatMap_cons, List.flatMap_map,
    Number.counted_zero, Number.counted_succ]

end Node

/-! ## Substitution -/

namespace Lexical

/-- An inner binding of a name hides an outer one. -/
theorem extend_extend_same (env : Echo.Lookup) (name : Text) (v w : Number) :
    extend (extend env name v) name w = extend env name w := by
  funext x
  simp only [extend]
  split <;> rfl

theorem extend_comm (env : Echo.Lookup) {name name' : Text} (h : name ≠ name') (v w : Number) :
    extend (extend env name v) name' w = extend (extend env name' w) name v := by
  funext x
  simp only [extend]
  split
  · next hx => rw [if_neg (hx ▸ h)]
  · rfl

variable {name : Text} {v : Number} {env : Echo.Lookup}

theorem act_instantiate (stack : Stack) (token : Token) :
    Echo.act (extend env name v) stack token = Echo.act env stack (token.instantiate name v) := by
  cases token with
  | loopVariable x =>
    by_cases hx : name = x
    · simp only [Token.instantiate, if_pos hx, Echo.act, extend]
      cases v <;> rfl
    · simp only [Token.instantiate, if_neg hx, Echo.act, extend]
  | _ => rfl

theorem run_instantiate (tokens : List Token) :
    Echo.run (extend env name v) tokens = Echo.run env (tokens.map (·.instantiate name v)) := by
  have hact : Echo.act (extend env name v) =
      fun stack token => Echo.act env stack (token.instantiate name v) := by
    funext stack token
    exact act_instantiate stack token
  rw [Echo.run, Echo.run, Echo.evaluate, Echo.evaluate, List.foldlM_map, hact]

mutual

/-- **Substitution.** To run a node where a variable has a value is to run it with the value
written in place of the variable. -/
theorem visit_instantiate (limit : Nat) (name : Text) (v : Number) (env : Echo.Lookup) :
    ∀ node, visit limit (extend env name v) node = visit limit env (node.instantiate name v)
  | .document children => by
    simp only [Node.instantiate, visit]
    exact visitAll_instantiate limit name v env children
  | .text content => by simp only [Node.instantiate, visit]
  | .echo tokens => by simp only [Node.instantiate, visit, run_instantiate]
  | .loop header children => by
    simp only [Node.instantiate]
    split
    · next hsame => simp only [visit, ← hsame, extend_extend_same]
    · next hother =>
      simp only [visit, extend_comm env hother]
      congr 1
      funext w
      exact visitAll_instantiate limit name v (extend env header.name w) children

theorem visitAll_instantiate (limit : Nat) (name : Text) (v : Number) (env : Echo.Lookup) :
    ∀ nodes, visitAll limit (extend env name v) nodes =
      visitAll limit env (Node.instantiateAll name v nodes)
  | [] => by simp only [Node.instantiateAll, visitAll]
  | node :: nodes => by
    simp only [Node.instantiateAll, visitAll, visit_instantiate limit name v env node,
      visitAll_instantiate limit name v env nodes]

end

/-! ## Passes -/

/-- The passes of a loop one after another are the copies of its body one after another,
whatever becomes of each of them. -/
theorem passes_eq_unrolled (limit : Nat) (env : Echo.Lookup) (name : Text) (stop step : Number)
    (children : List Node) (count : Nat) :
    ∀ {start : Number} {left : Nat}, count ≤ left →
      (∀ k < count, (start.counted step k).order stop ≠ .gt) →
      (start.counted step count).order stop = .gt →
      passes stop step (fun v => visitAll limit env (Node.instantiateAll name v children))
        left start =
        visitAll limit env (Node.unrolled name start step count children) := by
  induction count with
  | zero =>
    intro start left _ _ hafter
    unfold passes
    exact if_pos hafter
  | succ count ih =>
    intro start left hleft hbefore hafter
    obtain ⟨left, rfl⟩ : ∃ rest, left = rest + 1 := Nat.exists_eq_add_of_le' (by omega)
    have hstart : start.order stop ≠ .gt := hbefore 0 (by omega)
    rw [passes, if_neg hstart, Node.unrolled_succ, visitAll_append,
      ih (by omega) (fun k hk => hbefore (k + 1) (by omega)) hafter]

end Lexical

namespace Engine

/-- **Loop unrolling.** A loop with numeric constants in its header that goes past its stop
after some passes, and not before, does the same as the copies of its body for these
passes: the same end, be it a fault in one of them, the same sink and the same scope. -/
theorem visit_loop_eq_unrolled (limit : Nat) {header : Loop} {start stop step : Number}
    {count : Nat} (hrange : header.range? = some (start, stop, step)) (hnan : stop.isNaN = false)
    (hbefore : ∀ k < count, (start.counted step k).order stop ≠ .gt)
    (hafter : (start.counted step count).order stop = .gt)
    (hlimit : count ≤ limit ∨ passLimit ≤ limit) (children : List Node) (e : Engine) :
    visit limit (.loop header children) e =
      visitAll limit (Node.unrolled header.name start step count children) e := by
  obtain ⟨sink, scope, depth⟩ := e
  have hcount : count ≤ limit := hlimit.elim id
    (Nat.le_trans (Nat.le_of_lt (Number.lt_passLimit hbefore hafter)))
  have hbounds : Lexical.lift (bounds header) = pure (start, stop, step) := by
    rw [(bounds_eq_ok_iff header start stop step).2 hrange]
    rfl
  rw [visit_eq_lexical, visitAll_eq_lexical, Lexical.visit, Lexical.loop, hbounds]
  simp only [pure_bind, hnan, Bool.false_eq_true, if_false, Lexical.visitAll_instantiate]
  rw [Lexical.passes_eq_unrolled limit _ header.name stop step children count hcount hbefore hafter]

/-- From 1 to 2 by halves: an integer, then two doubles, and an inner loop that hides them. -/
theorem visit_loop_eq_unrolled_halves :
    let half : Double := .ofRank false 0x3fe0000000000000
    let oneAndHalf : Double := .ofRank false 0x3ff8000000000000
    let two : Double := .ofRank false 0x4000000000000000
    let header : Loop := ⟨"x", .integer 1, .integer 2, some (.double half)⟩
    let inner : Node := .loop ⟨"x", .integer 7, .integer 7, none⟩ [.echo [.loopVariable "x"]]
    let children : List Node := [.echo [.text "n", .loopVariable "x", .function "tparamset"], inner]
    let copy (c : Token) : List Node := [.echo [.text "n", c, .function "tparamset"], inner]
    let e := onSink (.fresh .utf8 true [] (.unbounded []))
    let start : Number := .integer 1
    let stop : Number := .integer 2
    let step : Number := .double half
    header.range? = some (start, stop, step) ∧ stop.isNaN = false ∧
      (∀ k < 3, (start.counted step k).order stop ≠ .gt) ∧
      (start.counted step 3).order stop = .gt ∧ (3 ≤ 3 ∨ passLimit ≤ 3) ∧
      visit 3 (.loop header children) e =
        visitAll 3 (copy (.integer 1) ++ copy (.double oneAndHalf) ++ copy (.double two)) e := by
  intro half oneAndHalf two header inner children copy e start stop step
  have hrange : header.range? = some (start, stop, step) := by decide +kernel
  have hbefore : ∀ k < 3, (start.counted step k).order stop ≠ .gt := by decide +kernel
  have hafter : (start.counted step 3).order stop = .gt := by decide +kernel
  have hcopies : Node.unrolled header.name start step 3 children =
      copy (.integer 1) ++ copy (.double oneAndHalf) ++ copy (.double two) := by decide +kernel
  have hlimit : 3 ≤ 3 ∨ passLimit ≤ 3 := .inl (Nat.le_refl 3)
  refine ⟨hrange, rfl, hbefore, hafter, hlimit, ?_⟩
  rw [← hcopies]
  exact visit_loop_eq_unrolled 3 hrange rfl hbefore hafter hlimit children e

end Engine

end TagTemplate
