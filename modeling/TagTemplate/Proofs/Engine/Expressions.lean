/-
Echoes as expressions. An expression has a value, which is found by recursion: the values of
its parts from left to right, and then what its operation makes of them. Its postfix form is
a list of tokens, and `evaluate_tokens` says that these tokens put the value of the
expression on the stack, on top of whatever is there, or fail as the expression does.

Values read from the persistent store count as uses of it, so the sink that evaluation leaves
depends on the order, and it is the same for both.
-/
import TagTemplate.Proofs.Engine.Evaluation

namespace TagTemplate

/-- A name by which a function can be called: its own, in any case. -/
structure Builtin.Spelling (f : Builtin) where
  name : Text
  small : name.map CodePoint.toLower = f.name

theorem Builtin.Spelling.ofName? {f : Builtin} (s : f.Spelling) :
    Builtin.ofName? s.name = some f := by
  have hfind : ∀ g : Builtin, Builtin.all.find? (·.name == g.name) = some g := by
    intro g
    cases g <;> decide
  rw [Builtin.ofName?, s.small]
  exact hfind f

/-- The three sets of parameters that an expression can ask for a value. -/
inductive ParameterSet where
  | request
  | persistent
  | temporary

namespace ParameterSet

/-- The function that looks a name up in a set. -/
def getter : ParameterSet → Builtin
  | request => .paramGet
  | persistent => .persistentGet
  | temporary => .temporaryGet

/-- The value of a parameter. Reading a persistent one may count as a use. -/
def read (name : Text) : ParameterSet → Action (Option Text)
  | request => .read (·.parameter? name)
  | persistent => Sink.readPersistent name
  | temporary => .read (·.temporary? name)

theorem call_getter (token : Token) (default name : Datum) (stack : Stack) (set : ParameterSet) :
    set.getter.call token (default :: name :: stack) = (do
      let key ← .ofExcept name.toText
      return Builtin.orDefault (← set.read key) default :: stack) := by
  have hcall : set.getter.call token (default :: name :: stack) = (do
      let named ← .ofExcept (Stack.popText token (name :: stack))
      return Builtin.orDefault (← set.read named.1) default :: named.2) := by
    cases set <;> rfl
  rw [hcall, Stack.popText_cons]
  cases name.toText <;> rfl

end ParameterSet

inductive Expression where
  | integer (n : Int)
  | double (x : Double)
  | text (s : Text)
  | loopVariable (name : Text)
  | operation (op : Operation) (left right : Expression)
  | sine (spelling : Builtin.sin.Spelling) (angle : Expression)
  | formatted (spelling : Builtin.decfmt.Spelling) (value pattern : Expression)
  | parameter (set : ParameterSet) (spelling : set.getter.Spelling) (name default : Expression)

namespace Expression

/-- The postfix form: the tokens of the parts, and then the one of the operation. -/
def tokens : Expression → List Token
  | integer n => [.integer n]
  | double x => [.double x]
  | text s => [.text s]
  | loopVariable name => [.loopVariable name]
  | operation op left right => left.tokens ++ right.tokens ++ [.operator op.symbol]
  | sine spelling angle => angle.tokens ++ [.function spelling.name]
  | formatted spelling value pattern => value.tokens ++ pattern.tokens ++ [.function spelling.name]
  | parameter _ spelling name default => name.tokens ++ default.tokens ++ [.function spelling.name]

/-- The value. The parts are evaluated from left to right, and before them nothing happens. -/
def eval (lookup : Echo.Lookup) : Expression → Action Datum
  | integer n => return .integer n
  | double x => return .double x
  | text s => return .text s
  | loopVariable name =>
    match lookup name with
    | some v => return .ofNumber v
    | none => throw (.unknownName name)
  | operation op left right => do
    let a ← left.eval lookup
    let b ← right.eval lookup
    return .ofNumber (← .ofExcept (do Number.apply op (← a.toNumber) (← b.toNumber)))
  | sine _ angle => do
    let a ← angle.eval lookup
    .ofExcept (Builtin.sine a)
  | formatted _ value pattern => do
    let v ← value.eval lookup
    let p ← pattern.eval lookup
    .ofExcept (do Builtin.formatted v (← p.toText))
  | parameter set _ name default => do
    let n ← name.eval lookup
    let d ← default.eval lookup
    let key ← .ofExcept n.toText
    return Builtin.orDefault (← set.read key) d

/-- The values of expressions, one after another. -/
def evalAll (lookup : Echo.Lookup) (es : List Expression) : Action (List Datum) :=
  es.mapM (eval lookup)

/-! ## Operations on the top of the stack -/

theorem operate_symbol (op : Operation) (left right : Datum) :
    Number.operate left.operand op.symbol right.operand =
      (do Number.apply op (← left.toNumber) (← right.toNumber)) := by
  cases op <;> rfl

theorem act_operator (lookup : Echo.Lookup) (op : Operation) (left right : Datum) (stack : Stack) :
    Echo.act lookup (right :: left :: stack) (.operator op.symbol) = (do
      return .ofNumber (← .ofExcept (do Number.apply op (← left.toNumber) (← right.toNumber))) ::
        stack) := by
  rw [← operate_symbol]
  rfl

theorem act_spelling (lookup : Echo.Lookup) (stack : Stack) {f : Builtin} (s : f.Spelling) :
    Echo.act lookup stack (.function s.name) = f.call (.function s.name) stack := by
  simp only [Echo.act, s.ofName?]

theorem call_sin (token : Token) (angle : Datum) (stack : Stack) :
    Builtin.sin.call token (angle :: stack) = (do
      return (← .ofExcept (Builtin.sine angle)) :: stack) := by
  show Action.ofExcept (Builtin.sine angle >>= fun d => .ok (d :: stack)) = _
  rw [Action.ofExcept_bind]
  rfl

theorem call_decfmt (token : Token) (value pattern : Datum) (stack : Stack) :
    Builtin.decfmt.call token (pattern :: value :: stack) = (do
      return (← .ofExcept (do Builtin.formatted value (← pattern.toText))) :: stack) := by
  rw [Builtin.call, Stack.popText_cons]
  cases pattern.toText with
  | error f => rfl
  | ok text =>
    show Action.ofExcept (Builtin.formatted value text >>= fun d => .ok (d :: stack)) = _
    rw [Action.ofExcept_bind]
    rfl

/-! ## Running the tokens -/

theorem evaluate_cons (lookup : Echo.Lookup) (stack : Stack) (token : Token) (rest : List Token) :
    Echo.evaluate lookup stack (token :: rest) =
      (do Echo.evaluate lookup (← Echo.act lookup stack token) rest) := List.foldlM_cons ..

/-- The tokens of an expression put its value on the stack, whatever is there and whatever
tokens follow. -/
theorem evaluate_tokens (lookup : Echo.Lookup) (e : Expression) (stack : Stack)
    (rest : List Token) :
    Echo.evaluate lookup stack (e.tokens ++ rest) =
      (do Echo.evaluate lookup ((← e.eval lookup) :: stack) rest) := by
  induction e generalizing stack rest with
  | integer | double | text =>
    simp only [tokens, List.singleton_append, evaluate_cons, Echo.act, eval, pure_bind]
  | loopVariable name =>
    simp only [tokens, List.singleton_append, evaluate_cons, Echo.act, eval]
    cases lookup name with
    | some v => simp only [pure_bind]
    | none => rfl
  | operation op left right ihl ihr =>
    simp only [tokens, List.append_assoc, ihl, ihr, List.singleton_append, evaluate_cons,
      act_operator, eval, bind_assoc, pure_bind]
  | sine spelling angle ih =>
    simp only [tokens, List.append_assoc, ih, List.singleton_append, evaluate_cons, act_spelling,
      call_sin, eval, bind_assoc, pure_bind]
  | formatted spelling value pattern ihv ihp =>
    simp only [tokens, List.append_assoc, ihv, ihp, List.singleton_append, evaluate_cons,
      act_spelling, call_decfmt, eval, bind_assoc, pure_bind]
  | parameter set spelling name default ihn ihd =>
    simp only [tokens, List.append_assoc, ihn, ihd, List.singleton_append, evaluate_cons,
      act_spelling, ParameterSet.call_getter, eval, bind_assoc, pure_bind]

/-- The tokens of expressions put their values on the stack, the last one on top. -/
theorem evaluate_flatMap_tokens (lookup : Echo.Lookup) (es : List Expression) (stack : Stack) :
    Echo.evaluate lookup stack (es.flatMap tokens) =
      (do return (← evalAll lookup es).reverse ++ stack) := by
  induction es generalizing stack with
  | nil => rfl
  | cons e es ih =>
    simp only [List.flatMap_cons, evaluate_tokens, ih, evalAll, List.mapM_cons,
      bind_assoc, pure_bind,
      List.reverse_cons, List.append_assoc, List.singleton_append]

theorem run_flatMap_tokens (lookup : Echo.Lookup) (es : List Expression) :
    Echo.run lookup (es.flatMap tokens) = (do Echo.writeAll (← evalAll lookup es)) := by
  simp only [Echo.run, evaluate_flatMap_tokens, bind_assoc, pure_bind, List.append_nil,
    List.reverse_reverse]

end Expression

/-! ## Writing the values -/

theorem Encoding.encode?_empty (c : Encoding) : c.encode? "" = some .empty := by
  cases c <;> rfl

theorem Encoding.singleBytes_append (s t : Text) :
    singleBytes (s ++ t) = singleBytes s ++ singleBytes t := by
  ext1
  simp [singleBytes]

/-- A text has bytes if its two pieces have, and they are the bytes of the one before those
of the other. -/
theorem Encoding.encode?_append (c : Encoding) (s t : Text) :
    c.encode? (s ++ t) = (do return (← c.encode? s) ++ (← c.encode? t)) := by
  cases c with
  | utf8 =>
    simp only [encode?, Text.string?_append]
    cases s.string? <;> cases t.string? <;> simp
  | ascii =>
    simp only [encode?, Text.toList_append, List.all_append, singleBytes_append]
    cases s.toList.all (·.toNat < 128) <;> cases t.toList.all (·.toNat < 128) <;> rfl
  | latin1 =>
    simp only [encode?, Text.toList_append, List.all_append, singleBytes_append]
    cases s.toList.all (·.toNat < 256) <;> cases t.toList.all (·.toNat < 256) <;> rfl

theorem Sink.append_empty (s : Sink) : s.append .empty = s := by simp [append]

theorem Sink.append_append (s : Sink) (a b : ByteArray) :
    (s.append a).append b = s.append (a ++ b) := by
  simp only [append, ByteArray.append_assoc]

theorem Sink.write_of_some {s : Sink} {text : Text} {bytes : ByteArray}
    (h : s.encoding.encode? text = some bytes) : write text s = .ok () (s.append bytes) := by
  simp only [write, h]

theorem Sink.write_of_none {s : Sink} {text : Text} (h : s.encoding.encode? text = none) :
    write text s = .error .unencodable s := by
  simp only [write, h]

theorem Echo.write_of_toText {d : Datum} {text : Text} (h : d.toText = .ok text) :
    write d = Sink.write text := by
  rw [write, h]
  rfl

theorem Echo.write_of_toText_error {d : Datum} {f : Fault} (h : d.toText = .error f) (s : Sink) :
    write d s = .error f s := by
  rw [write, h]
  rfl

theorem Echo.write_eq_ok_iff (d : Datum) {s s' : Sink} :
    write d s = .ok () s' ↔
      ∃ text bytes, d.toText = .ok text ∧ s.encoding.encode? text = some bytes ∧
        s' = s.append bytes := by
  cases htext : d.toText with
  | error f =>
    rw [write_of_toText_error htext]
    exact ⟨fun h => (by cases h), fun ⟨_, _, h, _⟩ => (by cases h)⟩
  | ok text =>
    rw [write_of_toText htext]
    constructor
    · intro h
      cases hbytes : s.encoding.encode? text with
      | none =>
        rw [Sink.write_of_none hbytes] at h
        cases h
      | some bytes =>
        rw [Sink.write_of_some hbytes] at h
        cases h
        exact ⟨text, bytes, rfl, hbytes, rfl⟩
    · rintro ⟨_, bytes, ⟨⟩, hbytes, rfl⟩
      exact Sink.write_of_some hbytes

/-- Writing values one by one succeeds if they all have texts and these as one have bytes,
and writes the bytes. -/
theorem Echo.writeAll_eq_ok_iff (values : List Datum) {s s' : Sink} :
    writeAll values s = .ok () s' ↔
      ∃ texts bytes, values.mapM Datum.toText = .ok texts ∧
        s.encoding.encode? (Text.join texts) = some bytes ∧ s' = s.append bytes := by
  induction values generalizing s with
  | nil =>
    constructor
    · intro h
      cases h
      exact ⟨[], .empty, rfl, Encoding.encode?_empty _, (Sink.append_empty _).symm⟩
    · rintro ⟨_, bytes, ⟨⟩, hbytes, rfl⟩
      have hnothing : s.encoding.encode? "" = some bytes := hbytes
      rw [Encoding.encode?_empty] at hnothing
      cases hnothing
      rw [Sink.append_empty]
      rfl
  | cons d values ih =>
    have hcons : writeAll (d :: values) s = (write d >>= fun _ => writeAll values) s := rfl
    rw [hcons]
    constructor
    · intro h
      obtain ⟨_, s₁, hwrite, hrest⟩ := bind_eq_ok h
      obtain ⟨text, bytes, htext, hbytes, rfl⟩ := (write_eq_ok_iff d).1 hwrite
      obtain ⟨texts, more, htexts, hmore, rfl⟩ := ih.1 hrest
      refine ⟨text :: texts, bytes ++ more, except_mapM_cons_eq_ok.2 ⟨_, _, htext, htexts, rfl⟩, ?_,
        Sink.append_append ..⟩
      rw [Text.join_cons, Encoding.encode?_append, hbytes,
        show s.encoding.encode? _ = _ from hmore]
      rfl
    · rintro ⟨_, _, hall, hbytes, rfl⟩
      obtain ⟨text, texts, htext, htexts, rfl⟩ := except_mapM_cons_eq_ok.1 hall
      rw [Text.join_cons, Encoding.encode?_append] at hbytes
      obtain ⟨bytes, hfirst, hbytes⟩ := Option.bind_eq_some_iff.1 hbytes
      obtain ⟨more, hmore, hbytes⟩ := Option.bind_eq_some_iff.1 hbytes
      cases hbytes
      rw [bind_of_ok ((write_eq_ok_iff d).2 ⟨text, bytes, htext, hfirst, rfl⟩), ih]
      exact ⟨texts, more, htexts, hmore, (Sink.append_append ..).symm⟩

namespace Engine

open Expression

/-- **Postfix tokens evaluate expressions.** On any stack the tokens of expressions, one after
another, leave the values of the expressions on top of it, the last one first, and the sink as
the evaluation of the expressions leaves it; where that fails, they fail in the same way. As
one echo they write the texts of the values in the order of the expressions, provided that
they all have texts and the output has bytes for these. -/
theorem visit_expressions (limit : Nat) (es : List Expression) (e : Engine) :
    (∀ stack, Echo.evaluate e.scope.peek? stack (es.flatMap tokens) e.sink =
      match evalAll e.scope.peek? es e.sink with
      | .ok values s => .ok (values.reverse ++ stack) s
      | .error f s => .error f s) ∧
    match evalAll e.scope.peek? es e.sink with
    | .ok values s => ∀ e', visit limit (.echo (es.flatMap tokens)) e = .ok () e' ↔
        ∃ texts bytes, values.mapM Datum.toText = .ok texts ∧
          s.encoding.encode? (Text.join texts) = some bytes ∧
          e' = ⟨s.append bytes, e.scope, e.depth⟩
    | .error f s =>
        visit limit (.echo (es.flatMap tokens)) e = .error (.fault f) ⟨s, e.scope, e.depth⟩ := by
  constructor
  · intro stack
    rw [evaluate_flatMap_tokens]
    cases h : evalAll e.scope.peek? es e.sink with
    | ok values s => exact bind_of_ok h
    | error f s => exact bind_of_error h
  · cases h : evalAll e.scope.peek? es e.sink with
    | ok values s =>
      intro e'
      simp only [visit, act, run_flatMap_tokens, bind_of_ok h]
      constructor
      · intro hrun
        split at hrun
        · next s' hwrite =>
          cases hrun
          obtain ⟨texts, bytes, htexts, hbytes, rfl⟩ := (Echo.writeAll_eq_ok_iff values).1 hwrite
          exact ⟨texts, bytes, htexts, hbytes, rfl⟩
        · cases hrun
      · rintro ⟨texts, bytes, htexts, hbytes, rfl⟩
        rw [(Echo.writeAll_eq_ok_iff values).2 ⟨texts, bytes, htexts, hbytes, rfl⟩]
    | error f s => simp only [visit, act, run_flatMap_tokens, bind_of_error h]

end Engine

end TagTemplate
