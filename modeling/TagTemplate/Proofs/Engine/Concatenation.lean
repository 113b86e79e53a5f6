/-
Rendering two templates one after the other is rendering their texts as one. The trees
differ only in the text at the seam (`Node.parse_append`), which is written at once or in
two pieces, and a run from outside of all loops ends there as well.

Only at this seam can the two be told apart. If its second piece cannot be written, the first
one has been written by itself, but not as a part of the whole.
-/
import TagTemplate.Proofs.Engine.Expressions
import TagTemplate.Proofs.Engine.Output
import TagTemplate.Proofs.Syntax.Concatenation

namespace TagTemplate

namespace Lexical

variable {limit : Nat} {env : Echo.Lookup} {s : Sink} {text : Text}

theorem visitAll_run_of_some {bytes : ByteArray} (h : s.encoding.encode? text = some bytes) :
    visitAll limit env (Nest.run text) s = .ok () (s.append bytes) := by
  unfold Nest.run
  split
  · next hempty =>
    rw [Text.isEmpty_iff.1 hempty, Encoding.encode?_empty] at h
    cases h
    rw [Sink.append_empty, visitAll]
    rfl
  · have hwrite : visit limit env (.text text) s = .ok () (s.append bytes) := by
      rw [visit, act, Sink.write_of_some h]
    rw [visitAll, bind_of_ok hwrite, visitAll]
    rfl

theorem visitAll_run_of_none (h : s.encoding.encode? text = none) :
    visitAll limit env (Nest.run text) s = .error (.fault .unencodable) s := by
  have hne : ¬text.isEmpty = true := by
    intro hempty
    rw [Text.isEmpty_iff.1 hempty, Encoding.encode?_empty] at h
    cases h
  have hwrite : visit limit env (.text text) s = .error (.fault .unencodable) s := by
    rw [visit, act, Sink.write_of_none h]
  rw [Nest.run, if_neg hne, visitAll, bind_of_error hwrite]

/-- Some nodes of which the first piece of a text is written alone, because the second one has
no bytes. -/
def IsTorn (limit : Nat) (env : Echo.Lookup) (whole parts : List Node) (x y : Text) (s : Sink) :
    Prop :=
  ∃ s' bytes, x ≠ "" ∧ s.encoding.encode? x = some bytes ∧ s.encoding.encode? y = none ∧
    visitAll limit env whole s = .error (.fault .unencodable) s' ∧
    visitAll limit env parts s = .error (.fault .unencodable) (s'.append bytes)

/-- A stretch of text may be written in two pieces, unless only the second one has no bytes. -/
theorem visitAll_run_append (x y : Text) (s : Sink) :
    visitAll limit env (Nest.run (x ++ y)) s = visitAll limit env (Nest.run x ++ Nest.run y) s ∨
      IsTorn limit env (Nest.run (x ++ y)) (Nest.run x ++ Nest.run y) x y s := by
  by_cases hempty : x = ""
  · subst hempty
    exact .inl rfl
  have happend := Encoding.encode?_append s.encoding x y
  unfold IsTorn
  rw [visitAll_append]
  cases hx : s.encoding.encode? x with
  | none =>
    rw [hx] at happend
    rw [bind_of_error (visitAll_run_of_none hx)]
    exact .inl (visitAll_run_of_none happend)
  | some bytes =>
    rw [bind_of_ok (visitAll_run_of_some hx)]
    cases hy : s.encoding.encode? y with
    | none =>
      rw [hx, hy] at happend
      have hlast : (s.append bytes).encoding.encode? y = none := hy
      exact .inr ⟨s, bytes, hempty, rfl, rfl, visitAll_run_of_none happend,
        visitAll_run_of_none hlast⟩
    | some bytes' =>
      rw [hx, hy] at happend
      have hlast : (s.append bytes).encoding.encode? y = some bytes' := hy
      rw [visitAll_run_of_some hlast, visitAll_run_of_some happend, Sink.append_append]
      exact .inl rfl

theorem visitAll_seam (before after : List Node) (x y : Text) (s : Sink) :
    visitAll limit env (before ++ (Nest.run (x ++ y) ++ after)) s =
        visitAll limit env (before ++ (Nest.run x ++ Nest.run y ++ after)) s ∨
      IsTorn limit env (before ++ (Nest.run (x ++ y) ++ after))
        (before ++ (Nest.run x ++ Nest.run y ++ after)) x y s := by
  unfold IsTorn
  rw [visitAll_append limit env before, visitAll_append limit env before]
  cases hs : visitAll limit env before s with
  | error halt s₁ => exact .inl (by rw [bind_of_error hs, bind_of_error hs])
  | ok _ s₁ =>
    have hs₁ : s₁.encoding = s.encoding := by
      have hextends := OnlyExtends.visitAll limit env before s
      rw [hs] at hextends
      exact hextends.encoding
    rw [bind_of_ok hs, bind_of_ok hs, visitAll_append, visitAll_append limit env (_ ++ _)]
    rcases @visitAll_run_append limit env x y s₁ with
      hsame | ⟨s', bytes, hne, hx, hy, hwhole, hparts⟩
    · left
      simp only [Bind.bind, EStateM.bind, hsame]
    · right
      rw [hs₁] at hx hy
      rw [bind_of_error hwhole, bind_of_error hparts]
      exact ⟨s', bytes, hne, hx, hy, rfl, rfl⟩

end Lexical

namespace Engine

/-- What rendering a template comes to, told without a scope. -/
theorem render_eq_resume (limit : Nat) {text : Text} {doc : Node} (h : Node.parse text = .ok doc)
    (e : Engine) :
    render limit text e = resume .empty 0 (Lexical.visit limit Lexical.outermost doc e.sink) := by
  rw [render, bind_of_ok (lift_ok h e), execute]
  exact visit_eq_lexical limit .empty 0 doc e.sink

/-- **Rendering is a homomorphism for concatenation**, unless it fails at the seam. For two
templates, of which the first one does not end in a lone backslash, and a sink in any state
whose output is in UTF-8, the two texts as one come to the same as the first one and, if this
ends well, the second one after it: the same end, the same output, kind of document, parameters
and store. The one exception is a first template that ends in plain text and a second one that
begins with plain text with a surrogate in it. If this is reached, both end in the same fault
and are alike but for the text before the seam, which is written only if it is a text of its
own. -/
theorem render_append (limit : Nat) {a b : Text} {docA docB : Node} (ha : Node.parse a = .ok docA)
    (hb : Node.parse b = .ok docB) (hlone : ¬EndsInLoneBackslash a) (e : Engine)
    (hutf8 : e.sink.encoding = .utf8) :
    render limit (a ++ b) e = (do render limit a; render limit b) e ∨
      ∃ (before : List Node) (x : String) (y : Text) (after : List Node) (s : Sink),
        docA = .document (before ++ [.text x]) ∧ docB = .document (.text y :: after) ∧
        (∃ offset, .surrogate offset ∈ y.toList) ∧
        render limit (a ++ b) e = .error (.fault .unencodable) (onSink s) ∧
        (do render limit a; render limit b) e =
          .error (.fault .unencodable) (onSink (s.append x.toUTF8)) := by
  obtain ⟨before, x, y, after, rfl, rfl, hab⟩ := Node.parse_append ha hb hlone
  have hsplit : before ++ (Nest.run x ++ Nest.run y ++ after) =
      (before ++ Nest.run x) ++ (Nest.run y ++ after) := by simp
  have hwhole := render_eq_resume limit hab e
  have hrender := render_eq_resume limit ha e
  -- The templates one after the other are the nodes of both, one after the other.
  have hparts : (do render limit a; render limit b) e = resume .empty 0
      (Lexical.visitAll limit Lexical.outermost
        (before ++ (Nest.run x ++ Nest.run y ++ after)) e.sink) := by
    rw [Lexical.visit] at hrender
    rw [hsplit, Lexical.visitAll_append]
    cases hs : Lexical.visitAll limit Lexical.outermost (before ++ Nest.run x) e.sink with
    | error halt s =>
      rw [hs] at hrender
      rw [bind_of_error hs, bind_of_error hrender]
      rfl
    | ok _ s =>
      rw [hs] at hrender
      rw [bind_of_ok hs, bind_of_ok hrender, render_eq_resume limit hb, Lexical.visit]
  rw [Lexical.visit, List.append_assoc] at hwhole
  rcases Lexical.visitAll_seam before after x y e.sink with
    hsame | ⟨s, bytes, hne, hx, hy, htorn, htorn'⟩
  · left
    rw [hwhole, hparts, hsame]
  · right
    rw [hutf8] at hx hy
    obtain ⟨characters, hcharacters, rfl⟩ := Option.map_eq_some_iff.1 hx
    obtain rfl := Text.string?_eq_some_iff.1 hcharacters
    have hsurrogate := Text.string?_eq_none_iff.1 (Option.map_eq_none_iff.1 hy)
    have hyne : ¬y.isEmpty = true := by
      rw [Text.isEmpty_iff]
      rintro rfl
      cases hy
    refine ⟨before, characters, y, after, s, ?_, ?_, hsurrogate, ?_, ?_⟩
    · rw [Nest.run, if_neg (mt Text.isEmpty_iff.1 hne)]
    · rw [Nest.run, if_neg hyne]
      rfl
    · rw [hwhole, htorn]
      rfl
    · rw [hparts, htorn']
      rfl

/-- Text on both sides of the seam, after a pair of backslashes. -/
theorem render_append_backslashes :
    let a : Text := "a\\x\x7b$=\"b\"$\x7dc\\\\"
    let b : Text := "d\x7b$=1 2 +$\x7d"
    let docA : Node := .document [.text "a", .echo [.text "b"], .text "c"]
    let docB : Node := .document [.text "d", .echo [.integer 1, .integer 2, .operator "+"]]
    let e := onSink (.fresh .utf8 true [] (.unbounded []))
    Node.parse a = .ok docA ∧ Node.parse b = .ok docB ∧ ¬EndsInLoneBackslash a ∧
      e.sink.encoding = .utf8 ∧ render 1 (a ++ b) e = (do render 1 a; render 1 b) e := by
  intro a b docA docB e
  have ha : Node.parse a = .ok docA := by decide +kernel
  have hb : Node.parse b = .ok docB := by decide +kernel
  have hlone : ¬EndsInLoneBackslash a := by decide
  refine ⟨ha, hb, hlone, rfl, ?_⟩
  rcases render_append 1 ha hb hlone e rfl with hsame | ⟨_, _, y, after, _, -, hdoc, hsurrogate, -⟩
  · exact hsame
  · obtain ⟨hy, -⟩ := List.cons.inj (Node.document.inj hdoc)
    obtain rfl := Node.text.inj hy
    obtain ⟨offset, hoffset⟩ := hsurrogate
    simp at hoffset

/-- A surrogate right after the seam: only the first text by itself is written before the fault. -/
theorem render_append_surrogate :
    let a : Text := "x"
    let b : Text := .ofList [.surrogate 0]
    let e := onSink (.fresh .utf8 true [] (.unbounded []))
    (∃ doc, Node.parse a = .ok doc) ∧ (∃ doc, Node.parse b = .ok doc) ∧ ¬EndsInLoneBackslash a ∧
      e.sink.encoding = .utf8 ∧
      render 1 (a ++ b) e = .error (.fault .unencodable) e ∧
      (do render 1 a; render 1 b) e =
        .error (.fault .unencodable) (onSink (e.sink.append "x".toUTF8)) ∧
      render 1 (a ++ b) e ≠ (do render 1 a; render 1 b) e := by
  intro a b e
  have ha : Node.parse a = .ok (.document [.text "x"]) := by decide
  have hb : Node.parse b = .ok (.document [.text (.ofList [.surrogate 0])]) := by decide
  have hlone : ¬EndsInLoneBackslash a := by decide
  have hwhole : render 1 (a ++ b) e = .error (.fault .unencodable) e := rfl
  have hparts : (do render 1 a; render 1 b) e =
      .error (.fault .unencodable) (onSink (e.sink.append "x".toUTF8)) := rfl
  refine ⟨⟨_, ha⟩, ⟨_, hb⟩, hlone, rfl, hwhole, hparts, fun hsame => ?_⟩
  rw [hwhole, hparts] at hsame
  have houtput := congrArg (fun r => (endState r).sink.output) hsame
  exact absurd houtput (by decide)

end Engine

end TagTemplate
