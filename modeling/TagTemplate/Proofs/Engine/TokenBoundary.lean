/-
What an echo has done by the time that it fails. Every token takes its values off the stack and
converts and checks them before it touches the sink, and what it does to the sink after that
cannot fail. So a token that fails leaves the sink to the token before it. And no token
writes: what an echo writes comes after the last of them.
-/
import TagTemplate.Proofs.Engine.Expressions
import TagTemplate.Proofs.Engine.Output
import TagTemplate.Proofs.Engine.StackHeight

namespace TagTemplate

/-! ## Steps that fail before they act -/

/-- Steps that never fail. -/
def Succeeds (a : Action α) : Prop := ∀ s, ∃ x s', a s = .ok x s'

namespace Succeeds

theorem pure (x : α) : Succeeds (Pure.pure x) := fun s => ⟨x, s, rfl⟩

theorem change (f : Sink → Sink) : Succeeds (.change f) := fun s => ⟨(), f s, rfl⟩

theorem read (f : Sink → α) : Succeeds (.read f) := fun s => ⟨f s, s, rfl⟩

theorem readPersistent (name : Text) : Succeeds (Sink.readPersistent name) :=
  fun _ => ⟨_, _, rfl⟩

theorem bind {a : Action α} {k : α → Action β} (ha : Succeeds a) (hk : ∀ x, Succeeds (k x)) :
    Succeeds (a >>= k) := by
  intro s
  obtain ⟨x, s₁, h⟩ := ha s
  rw [bind_of_ok h]
  exact hk x s₁

end Succeeds

/-- Steps that leave the sink as it was if they fail. -/
def FailsUntouched (a : Action α) : Prop := ∀ s f s', a s = .error f s' → s' = s

namespace FailsUntouched

theorem of_succeeds {a : Action α} (h : Succeeds a) : FailsUntouched a := by
  intro s f s' hf
  obtain ⟨x, s₁, hok⟩ := h s
  rw [hok] at hf
  cases hf

theorem pure (x : α) : FailsUntouched (Pure.pure x) := of_succeeds (.pure x)

theorem throw (f : Fault) : FailsUntouched (MonadExcept.throw f : Action α) := by
  rintro s _ _ ⟨⟩
  rfl

/-- A computation may come before such steps; steps on the sink may not. -/
theorem ofExcept_bind (r : Except Fault α) {k : α → Action β} (hk : ∀ x, FailsUntouched (k x)) :
    FailsUntouched (.ofExcept r >>= k) := by
  cases r with
  | ok x => exact hk x
  | error f =>
    intro s _ s' h
    rw [ofExcept_bind_of_error rfl k s] at h
    cases h
    rfl

theorem ofExcept (r : Except Fault α) : FailsUntouched (.ofExcept r) := by
  cases r with
  | ok x => exact pure x
  | error f => exact throw f

theorem lookUp {read : Text → Action (Option Text)} (hread : ∀ name, Succeeds (read name))
    (token : Token) (stack : Stack) : FailsUntouched (Builtin.lookUp read token stack) :=
  ofExcept_bind _ fun _ => ofExcept_bind _ fun _ =>
    of_succeeds (.bind (hread _) fun _ => .pure _)

theorem changeBy (f : Text → Sink → Sink) (token : Token) (stack : Stack) :
    FailsUntouched (Builtin.changeBy f token stack) :=
  ofExcept_bind _ fun _ => of_succeeds (.bind (.change _) fun _ => .pure _)

theorem changeByTwo (f : Text → Text → Sink → Sink) (token : Token) (stack : Stack) :
    FailsUntouched (Builtin.changeByTwo f token stack) :=
  ofExcept_bind _ fun _ => ofExcept_bind _ fun _ =>
    of_succeeds (.bind (.change _) fun _ => .pure _)

theorem call (token : Token) (stack : Stack) (b : Builtin) :
    FailsUntouched (b.call token stack) := by
  cases b with
  | sin | decfmt | dup | swap => exact ofExcept _
  | setMimeType | persistentDel | temporaryDel => exact changeBy _ token stack
  | persistentSet | temporarySet => exact changeByTwo _ token stack
  | paramGet | temporaryGet =>
    simp only [Builtin.call]
    exact lookUp (fun _ => .read _) token stack
  | persistentGet => exact lookUp .readPersistent token stack

/-- **A token that fails has not touched the sink.** -/
theorem act (lookup : Echo.Lookup) (stack : Stack) (token : Token) :
    FailsUntouched (Echo.act lookup stack token) := by
  cases token with
  | integer | double | text => exact .pure _
  | loopVariable name =>
    simp only [Echo.act]
    split
    · exact .pure _
    · exact .throw _
  | operator symbol => exact ofExcept_bind _ fun _ => ofExcept_bind _ fun _ => .pure _
  | function name =>
    simp only [Echo.act]
    split
    · exact call _ stack _
    · exact .pure _

end FailsUntouched

/-! ## Steps that write nothing -/

/-- Steps after which the output is what it was, whether they fail or not. -/
def KeepsOutput {ε α : Type} (x : EStateM ε Sink α) : Prop :=
  ∀ s : Sink, (endState (x s)).output = s.output

namespace KeepsOutput

theorem compositional (ε : Type) : Compositional (@KeepsOutput ε) where
  pure _ := fun _ => rfl
  throw _ := fun _ => rfl
  bind := by
    intro α β x f hx hf s
    have hs := hx s
    cases h : x s with
    | ok a s₁ =>
      rw [h] at hs
      rw [bind_of_ok h]
      exact (hf a s₁).trans hs
    | error err s₁ =>
      rw [h] at hs
      rw [bind_of_error h]
      exact hs

theorem call (token : Token) (stack : Stack) (b : Builtin) : KeepsOutput (b.call token stack) := by
  have h := compositional Fault
  cases b with
  | sin | decfmt | dup | swap => exact h.ofExcept _
  | paramGet | temporaryGet | persistentGet =>
    simp only [Builtin.call]
    refine h.lookUp (fun _ => ?_) token stack
    exact fun _ => rfl
  | setMimeType | persistentDel | temporaryDel =>
    simp only [Builtin.call]
    refine h.changeBy (fun _ => ?_) token stack
    exact fun _ => rfl
  | persistentSet | temporarySet =>
    simp only [Builtin.call]
    refine h.changeByTwo (fun _ _ => ?_) token stack
    exact fun _ => rfl

/-- **Evaluating tokens writes nothing.** -/
theorem evaluate (lookup : Echo.Lookup) (stack : Stack) (tokens : List Token) :
    KeepsOutput (Echo.evaluate lookup stack tokens) :=
  (compositional Fault).evaluate_of_call call lookup stack tokens

end KeepsOutput

/-! ## Writing the values -/

/-- Why a value cannot be written: it has no text, or its text has no bytes in the encoding. -/
inductive Datum.FailsToWrite (encoding : Encoding) (d : Datum) : Fault → Prop
  | noText {f : Fault} : d.toText = .error f → FailsToWrite encoding d f
  | noBytes {text : Text} : d.toText = .ok text → encoding.encode? text = none →
      FailsToWrite encoding d .unencodable

theorem Echo.failsToWrite_of_write_error {d : Datum} {s s' : Sink} {f : Fault}
    (h : write d s = .error f s') : d.FailsToWrite s.encoding f ∧ s' = s := by
  cases htext : d.toText with
  | error f =>
    rw [write_of_toText_error htext] at h
    cases h
    exact ⟨.noText htext, rfl⟩
  | ok text =>
    rw [write_of_toText htext] at h
    cases hbytes : s.encoding.encode? text with
    | none =>
      rw [Sink.write_of_none hbytes] at h
      cases h
      exact ⟨.noBytes htext hbytes, rfl⟩
    | some bytes =>
      rw [Sink.write_of_some hbytes] at h
      cases h

/-- Values are written up to the first one that cannot be. -/
theorem Echo.exists_of_writeAll_error {values : List Datum} {s s' : Sink} {f : Fault}
    (h : writeAll values s = .error f s') :
    ∃ before d after texts bytes, values = before ++ d :: after ∧
      before.mapM Datum.toText = .ok texts ∧
      s.encoding.encode? (Text.join texts) = some bytes ∧
      d.FailsToWrite s.encoding f ∧ s' = s.append bytes := by
  induction values generalizing s with
  | nil => cases h
  | cons d values ih =>
    have h : (write d >>= fun _ => writeAll values) s = .error f s' := h
    rcases bind_eq_error h with hwrite | ⟨_, s₁, hwrite, hrest⟩
    · obtain ⟨hfails, rfl⟩ := failsToWrite_of_write_error hwrite
      exact ⟨[], d, values, [], .empty, rfl, rfl, Encoding.encode?_empty _, hfails,
        (Sink.append_empty _).symm⟩
    · obtain ⟨text, first, htext, hfirst, rfl⟩ := (write_eq_ok_iff d).1 hwrite
      obtain ⟨before, d', after, texts, bytes, rfl, htexts, hbytes, hfails, rfl⟩ := ih hrest
      refine ⟨d :: before, d', after, text :: texts, first ++ bytes, rfl,
        except_mapM_cons_eq_ok.2 ⟨_, _, htext, htexts, rfl⟩, ?_, hfails, Sink.append_append ..⟩
      rw [Text.join_cons, Encoding.encode?_append, hfirst,
        show s.encoding.encode? (Text.join texts) = some bytes from hbytes]
      rfl

namespace Engine

/-- **An echo that fails stops between two tokens and writes nothing.** If a token that
evaluation comes to fails, the run of the echo ends with its fault; the sink is the one that
the tokens before it have left, and its output is the one from before the echo. An
evaluation that fails does so at such a token. As long as tokens are evaluated nothing is
written, and after the last one the values are, bottom to top: all of them, or those
before the first one that cannot be written, and then the echo fails for the reason of
this. -/
theorem echo_stops_at_token (limit : Nat) (tokens : List Token) (e : Engine) :
    (∀ j token stack s f s', Echo.Reaches e.scope.peek? tokens e.sink j token stack s →
      Echo.act e.scope.peek? stack token s = .error f s' →
      s' = s ∧ s.output = e.sink.output ∧
        visit limit (.echo tokens) e = .error (.fault f) ⟨s, e.scope, e.depth⟩) ∧
    (∀ j stack s, Echo.evaluate e.scope.peek? [] (tokens.take j) e.sink = .ok stack s →
      s.output = e.sink.output) ∧
    match Echo.evaluate e.scope.peek? [] tokens e.sink with
    | .error f s => ∃ j token stack, Echo.Reaches e.scope.peek? tokens e.sink j token stack s ∧
        Echo.act e.scope.peek? stack token s = .error f s
    | .ok stack s =>
        (∃ texts bytes, stack.reverse.mapM Datum.toText = .ok texts ∧
          s.encoding.encode? (Text.join texts) = some bytes ∧
          visit limit (.echo tokens) e = .ok () ⟨s.append bytes, e.scope, e.depth⟩) ∨
        ∃ before d after texts bytes f, stack.reverse = before ++ d :: after ∧
          before.mapM Datum.toText = .ok texts ∧
          s.encoding.encode? (Text.join texts) = some bytes ∧
          d.FailsToWrite s.encoding f ∧
          visit limit (.echo tokens) e = .error (.fault f) ⟨s.append bytes, e.scope, e.depth⟩ := by
  have hquiet : ∀ j stack s, Echo.evaluate e.scope.peek? [] (tokens.take j) e.sink = .ok stack s →
      s.output = e.sink.output := by
    intro j stack s h
    have hkeeps := KeepsOutput.evaluate e.scope.peek? [] (tokens.take j) e.sink
    rwa [h] at hkeeps
  refine ⟨?_, hquiet, ?_⟩
  · intro j token stack s f s' hreach hact
    obtain rfl := FailsUntouched.act _ _ _ _ _ _ hact
    refine ⟨rfl, hquiet j stack s' hreach.before, ?_⟩
    simp only [visit, act, hreach.run_eq hact]
  · cases heval : Echo.evaluate e.scope.peek? [] tokens e.sink with
    | error f s =>
      obtain ⟨before, token, after, stack, s₁, htokens, hbefore, hact⟩ := evaluate_error heval
      obtain rfl := FailsUntouched.act _ _ _ _ _ _ hact
      exact ⟨before.length, token, stack,
        ⟨by simp [htokens], by simpa [htokens] using hbefore⟩, hact⟩
    | ok stack s =>
      have hrun : Echo.run e.scope.peek? tokens e.sink = Echo.writeAll stack.reverse s :=
        bind_of_ok heval
      cases hwrite : Echo.writeAll stack.reverse s with
      | ok _ s' =>
        obtain ⟨texts, bytes, htexts, hbytes, rfl⟩ := (Echo.writeAll_eq_ok_iff _).1 hwrite
        refine .inl ⟨texts, bytes, htexts, hbytes, ?_⟩
        simp only [visit, act, hrun, hwrite]
      | error f s' =>
        obtain ⟨before, d, after, texts, bytes, hvalues, htexts, hbytes, hfails, rfl⟩ :=
          Echo.exists_of_writeAll_error hwrite
        refine .inr ⟨before, d, after, texts, bytes, f, hvalues, htexts, hbytes, hfails, ?_⟩
        simp only [visit, act, hrun, hwrite]

/-- A parameter is set, a value is left, and then a division fails: the parameter stays set,
and the value is not written. -/
theorem echo_stops_at_token_division :
    let tokens : List Token :=
      [.text "kept", .text "v", .text "n", .function "pParamSet", .integer 1, .integer 0,
        .operator "/"]
    let stack : Stack := [.integer 0, .integer 1, .text "kept"]
    let e := onSink (.fresh .utf8 true [] (.unbounded []))
    let s := e.sink.setPersistent "n" "v"
    Echo.Reaches e.scope.peek? tokens e.sink 6 (.operator "/") stack s ∧
      Echo.act e.scope.peek? stack (.operator "/") s = .error .divisionByZero s ∧
      s.output = e.sink.output ∧
      visit 0 (.echo tokens) e = .error (.fault .divisionByZero) ⟨s, e.scope, e.depth⟩ := by
  intro tokens stack e s
  have hset : Builtin.ofName? "pParamSet" = some .persistentSet := by decide +kernel
  have hcall : Echo.act e.scope.peek? [.text "n", .text "v", .text "kept"] (.function "pParamSet")
      e.sink = .ok [.text "kept"] s := by
    simp only [Echo.act, hset]
    rfl
  have hreach : Echo.Reaches e.scope.peek? tokens e.sink 6 (.operator "/") stack s := by
    refine ⟨rfl, ?_⟩
    show (Echo.act e.scope.peek? [.text "n", .text "v", .text "kept"] (.function "pParamSet") >>=
      fun stack => Echo.evaluate e.scope.peek? stack [.integer 1, .integer 0]) e.sink = _
    exact bind_of_ok hcall
  have hact : Echo.act e.scope.peek? stack (.operator "/") s = .error .divisionByZero s := rfl
  exact ⟨hreach, hact, ((echo_stops_at_token 0 tokens e).1 6 _ stack s _ s hreach hact).2⟩

/-- Two echoes of which all tokens are evaluated and only the first value is written: the second
one has no bytes in the output, or it has 4301 digits and no text. -/
theorem echo_writes_in_part :
    let tokens : List Token := [.text "a", .text "é"]
    let long : List Token := [.text "a", .integer (10 ^ Number.digitLimit : Nat)]
    let e := onSink (.fresh .ascii true [] (.unbounded []))
    Echo.evaluate e.scope.peek? [] tokens e.sink = .ok [.text "é", .text "a"] e.sink ∧
      visit 0 (.echo tokens) e =
        .error (.fault .unencodable) ⟨e.sink.append "a".toUTF8, e.scope, e.depth⟩ ∧
      Echo.evaluate e.scope.peek? [] long e.sink =
        .ok [.integer (10 ^ Number.digitLimit : Nat), .text "a"] e.sink ∧
      visit 0 (.echo long) e =
        .error (.fault .integerTooLong) ⟨e.sink.append "a".toUTF8, e.scope, e.depth⟩ := by
  intro tokens long e
  have hfirst : Echo.write (.text "a") e.sink = .ok () (e.sink.append "a".toUTF8) := rfl
  have hlong : (Datum.integer (10 ^ Number.digitLimit : Nat)).toText = .error .integerTooLong :=
    (Datum.toText_integer _).trans (Number.writeInteger_of_lt Number.digitLimit_lt_size)
  have hrun (n : Int) (hn : (Datum.integer n).toText = .error .integerTooLong) :
      Echo.run e.scope.peek? [.text "a", .integer n] e.sink =
        .error .integerTooLong (e.sink.append "a".toUTF8) := by
    have hsecond : Echo.writeAll [.integer n] (e.sink.append "a".toUTF8) =
        .error .integerTooLong (e.sink.append "a".toUTF8) :=
      bind_of_error (Echo.write_of_toText_error hn _)
    have hstack : Echo.evaluate e.scope.peek? [] [.text "a", .integer n] e.sink =
        .ok [.integer n, .text "a"] e.sink := rfl
    calc Echo.run e.scope.peek? [.text "a", .integer n] e.sink
        = Echo.writeAll [.text "a", .integer n] e.sink := bind_of_ok hstack
      _ = Echo.writeAll [.integer n] (e.sink.append "a".toUTF8) := bind_of_ok hfirst
      _ = _ := hsecond
  refine ⟨rfl, rfl, rfl, ?_⟩
  simp only [visit, act, show Echo.run e.scope.peek? long e.sink = _ from hrun _ hlong]

end Engine

end TagTemplate
