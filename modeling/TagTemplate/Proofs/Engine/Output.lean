/-
What a run can do to the output of its sink, whether it ends well or fails anywhere: put
bytes at the end of it. The encoding of the output, where it goes, and the parameters of
the request stay as they are.
-/
import TagTemplate.Proofs.Engine.Composition

namespace TagTemplate

/-- A sink that a run may come to from another one. -/
structure Sink.Extends (s s' : Sink) : Prop where
  output : ∃ bytes, s'.output = s.output ++ bytes
  encoding : s'.encoding = s.encoding
  inMemory : s'.inMemory = s.inMemory
  parameters : s'.parameters = s.parameters

namespace Sink.Extends

theorem of_output_eq {s s' : Sink} (ho : s'.output = s.output) (he : s'.encoding = s.encoding)
    (hm : s'.inMemory = s.inMemory) (hp : s'.parameters = s.parameters) : s.Extends s' :=
  ⟨⟨.empty, by simp [ho]⟩, he, hm, hp⟩

theorem refl (s : Sink) : s.Extends s := of_output_eq rfl rfl rfl rfl

theorem trans {s₁ s₂ s₃ : Sink} (h : s₁.Extends s₂) (h' : s₂.Extends s₃) : s₁.Extends s₃ := by
  obtain ⟨bytes, hb⟩ := h.output
  obtain ⟨bytes', hb'⟩ := h'.output
  refine ⟨⟨bytes ++ bytes', by rw [hb', hb, ByteArray.append_assoc]⟩, ?_, ?_, ?_⟩
  · rw [h'.encoding, h.encoding]
  · rw [h'.inMemory, h.inMemory]
  · rw [h'.parameters, h.parameters]

end Sink.Extends

/-- The state in which some steps end, well or not. -/
def endState {ε σ α : Type} : EStateM.Result ε σ α → σ
  | .ok _ s | .error _ s => s

/-- Steps that only put bytes at the end of the output, besides what they do to the
parameters and to the kind of document. -/
def OnlyExtends {ε α : Type} (x : EStateM ε Sink α) : Prop :=
  ∀ s : Sink, s.Extends (endState (x s))

namespace OnlyExtends

theorem compositional (ε : Type) : Compositional (@OnlyExtends ε) where
  pure _ := fun s => .refl s
  throw _ := fun s => .refl s
  bind := by
    intro α β x f hx hf s
    have hs := hx s
    simp only [Bind.bind, EStateM.bind]
    cases h : x s with
    | ok a s₁ =>
      rw [h] at hs
      exact hs.trans (hf a s₁)
    | error err s₁ =>
      rw [h] at hs
      exact hs

theorem read {α : Type} (f : Sink → α) : OnlyExtends (Action.read f) := fun s => .refl s

theorem write (text : Text) : OnlyExtends (Sink.write text) := by
  intro s
  simp only [Sink.write]
  cases s.encoding.encode? text with
  | some bytes => exact ⟨⟨bytes, rfl⟩, rfl, rfl, rfl⟩
  | none => exact .refl s

theorem call (token : Token) (stack : Stack) (b : Builtin) : OnlyExtends (b.call token stack) := by
  have h := compositional Fault
  cases b with
  | sin | decfmt | dup | swap => exact h.ofExcept _
  | paramGet | temporaryGet =>
    simp only [Builtin.call]
    exact h.lookUp (fun _ => .read _) token stack
  | persistentGet => exact h.lookUp (fun _ _ => .of_output_eq rfl rfl rfl rfl) token stack
  | setMimeType | persistentDel | temporaryDel =>
    simp only [Builtin.call]
    refine h.changeBy (fun _ => ?_) token stack
    exact fun _ => .of_output_eq rfl rfl rfl rfl
  | persistentSet | temporarySet =>
    simp only [Builtin.call]
    refine h.changeByTwo (fun _ _ => ?_) token stack
    exact fun _ => .of_output_eq rfl rfl rfl rfl

theorem evaluate (lookup : Echo.Lookup) (stack : Stack) (tokens : List Token) :
    OnlyExtends (Echo.evaluate lookup stack tokens) :=
  (compositional Fault).evaluate_of_call call lookup stack tokens

theorem run (lookup : Echo.Lookup) (tokens : List Token) : OnlyExtends (Echo.run lookup tokens) :=
  (compositional Fault).bind (evaluate lookup [] tokens) fun stack =>
    (compositional Fault).writeAll write stack.reverse

theorem lexicalAct {α : Type} {a : Action α} (h : OnlyExtends a) : OnlyExtends (Lexical.act a) := by
  intro s
  have hs := h s
  simp only [Lexical.act]
  cases ha : a s <;> rw [ha] at hs <;> exact hs

/-- **A run only puts bytes at the end of the output.** -/
theorem visit (limit : Nat) (env : Echo.Lookup) (node : Node) :
    OnlyExtends (Lexical.visit limit env node) :=
  (compositional Halt).visit (fun text => .lexicalAct (write text)) limit env node
    fun tokens _ lookup => .lexicalAct (run lookup tokens)

theorem visitAll (limit : Nat) (env : Echo.Lookup) (nodes : List Node) :
    OnlyExtends (Lexical.visitAll limit env nodes) :=
  (compositional Halt).visitAll (fun text => .lexicalAct (write text)) limit env nodes
    fun tokens _ lookup => .lexicalAct (run lookup tokens)

end OnlyExtends

end TagTemplate
