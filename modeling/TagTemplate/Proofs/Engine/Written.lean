/-
What is read back from a sink is what was written to it. The bytes of several texts one after
another are those of one text, which the encoding gives back, so all that a session has to keep is
which texts were taken since its last new request.
-/
import TagTemplate.Proofs.Engine.Recording
import TagTemplate.Session

namespace TagTemplate

/-! ## Decoding -/

namespace Encoding

theorem toNat_byte {n : Nat} (h : n < 256) : n.toUInt8.toNat = n := UInt8.toNat_ofNat_of_lt h

/-- A code point that fits in a byte is a character. -/
theorem ofNat_byte {c : CodePoint} (h : c.toNat < 256) :
    ↑(Char.ofNat c.toNat.toUInt8.toNat) = c := by
  cases c with
  | scalar c =>
    rw [toNat_byte h]
    exact congrArg CodePoint.scalar (Char.ofNat_toNat c)
  | surrogate offset =>
    rw [CodePoint.toNat] at h
    omega

theorem ofSingleBytes_singleBytes {s : Text} (h : ∀ c ∈ s.toList, c.toNat < 256) :
    ofSingleBytes (singleBytes s) = s := by
  have hback : ∀ c ∈ s.toList,
      ((fun b : UInt8 => (Char.ofNat b.toNat : CodePoint)) ∘ fun c => c.toNat.toUInt8) c = id c :=
    fun c hc => ofNat_byte (h c hc)
  rw [ofSingleBytes, singleBytes, List.map_map, List.map_congr_left hback, List.map_id,
    Text.ofList_toList]

/-- **A text is read back from its bytes.** -/
theorem decode?_encode? {c : Encoding} {text : Text} {bytes : ByteArray}
    (h : c.encode? text = some bytes) : c.decode? bytes = some text := by
  cases c with
  | utf8 =>
    obtain ⟨characters, hcharacters, rfl⟩ := Option.map_eq_some_iff.1 h
    obtain rfl := Text.string?_eq_some_iff.1 hcharacters
    rw [decode?, String.fromUTF8?, String.toUTF8_eq_toByteArray, dif_pos characters.isValidUTF8]
    rfl
  | ascii =>
    simp only [encode?, Option.ite_none_right_eq_some, List.all_eq_true, decide_eq_true_eq] at h
    obtain ⟨hsmall, ⟨⟩⟩ := h
    have hbyte : ∀ c ∈ text.toList, c.toNat < 256 := fun c hc =>
      Nat.lt_trans (hsmall c hc) (by decide)
    have hbytes : (singleBytes text).data.toList.all (· < 128) = true := by
      simp only [singleBytes, List.all_map, List.all_eq_true, Function.comp_apply,
        decide_eq_true_eq]
      intro c hc
      rw [UInt8.lt_iff_toNat_lt, toNat_byte (hbyte c hc)]
      exact hsmall c hc
    rw [decode?, if_pos hbytes, ofSingleBytes_singleBytes hbyte]
  | latin1 =>
    simp only [encode?, Option.ite_none_right_eq_some, List.all_eq_true, decide_eq_true_eq] at h
    obtain ⟨hsmall, ⟨⟩⟩ := h
    rw [decode?, ofSingleBytes_singleBytes hsmall]

/-- UTF-8 has bytes for all characters. -/
theorem encode?_utf8_isSome_iff (text : Text) :
    (utf8.encode? text).isSome = true ↔ ∀ offset, .surrogate offset ∉ text.toList := by
  rw [encode?, Option.isSome_map, ← Option.ne_none_iff_isSome, Ne, Text.string?_eq_none_iff,
    not_exists]

end Encoding

/-- A sink in memory that holds the bytes of a text gives it back. -/
theorem Sink.contents_of_output {s : Sink} {text : Text} (hm : s.inMemory = true)
    (h : s.encoding.encode? text = some s.output) : s.contents = .ok text := by
  rw [contents, hm, Encoding.decode?_encode? h]
  rfl

/-! ## Sessions with a record -/

/-- What remains of the texts that were handed to a sink when a request begins: a new request has a
new sink. -/
def Session.Request.carry : Request → List Attempt → List Attempt
  | .request _, _ => []
  | _, log => log

namespace Recorded

/-- Runs a node outside of all loops. -/
def execute (limit : Nat) (node : Node) : Steps Unit := fun state =>
  visit limit node (Engine.onSink state.1.sink, state.2)

def render (limit : Nat) (text : Text) : Steps Unit := do
  execute limit (← quiet (Engine.lift (Node.parse text)))

/-- One request to an engine. All that writes no text is as it is. -/
def answer (limit : Nat) : Session.Request → Steps (Option Text)
  | .render text => do render limit text; return none
  | .execute node => do execute limit node; return none
  | .visit node => do visit limit node; return none
  | .visitText text => do
    visit limit (← quiet (Engine.lift (Node.parse text)))
    return none
  | .write text => do write text; return none
  | r => quiet (Session.answer limit r)

/-- A request of a session, with the engines before and after it. -/
structure Entry where
  request : Session.Request
  before : Engine
  /-- What the request has handed to the sink. -/
  attempts : List Attempt
  result : Except Halt (Option Text)
  after : Engine
  /-- All that has been handed to the sink that the engine now has. -/
  log : List Attempt

def entry (limit : Nat) (e : Engine) (log : List Attempt) (r : Session.Request) : Entry :=
  match answer limit r (e, []) with
  | .ok value (after, attempts) => ⟨r, e, attempts, .ok value, after, r.carry log ++ attempts⟩
  | .error h (after, attempts) => ⟨r, e, attempts, .error h, after, r.carry log ++ attempts⟩

/-- All requests one after another. -/
def history (limit : Nat) (e : Engine) (log : List Attempt) : List Session.Request → List Entry
  | [] => []
  | r :: rs =>
    let n := entry limit e log r
    n :: history limit n.after n.log rs

end Recorded

namespace Records

theorem execute (limit : Nat) (node : Node) :
    Records (Recorded.execute limit node) (Engine.execute limit node) := by
  intro e log
  obtain ⟨attempts, hrun, htold⟩ := visit limit node (Engine.onSink e.sink) log
  exact ⟨attempts, hrun, htold.of_sink rfl⟩

theorem render (limit : Nat) (text : Text) :
    Records (Recorded.render limit text) (Engine.render limit text) :=
  (lift (Node.parse text)).bind fun node => execute limit node

theorem change {f : Sink → Sink} (h : ∀ s, s.Extends (f s) ∧ (f s).output = s.output) :
    Records (Recorded.quiet (Session.answer.change f)) (Session.answer.change f) :=
  quiet fun e => h e.sink

theorem endState_getValue (limit : Nat) (e : Engine) :
    endState (Session.answer limit .getValue e) = e :=
  Engine.endState_lift ..

/-- **A recorded request.** -/
theorem answer (limit : Nat) {r : Session.Request} (hbytes : ∀ bytes, r ≠ .writeBytes bytes)
    (hnew : ∀ parameters, r ≠ .request parameters) :
    Records (Recorded.answer limit r) (Session.answer limit r) := by
  cases r with
  | render text => exact (render limit text).bind fun _ => pure none
  | execute node => exact (execute limit node).bind fun _ => pure none
  | visit node => exact (visit limit node).bind fun _ => pure none
  | visitText text =>
    exact (lift (Node.parse text)).bind fun node => (visit limit node).bind fun _ => pure none
  | engine => exact quiet fun e => ⟨.refl e.sink, rfl⟩
  | request parameters => exact absurd rfl (hnew parameters)
  | write text => exact (write text).bind fun _ => pure none
  | writeBytes bytes => exact absurd rfl (hbytes bytes)
  | getValue =>
    refine quiet fun e => ?_
    rw [endState_getValue]
    exact ⟨.refl e.sink, rfl⟩
  | getParameter name =>
    exact act (a := fun _ => .read (·.parameter? name)) (fun _ => .read _) fun _ _ => rfl
  | getTemporary name =>
    exact act (a := fun _ => .read (·.temporary? name)) (fun _ => .read _) fun _ _ => rfl
  | getPersistent name =>
    exact act (a := fun _ => Sink.readPersistent name) (fun _ _ => .of_output_eq rfl rfl rfl rfl)
      fun _ _ => rfl
  | setPersistent | setTemporary | erasePersistent | eraseTemporary | setMime =>
    exact change fun s => ⟨.of_output_eq rfl rfl rfl rfl, rfl⟩

end Records

/-! ## What was written is what is read back -/

/-- A sink in memory holds the bytes of the texts that it has taken. -/
structure Sink.Holds (c : Encoding) (log : List Attempt) (s : Sink) : Prop where
  inMemory : s.inMemory = true
  encoding : s.encoding = c
  output : c.encode? (Attempt.written log) = some s.output

namespace Sink.Holds

theorem fresh (c : Encoding) (parameters : Entries) (persistent : Store) :
    Holds c [] (.fresh c true parameters persistent) :=
  ⟨rfl, rfl, Encoding.encode?_empty c⟩

theorem contents {c : Encoding} {log : List Attempt} {s : Sink} (h : s.Holds c log) :
    s.contents = .ok (Attempt.written log) :=
  contents_of_output h.inMemory (h.encoding ▸ h.output)

theorem told {c : Encoding} {log attempts : List Attempt} {e : Engine}
    {r : EStateM.Result Halt Engine α}
    (h : e.sink.Holds c log) (ht : Told e attempts r) :
      (endState r).sink.Holds c (log ++ attempts) where
  inMemory := ht.inMemory.trans h.inMemory
  encoding := ht.encoding.trans h.encoding
  output := by
    obtain ⟨bytes, hbytes, ho⟩ := ht.output
    rw [h.encoding] at hbytes
    rw [Attempt.written_append, Encoding.encode?_append, h.output, hbytes, ho]
    rfl

end Sink.Holds

namespace Recorded

/-- What an entry says of a sink in memory. -/
structure Entry.Faithful (c : Encoding) (n : Entry) : Prop where
  /-- The output only grows, by the bytes of the texts that were taken. -/
  grown : (∀ parameters, n.request ≠ .request parameters) →
    ∃ bytes, c.encode? (Attempt.written n.attempts) = some bytes ∧
      n.after.sink.output = n.before.sink.output ++ bytes
  /-- What is taken is what the encoding has bytes for. -/
  taken_iff : ∀ a ∈ n.attempts, a.taken = true ↔ (c.encode? a.text).isSome = true
  /-- A text that is not taken ends the request. -/
  refused : ∀ a ∈ n.attempts, a.taken = false →
    n.attempts.getLast? = some a ∧ n.result = .error (.fault .unencodable)
  /-- What is read back is all that has been taken since the last new request. -/
  contents : n.after.sink.contents = .ok (Attempt.written n.log)
  answered : n.request = .getValue → n.result = .ok (some (Attempt.written n.log))
  /-- A text that the host writes is the one that is handed to the sink. -/
  direct : ∀ text, n.request = .write text → n.attempts.map Attempt.text = [text]

/-- The result of a request, and the engine after it. -/
def Entry.observed (n : Entry) : Except Halt (Option Text) × Engine := (n.result, n.after)

variable {c : Encoding} {limit : Nat} {e : Engine} {log : List Attempt} {r : Session.Request}

theorem request_result (parameters : Entries) (h : e.sink.Holds c log) :
    let n := entry limit e log (.request parameters)
    n.observed = Session.step limit e (.request parameters) ∧ n.Faithful c ∧
      n.after.sink.Holds c n.log := by
  intro n
  have hnew : n.after.sink.Holds c n.log := by
    have hsink : n.after.sink = .fresh c true parameters e.sink.persistent := by
      rw [← h.encoding, ← h.inMemory]
      rfl
    rw [hsink]
    exact .fresh c parameters e.sink.persistent
  exact ⟨rfl, ⟨fun hne => absurd rfl (hne parameters), List.forall_mem_nil _, List.forall_mem_nil _,
    hnew.contents, nofun, nofun⟩, hnew⟩

theorem entry_eq {attempts : List Attempt}
    (h : answer limit r (e, []) = noted attempts (Session.answer limit r e)) :
    entry limit e log r =
      ⟨r, e, attempts, (Session.step limit e r).1, (Session.step limit e r).2,
        r.carry log ++ attempts⟩ := by
  simp only [entry, h, Session.step]
  cases Session.answer limit r e <;> rfl

theorem step_snd (limit : Nat) (e : Engine) (r : Session.Request) :
    (Session.step limit e r).2 = endState (Session.answer limit r e) := by
  rw [Session.step]
  cases Session.answer limit r e <;> rfl

theorem step_getValue {text : Text} (h : e.sink.contents = .ok text) :
    Session.step limit e .getValue = (.ok (some text), e) := by
  simp only [Session.step, Session.answer, h]
  rfl

theorem entry_write (limit : Nat) (e : Engine) (log : List Attempt) (text : Text) :
    (entry limit e log (.write text)).attempts.map Attempt.text = [text] := by
  have hanswer : answer limit (.write text) = write text >>= fun _ => pure none := rfl
  obtain ⟨taken, hwrite⟩ := write_eq text e []
  rw [entry, hanswer]
  cases hact : Engine.act (fun _ => Sink.write text) e with
  | ok x e₁ =>
    rw [hact] at hwrite
    rw [bind_of_ok hwrite]
    rfl
  | error halt e₁ =>
    rw [hact] at hwrite
    rw [bind_of_error hwrite]
    rfl

/-- **What one request does** to a sink in memory that holds what it has taken. -/
theorem entry_faithful (limit : Nat) (hbytes : ∀ bytes, r ≠ .writeBytes bytes)
    (h : e.sink.Holds c log) :
    let n := entry limit e log r
    n.observed = Session.step limit e r ∧ n.Faithful c ∧ n.after.sink.Holds c n.log := by
  -- A new request is apart: its output is not the one from before it.
  by_cases hnew : ∃ parameters, r = .request parameters
  · obtain ⟨parameters, rfl⟩ := hnew
    exact request_result parameters h
  have hnew : ∀ parameters, r ≠ .request parameters := not_exists.1 hnew
  have hcarry : r.carry log = log := by
    cases r with
    | request parameters => exact absurd rfl (hnew parameters)
    | _ => rfl
  obtain ⟨attempts, hrun, htold⟩ := Records.answer limit hbytes hnew e []
  have hholds : (Session.step limit e r).2.sink.Holds c (log ++ attempts) := by
    rw [step_snd]
    exact h.told htold
  have hdirect : ∀ text, r = .write text →
      (entry limit e log r).attempts.map Attempt.text = [text] := by
    rintro text rfl
    exact entry_write limit e log text
  rw [List.nil_append] at hrun
  rw [entry_eq hrun, hcarry] at hdirect ⊢
  refine ⟨rfl, ⟨fun _ => ?_, h.encoding ▸ htold.taken_iff, ?_, hholds.contents, ?_, hdirect⟩,
    hholds⟩
  · obtain ⟨bytes, hbytes, ho⟩ := htold.output
    exact ⟨bytes, h.encoding ▸ hbytes, by rw [step_snd, ho]⟩
  · intro a ha hfalse
    obtain ⟨hlast, hfault⟩ := htold.refused_last ha hfalse
    refine ⟨hlast, ?_⟩
    rw [Session.step, hfault]
  · rintro rfl
    have hafter : (Session.step limit e .getValue).2 = e :=
      (step_snd ..).trans (Records.endState_getValue ..)
    rw [hafter] at hholds
    exact congrArg Prod.fst (step_getValue hholds.contents)

theorem history_faithful (limit : Nat) {rs : List Session.Request} (h : e.sink.Holds c log)
    (hbytes : ∀ r ∈ rs, ∀ bytes, r ≠ .writeBytes bytes) :
    (history limit e log rs).map Entry.observed = Session.steps limit e rs ∧
      ∀ n ∈ history limit e log rs, n.Faithful c := by
  induction rs generalizing e log with
  | nil => exact ⟨rfl, List.forall_mem_nil _⟩
  | cons r rs ih =>
    obtain ⟨hobserved, hfaithful, hholds⟩ := entry_faithful limit (hbytes r (by simp)) h
    obtain ⟨hrest, hall⟩ := ih hholds fun r hr => hbytes r (by simp [hr])
    refine ⟨?_, List.forall_mem_cons.2 ⟨hfaithful, hall⟩⟩
    rw [history, List.map_cons, hrest, hobserved, Session.steps, ← hobserved]
    rfl

/-- **What was written is what is read back.** In every session without raw bytes on a new sink in
memory, recording what is handed to the sink changes no answer and no state. After every request,
also one that failed, the output has only grown, by the texts that the sink has taken, and reading
it back gives all that were taken since the last new request. A text that the encoding has no bytes
for adds none and is the fault of its request, and in UTF-8 these are the texts that hold a
surrogate. -/
theorem session_reads_back_written (limit : Nat) (c : Encoding) (parameters : Entries)
    (persistent : Store)
    (rs : List Session.Request) (h : ∀ r ∈ rs, ∀ bytes, r ≠ .writeBytes bytes) :
    let start := Engine.onSink (.fresh c true parameters persistent)
    (history limit start [] rs).map Entry.observed = Session.steps limit start rs ∧
    (∀ n ∈ history limit start [] rs, n.Faithful c) ∧
    (c = .utf8 → ∀ n ∈ history limit start [] rs, ∀ a ∈ n.attempts,
      (a.taken = true ↔ ∀ offset, .surrogate offset ∉ a.text.toList)) ∧
    Fault.unencodable.category = "UnicodeEncodeError" := by
  intro start
  obtain ⟨hobserved, hfaithful⟩ :=
    history_faithful limit (e := start) (.fresh c parameters persistent) h
  refine ⟨hobserved, hfaithful, ?_, rfl⟩
  rintro rfl n hn a ha
  rw [(hfaithful n hn).taken_iff a ha, Encoding.encode?_utf8_isSome_iff]

/-- In ASCII the second text is refused, and so is the middle one of the three values of an echo. -/
theorem session_reads_back_written_ascii :
    let rs : List Session.Request :=
      [.write "a", .write "ü", .execute (.echo [.text "b", .text "ü", .text "c"]), .getValue]
    let start := Engine.onSink (.fresh .ascii true [] (.unbounded []))
    (∀ r ∈ rs, ∀ bytes, r ≠ .writeBytes bytes) ∧
    (∀ n ∈ history 0 start [] rs, n.Faithful .ascii) ∧
    (Session.steps 0 start rs).map Prod.fst =
      [.ok none, .error (.fault .unencodable), .error (.fault .unencodable), .ok (some "ab")] := by
  intro rs start
  have hrs : ∀ r ∈ rs, ∀ bytes, r ≠ .writeBytes bytes := by simp [rs]
  exact ⟨hrs, (session_reads_back_written 0 .ascii [] (.unbounded []) rs hrs).2.1, rfl⟩

/-- In UTF-8 a surrogate by itself is refused. -/
theorem session_refuses_surrogate :
    let text : Text := .ofList [.surrogate 0]
    let start := Engine.onSink (.fresh .utf8 true [] (.unbounded []))
    history 0 start [] [.write text] = [⟨.write text, start, [⟨text, false⟩],
      .error (.fault .unencodable), start, [⟨text, false⟩]⟩] ∧
    Session.steps 0 start [.write text] = [(.error (.fault .unencodable), start)] := ⟨rfl, rfl⟩

end Recorded

end TagTemplate
