/-
A session: one engine and its sink over a list of operations of a host.
-/
import TagTemplate.Engine.Basic

namespace TagTemplate

namespace Session

/-- What a host may ask for. -/
inductive Request where
  /-- Reads a text and runs it. -/
  | render (text : Text)
  /-- Runs a tree outside of all loops. -/
  | execute (node : Node)
  /-- Runs a tree in the scope as it is. -/
  | visit (node : Node)
  /-- Reads a text and runs it in the scope as it is. -/
  | visitText (text : Text)
  /-- A new engine on the same sink. -/
  | engine
  /-- A new request: a new sink with these parameters, with the same persistent store,
  and a new engine. -/
  | request (parameters : Entries)
  | write (text : Text)
  | writeBytes (bytes : ByteArray)
  | getValue
  | getParameter (name : Text)
  | getPersistent (name : Text)
  | getTemporary (name : Text)
  | setPersistent (name value : Text)
  | setTemporary (name value : Text)
  | erasePersistent (name : Text)
  | eraseTemporary (name : Text)
  | setMime (mime : Text)

/-- One request to an engine: a text, if it answers one. -/
def answer (limit : Nat) : Request → Run (Option Text)
  | .render text => do Engine.render limit text; return none
  | .execute node => do Engine.execute limit node; return none
  | .visit node => do Engine.visit limit node; return none
  | .visitText text => do
    Engine.visit limit (← Engine.lift (Node.parse text))
    return none
  | .engine => fun e => .ok none (.onSink e.sink)
  | .request parameters => fun e =>
    .ok none (.onSink (.fresh e.sink.encoding e.sink.inMemory parameters e.sink.persistent))
  | .write text => do Engine.act fun _ => Sink.write text; return none
  | .writeBytes bytes => change (Sink.append bytes)
  | .getValue => fun e => (Engine.lift (some <$> e.sink.contents)) e
  | .getParameter name => Engine.act fun _ => .read (·.parameter? name)
  | .getPersistent name => Engine.act fun _ => Sink.readPersistent name
  | .getTemporary name => Engine.act fun _ => .read (·.temporary? name)
  | .setPersistent name value => change (Sink.setPersistent name value)
  | .setTemporary name value => change (Sink.setTemporary name value)
  | .erasePersistent name => change (Sink.erasePersistent name)
  | .eraseTemporary name => change (Sink.eraseTemporary name)
  | .setMime mime => change (Sink.setMime mime)
where
  change (f : Sink → Sink) : Run (Option Text) := do
    Engine.act fun _ => .change f
    return none

/-- What a request came to, and the engine after it. -/
def step (limit : Nat) (e : Engine) (r : Request) : Except Halt (Option Text) × Engine :=
  match answer limit r e with
  | .ok value e => (.ok value, e)
  | .error h e => (.error h, e)

/-- All requests one after another: each answer with the engine after it. -/
def steps (limit : Nat) (e : Engine) : List Request → List (Except Halt (Option Text) × Engine)
  | [] => []
  | r :: rs =>
    let (result, e) := step limit e r
    (result, e) :: steps limit e rs

end Session

end TagTemplate
