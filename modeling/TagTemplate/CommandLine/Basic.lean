/-
What the command line does with a script: show its outline, write it in canonical
form, or run it.
-/
import TagTemplate.CommandLine.Arguments
import TagTemplate.Engine.Basic
import TagTemplate.Node.Outline
import TagTemplate.Text.LineBreaks

namespace TagTemplate.CommandLine

/-- What a command leaves behind. -/
structure Outcome where
  code : Nat
  stdout : ByteArray
  stderr : Text
  /-- Whether a script was run, whatever came of it. -/
  ran : Bool
  deriving Inhabited

def lines (ls : List Text) : Text := Text.join (ls.map (· ++ "\n"))

def usage : String :=
  "usage: smartscript [-h] [-P NAME=VALUE] [-t] [-r] [-p] [-i] [-c] file [NAME=VALUE ...]\n"

namespace Outcome

def usageFault (f : UsageFault) : Outcome :=
  ⟨2, .empty, usage ++ "smartscript: error: " ++ f.message ++ "\n", false⟩

def printed (s : String) : Outcome := ⟨0, s.toUTF8, "", false⟩

end Outcome

/-- The outcome of printing a text, which has to be made of characters. -/
def print (s : Text) : Except Fault Outcome :=
  match s.string? with
  | some characters => .ok (.printed characters)
  | none => .error .unencodable

/-- The line that reports a fault of a run. -/
def faultLine (f : Fault) : Text := "Error: " ++ f.category ++ ": " ++ f.message

/-- The lines that list what a run has left in a sink. -/
def contextLines (s : Sink) : List Text :=
  ("  mime = " ++ s.mime) ::
    s.persistent.entries.map (entryLine "(pm)") ++ s.temporary.map (entryLine "(tm)")
where
  entryLine (store : Text) (e : Text × Text) : Text :=
    "  " ++ store ++ " " ++ e.1 ++ " = " ++ Text.quoted e.2

/-- A request: the parameters of a run. -/
structure Request where
  parameters : Entries
  persistent : Entries

/-- The parameters of both kinds; those of the request are read first. -/
def Request.ofArguments (a : Arguments) : Except UsageFault Request := do
  let parameters ← (readPairs a.parameters).mapError .pair
  let persistent ← (readPairs (a.given .persistent)).mapError .pair
  return ⟨parameters, persistent⟩

/-- The sink of a request. Its persistent store is filled one pair after another. -/
def Request.sink (r : Request) : Sink :=
  let store := (Store.bounded (.empty Recency.defaultCapacity)).insertAll r.persistent
  .fresh .utf8 false r.parameters store

/-- The outcome of running a tree. -/
def execute (limit : Nat) (r : Request) (dump : Bool) (node : Node) : Outcome :=
  let (fault, e) := match Engine.execute limit node (.onSink r.sink) with
    | .ok _ e => (none, e)
    | .error (.fault f) e => (some f, e)
    | .error .passLimit e => (none, e)
  let report := (fault.map faultLine).toList ++ if dump then contextLines e.sink else []
  ⟨if fault.isSome then 1 else 0, e.sink.output, lines report, true⟩

/-- A script, and where it comes from. -/
inductive Script where
  | file (content : String)
  | standardInput (content : String)

/-- The text of a script. The line breaks of a file are unified, those of the standard input
are not. -/
def Script.text : Script → Text
  | file content => Text.unifyLineBreaks content
  | standardInput content => content

/-- The outcome of a command on its script. A text that is no template has an outcome too,
which reports it; what else keeps a text from being read is passed on. -/
def run (limit : Nat) (a : Arguments) (r : Request) (script : Script) : Except Fault Outcome :=
  match Node.parse script.text with
  | .error (.malformed cause) => .ok ⟨1, .empty, lines [faultLine (.malformed cause)], false⟩
  | .error f => .error f
  | .ok node =>
    if a.has .tree then print (lines node.outline)
    else if a.has .canonical then print (lines [node.canonical])
    else .ok (execute limit r (a.has .dumpContext) node)

/-- A command that is ready to run: what it asks for, its script's name, and its
parameters; or the outcome that it has without a script. Of the help only the line with
the usage is printed. -/
def prepare (argv : List Text) : Except Outcome (Arguments × Text × Request) :=
  match Arguments.ofWords argv with
  | .error f => .error (.usageFault f)
  | .ok a =>
    if a.has .help then .error (.printed usage)
    else
      match Request.ofArguments a with
      | .error f => .error (.usageFault f)
      | .ok r => .ok (a, a.file.getD "-", r)

end TagTemplate.CommandLine
