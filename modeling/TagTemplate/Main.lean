/-
The command line program: what it reads and prints.
-/
import TagTemplate.CommandLine.Basic

namespace TagTemplate.CommandLine

/-- The script of this name; `-` is the standard input. -/
def readScript (name : Text) : IO Script := do
  if name = "-" then return .standardInput (← (← IO.getStdin).readToEnd)
  else
    match name.string? with
    | some path => return .file (← IO.FS.readFile path)
    | none => throw (.userError "a file name is made of characters")

/-- A text as the error stream shows it, where what is no character is escaped. -/
def shownOnErrors (s : Text) : String :=
  let shown (c : CodePoint) := if c.scalar?.isSome then [c] else Text.quotedChar '\'' c
  String.ofList ((s.toList.flatMap shown).filterMap CodePoint.scalar?)

def printOutcome (o : Outcome) : IO Unit := do
  let out ← IO.getStdout
  out.write o.stdout
  out.flush
  (← IO.getStderr).putStr (shownOnErrors o.stderr)

/-- The time that a run took, given in milliseconds. -/
def timeLine (ms : Nat) : String :=
  let fraction := toString (1000 + ms % 1000)
  "Time cost: " ++ toString (ms / 1000) ++ "." ++ (fraction.drop 1).toString ++ " secs"

/-- Runs a command and reports how long its script took. -/
def program (argv : List String) : IO UInt32 := do
  match prepare (argv.map Text.ofString) with
  | .error o =>
    printOutcome o
    return o.code.toUInt32
  | .ok (a, name, r) =>
    let script ← readScript name
    let before ← IO.monoMsNow
    match run Engine.passLimit a r script with
    | .error f =>
      (← IO.getStderr).putStrLn (shownOnErrors (f.category ++ ": " ++ f.message))
      return 1
    | .ok o =>
      printOutcome o
      let after ← IO.monoMsNow
      if o.ran then (← IO.getStderr).putStrLn (timeLine (after - before))
      return o.code.toUInt32

end TagTemplate.CommandLine

def main (argv : List String) : IO UInt32 := TagTemplate.CommandLine.program argv
