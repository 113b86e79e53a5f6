/-
Parameters given on the command line as `NAME=VALUE`.
-/
import TagTemplate.Fault
import TagTemplate.Store.Entries

namespace TagTemplate.CommandLine

/-- What stands before and after the first equals sign. There has to be one, and a name
before it. -/
def splitPair? (word : Text) : Option (Text × Text) :=
  let cs := word.toList
  let name := cs.takeWhile (· != ↑ '=')
  match cs.dropWhile (· != ↑ '=') with
  | [] => none
  | _ :: value => if name.isEmpty then none else some (Text.ofList name, Text.ofList value)

def readPair (es : Entries) (word : Text) : Except Fault Entries :=
  match splitPair? word with
  | some (name, value) => .ok (es.insert name value)
  | none => .error (.pairExpected word)

/-- The pairs that a list of words denotes, in the order of first mention; a name
mentioned again gets the later value. -/
def readPairs (words : List Text) : Except Fault Entries := words.foldlM readPair []

end TagTemplate.CommandLine
