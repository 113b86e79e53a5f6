/-
The arguments of the command line: a script file, parameters, and options among
them. Short options may be joined, long ones shortened as long as only one is meant,
and an option's own argument may follow it directly, after an equals sign, or as the
next word.
-/
import TagTemplate.CommandLine.Pairs
import TagTemplate.Text.DecimalDigit

namespace TagTemplate.CommandLine

/-- The options. -/
inductive Flag where
  | help
  | persistent
  | tree
  | canonical
  | profile
  | instrument
  | dumpContext
  deriving DecidableEq

namespace Flag

def all : List Flag := [help, persistent, tree, canonical, profile, instrument, dumpContext]

def short : Flag → CodePoint
  | help => 'h'
  | persistent => 'P'
  | tree => 't'
  | canonical => 'r'
  | profile => 'p'
  | instrument => 'i'
  | dumpContext => 'c'

def long : Flag → Text
  | help => "--help"
  | persistent => "--persistent"
  | tree => "--tree"
  | canonical => "--rewrite"
  | profile => "--profile"
  | instrument => "--instrument"
  | dumpContext => "--dump-ctx"

/-- Whether the option has an argument of its own. -/
def takesArgument (f : Flag) : Bool := f == persistent

/-- An option as error messages name it. -/
def shown (f : Flag) : Text := Text.ofList ['-', f.short] ++ "/" ++ f.long

def ofShort? (c : CodePoint) : Option Flag := all.find? (·.short == c)

/-- The options that a long form may be short for: only itself if it is complete. -/
def ofLong (s : Text) : List Flag :=
  match all.filter (·.long == s) with
  | [] => all.filter fun f => s.toList.isPrefixOf f.long.toList
  | exact => exact

end Flag

/-- What is wrong with the arguments. -/
inductive UsageFault where
  | ambiguous (word : Text) (matching : List Flag)
  | argumentExpected (f : Flag)
  | argumentIgnored (f : Flag) (argument : Text)
  | fileMissing
  | unrecognized (words : List Text)
  | pair (f : Fault)
  deriving DecidableEq

def UsageFault.message : UsageFault → Text
  | ambiguous word matching =>
    "ambiguous option: " ++ word ++ " could match " ++
      Text.intercalate ", " (matching.map Flag.long)
  | argumentExpected f => "argument " ++ f.shown ++ ": expected one argument"
  | argumentIgnored f argument =>
    "argument " ++ f.shown ++ ": ignored explicit argument " ++ Text.quoted argument
  | fileMissing => "the following arguments are required: file, NAME=VALUE"
  | unrecognized words => "unrecognized arguments: " ++ Text.intercalate " " words
  | pair f => f.message

/-- A word of the command line by its form. -/
inductive Word where
  /-- No option. -/
  | plain (s : Text)
  /-- The two dashes behind which no word is an option. -/
  | dashes
  /-- An option, perhaps with an argument in the same word. -/
  | option (f : Flag) (argument : Option Text)
  /-- A short option without an argument of its own, and the letters behind it, of which
  there is at least one. -/
  | joined (f : Flag) (letters : List CodePoint)
  /-- An option that there is not. -/
  | unknown (s : Text)

namespace Word

/-- What follows the dash of a negative number: digits of any script, perhaps with a point
before the last of them. A line feed may come after it. -/
def isNegativeNumber (letters : List CodePoint) : Bool :=
  let cs := if letters.getLast? = some ↑ '\n' then letters.dropLast else letters
  match cs.dropWhile Text.isDecimalDigit with
  | [] => !cs.isEmpty
  | '.' :: ds => !ds.isEmpty && ds.all Text.isDecimalDigit
  | _ => false

/-- A word that begins with a dash but with no known option. -/
def ofUnknown (s : Text) (letters : List CodePoint) : Word :=
  if isNegativeNumber letters ∨ ↑ ' ' ∈ letters then .plain s else .unknown s

/-- A short option with what is behind its letter. An equals sign there only sets off the
rest, which is the option's argument if it takes one or if there is none, and more letters
otherwise. -/
def ofShort (f : Flag) : List CodePoint → Word
  | [] => .option f none
  | '=' :: cs =>
    if f.takesArgument ∨ cs = [] then .option f (some (Text.ofList cs)) else .joined f cs
  | cs => if f.takesArgument then .option f (some (Text.ofList cs)) else .joined f cs

/-- A word by its form, before any word of two dashes. -/
def ofText (s : Text) : Except UsageFault Word :=
  match s.toList with
  | '-' :: '-' :: cs =>
    let name := Text.ofList ('-' :: '-' :: cs.takeWhile (· != ↑ '='))
    let argument := (cs.dropWhile (· != ↑ '=')).tail
    match Flag.ofLong name with
    | [] => .ok (.ofUnknown s ('-' :: cs))
    | [f] => .ok (.option f (if ↑ '=' ∈ cs then some (Text.ofList argument) else none))
    | fs => .error (.ambiguous s fs)
  | '-' :: c :: cs =>
    match Flag.ofShort? c with
    | some f => .ok (.ofShort f cs)
    | none => .ok (.ofUnknown s (c :: cs))
  | _ => .ok (.plain s)

/-- A word that is no option, as it was given. -/
def text? : Word → Option Text
  | .plain s => some s
  | .dashes => some "--"
  | _ => none

end Word

def readWords : List Text → Except UsageFault (List Word)
  | [] => .ok []
  | s :: rest =>
    if s = "--" then .ok (.dashes :: rest.map .plain)
    else do
      let word ← Word.ofText s
      return word :: (← readWords rest)

/-- What the command line asks for. -/
structure Arguments where
  file : Option Text
  parameters : List Text
  /-- Words that belong to nothing. -/
  extra : List Text
  /-- The options given, in order, with their own arguments. -/
  options : List (Flag × Text)

namespace Arguments

def empty : Arguments := ⟨none, [], [], []⟩

def has (a : Arguments) (f : Flag) : Bool := a.options.any (·.1 == f)

/-- The arguments given to an option. -/
def given (a : Arguments) (f : Flag) : List Text := (a.options.filter (·.1 == f)).map (·.2)

def addOption (a : Arguments) (f : Flag) (argument : Text) : Arguments :=
  { a with options := a.options ++ [(f, argument)] }

def addExtra (a : Arguments) (words : List Text) : Arguments :=
  { a with extra := a.extra ++ words }

/-- Takes a run of words that are no options. The first such run with a plain word has the
file and all parameters; later ones belong to nothing. One pair of dashes beside the file
and one among the parameters count for nothing. -/
def takeRun (a : Arguments) (run : List Word) : Arguments :=
  match a.file, run with
  | none, .plain file :: rest | none, .dashes :: .plain file :: rest =>
    let rest := match rest with
      | .dashes :: rest => rest
      | rest => rest
    { a with file := some file, parameters := (rest.filterMap Word.text?).erase "--" }
  | _, run => a.addExtra (run.filterMap Word.text?)

/-- Takes an option without an argument and the letters joined to it, each of which has to
be an option. One that takes an argument has the letters behind it as that, or else needs
the next word, and then it is what is returned. -/
def takeJoined (a : Arguments) (f : Flag) : List CodePoint →
    Except UsageFault (Arguments × Option Flag)
  | [] => .ok (a.addOption f "", none)
  | c :: cs =>
    match Flag.ofShort? c with
    | none => .error (.argumentIgnored f (Text.ofList (c :: cs)))
    | some g =>
      let a := a.addOption f ""
      if !g.takesArgument then takeJoined a g cs
      else if cs.isEmpty then .ok (a, some g)
      else .ok (a.addOption g (Text.ofList cs), none)

/-- Takes words from the left; `run` holds those that are no options since the last one
that is, last word first. -/
def takeWords (a : Arguments) (run : List Word) : List Word → Except UsageFault Arguments
  | [] => .ok (close a run)
  | .plain s :: rest => takeWords a (.plain s :: run) rest
  | .dashes :: rest => takeWords a (.dashes :: run) rest
  | .unknown s :: rest => takeWords ((close a run).addExtra [s]) [] rest
  | .option f (some argument) :: rest =>
    if f.takesArgument then takeWords ((close a run).addOption f argument) [] rest
    else .error (.argumentIgnored f argument)
  | .option f none :: rest =>
    if f.takesArgument then
      match rest with
      | .plain s :: rest => takeWords ((close a run).addOption f s) [] rest
      | _ => .error (.argumentExpected f)
    else takeWords ((close a run).addOption f "") [] rest
  | .joined f letters :: rest =>
    match takeJoined (close a run) f letters with
    | .error fault => .error fault
    | .ok (a, none) => takeWords a [] rest
    | .ok (a, some g) =>
      match rest with
      | .plain s :: rest => takeWords (a.addOption g s) [] rest
      | _ => .error (.argumentExpected g)
where
  /-- Takes the run before an option. -/
  close (a : Arguments) (run : List Word) : Arguments :=
    if run.isEmpty then a else a.takeRun run.reverse

/-- The arguments of a list of words. -/
def ofWords (argv : List Text) : Except UsageFault Arguments := do
  let a ← empty.takeWords [] (← readWords argv)
  if a.has .help then return a
  if a.file = none then throw .fileMissing
  if a.extra ≠ [] then throw (.unrecognized a.extra)
  return a

end Arguments

end TagTemplate.CommandLine
