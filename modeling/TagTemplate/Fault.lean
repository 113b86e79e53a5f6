/-
What can go wrong in reading and running a template, each cause with what its
message needs, and the wording of the messages.
-/
import TagTemplate.Text.Quoted

namespace TagTemplate

/-- What is wrong with the text of a template. Positions count code points. -/
inductive SyntaxFault where
  | dollarExpected (pos : Nat)
  | nameMissing (pos : Nat)
  | spaceExpected (pos : Nat)
  | closeExpected (start : Nat)
  | stringOpen (start : Nat)
  | tagOpen (start : Nat)
  | functionName (word : Text)
  | unknownWord (word : Text)
  | loopArguments (count pos : Nat)
  | loopVariable (token : Text) (pos : Nat)
  | endArguments (pos : Nat)
  | endUnmatched (pos : Nat)
  | unknownCommand (name : Text) (pos : Nat)
  | loopsOpen (count : Nat)
  deriving DecidableEq

/-- What can go wrong. -/
inductive Fault where
  /-- The text is no template. -/
  | malformed (cause : SyntaxFault)
  /-- What is shown is no number and does not read as one. -/
  | notNumeric (shown : Text)
  /-- A number was wanted, and this kind of thing was given instead. -/
  | notRaw (kind shown : Text)
  /-- A loop bound is no constant. -/
  | loopBound (token : Text)
  /-- An integer text of this many digits is too long to be read. -/
  | tooManyDigits (count : Nat)
  /-- An integer has too many digits to be written. -/
  | integerTooLong
  /-- A spelling of a special number that uses letters of another alphabet. -/
  | specialNumber (word : Text)
  | unknownOperator (symbol : Text)
  | divisionByZero
  /-- No binding or no entry has this name. -/
  | unknownName (name : Text)
  | emptyStore
  /-- A token needs more values than the echo stack holds. -/
  | underflow (token : Text)
  | malformedPattern (pattern : Text)
  /-- The sine of an infinity. -/
  | sineOfInfinity
  /-- A formatted number has more digits than the working precision. -/
  | precision
  /-- The output goes to a stream that cannot be read back. -/
  | streamOutput
  /-- A code point that the output encoding does not have. -/
  | unencodable
  /-- Output bytes that the encoding does not have. -/
  | undecodable
  /-- A parameter on the command line that is no `NAME=VALUE`. -/
  | pairExpected (word : Text)
  deriving DecidableEq

def SyntaxFault.message : SyntaxFault → Text
  | dollarExpected pos => "expected '$' after '\x7b' at " ++ toString pos
  | nameMissing pos => "missing tag name at " ++ toString pos
  | spaceExpected pos => "expected whitespace after a string at " ++ toString pos
  | closeExpected start => "missing '$\x7d' to close the tag at " ++ toString start
  | stringOpen start => "unterminated string in the tag at " ++ toString start
  | tagOpen start => "unclosed tag at " ++ toString start
  | functionName word => "invalid function name: " ++ word
  | unknownWord word => "unknown data: " ++ word
  | loopArguments count pos =>
    "for tag takes 3 or 4 arguments, got " ++ toString count ++ " at " ++ toString pos
  | loopVariable token pos => "bad for loop variable: " ++ token ++ " at " ++ toString pos
  | endArguments pos => "end tag takes no arguments at " ++ toString pos
  | endUnmatched pos => "too many end tags at " ++ toString pos
  | unknownCommand name pos => "unknown command: " ++ name ++ " at " ++ toString pos
  | loopsOpen count => "missing end tags: " ++ toString count ++ " for loop(s) left open"

namespace Fault

/-- The word for the class of a fault that reports put before the message. -/
def category : Fault → String
  | malformed _ => "ParseError"
  | notNumeric _ | notRaw .. | loopBound _ => "TypeError"
  | tooManyDigits _ | integerTooLong | specialNumber _ | unknownOperator _
  | malformedPattern _ | sineOfInfinity | streamOutput => "ValueError"
  | divisionByZero => "ZeroDivisionError"
  | unknownName _ | emptyStore => "KeyError"
  | underflow _ => "IndexError"
  | precision => "InvalidOperation"
  | unencodable => "UnicodeEncodeError"
  | undecodable => "UnicodeDecodeError"
  | pairExpected _ => "ArgumentTypeError"

/-- The wording for integers that are too long, with what is known of their length. -/
def lengthMessage (detail : Text) : Text :=
  "Exceeds the limit (4300 digits) for integer string conversion" ++ detail ++
    "; use sys.set_int_max_str_digits() to increase the limit"

/-- The message of a fault. Three are shorter than the ones that a user sees: for a malformed
pattern the place where reading it stopped is left out, and for a text that cannot be
encoded or decoded the code point and its place are. -/
def message : Fault → Text
  | malformed cause => cause.message
  | notNumeric shown => "value must be integer, double, or a numeric string: " ++ shown
  | notRaw kind shown => "bad raw value type: <class '" ++ kind ++ "'>: " ++ shown
  | loopBound token => "bad for loop bound: " ++ token
  | tooManyDigits count => lengthMessage (": value has " ++ toString count ++ " digits")
  | integerTooLong => lengthMessage ""
  | specialNumber word => "could not convert string to float: " ++ Text.quoted word
  | unknownOperator symbol => "unknown operator: " ++ symbol
  | divisionByZero => "integer division by zero"
  | unknownName name => Text.quoted name
  | emptyStore => ""
  | underflow token => "echo stack underflow: " ++ token
  | malformedPattern pattern => "malformed decimal format pattern: " ++ Text.quoted pattern
  | sineOfInfinity => "math domain error"
  | precision => "[<class 'decimal.InvalidOperation'>]"
  | streamOutput => "output is not an in-memory buffer"
  | unencodable => "text is not in the output encoding"
  | undecodable => "output is not in its encoding"
  | pairExpected word => "expected NAME=VALUE, got " ++ Text.quoted word

end Fault

end TagTemplate
