/-
The numbers of a template: integers of 64 bits, which wrap around, and doubles. An
operation on two integers is exact up to the wrapping; as soon as one operand is
a double, both are.
-/
import TagTemplate.Double.Arithmetic
import TagTemplate.Double.Text
import TagTemplate.Fault

namespace TagTemplate

/-- The four operators of an echo. -/
inductive Operation where
  | add | sub | mul | div
  deriving DecidableEq

namespace Operation

def symbol : Operation → Text
  | add => "+"
  | sub => "-"
  | mul => "*"
  | div => "/"

def ofSymbol? (s : Text) : Option Operation :=
  [add, sub, mul, div].find? (·.symbol == s)

end Operation

inductive Number where
  | integer (n : Int64)
  | double (x : Double)
  deriving DecidableEq

namespace Number

instance : Inhabited Number := ⟨integer 0⟩

/-- An integer of any size, reduced to 64 bits. -/
def wrap (n : Int) : Int64 := Int64.ofInt n

def toDouble : Number → Double
  | integer n => Double.ofInt n.toInt
  | double x => x

def isDouble : Number → Bool
  | integer _ => false
  | double _ => true

def isNaN : Number → Bool
  | integer _ => false
  | double x => x.isNaN

/-- Division of integers goes toward zero. -/
def applyIntegers : Operation → Int64 → Int64 → Except Fault Int64
  | .add, a, b => .ok (a + b)
  | .sub, a, b => .ok (a - b)
  | .mul, a, b => .ok (a * b)
  | .div, a, b => if b = 0 then .error .divisionByZero else .ok (a / b)

def applyDoubles : Operation → Double → Double → Double
  | .add => Double.add
  | .sub => Double.sub
  | .mul => Double.mul
  | .div => Double.div

def apply (op : Operation) : Number → Number → Except Fault Number
  | integer a, integer b => integer <$> applyIntegers op a b
  | a, b => .ok (double (applyDoubles op a.toDouble b.toDouble))

/-- The sum, which always exists. -/
def plus : Number → Number → Number
  | integer a, integer b => integer (a + b)
  | a, b => double (a.toDouble.add b.toDouble)

/-- The order of doubles made total: NaN comes last and is equal to itself, and the
negative zero comes before the positive one. -/
def compareDoubles (a b : Double) : Ordering :=
  if a.lt b then .lt
  else if b.lt a then .gt
  else if a.isNaN || b.isNaN then compare a.isNaN.toNat b.isNaN.toNat
  else compare b.isNegative.toNat a.isNegative.toNat

def order : Number → Number → Ordering
  | integer a, integer b => compare a.toInt b.toInt
  | a, b => compareDoubles a.toDouble b.toDouble

/-- The same kind and the same number; so a NaN is not even itself. -/
def same : Number → Number → Bool
  | integer a, integer b => a == b
  | double a, double b => a.sameNumber b
  | _, _ => false

/-- The digits of an integer of any size, behind a minus sign if it is negative. -/
def integerChars (n : Int) : List Char :=
  (if n < 0 then ['-'] else []) ++ Nat.toDigits 10 n.natAbs

def integerText (n : Int) : String := String.ofList (integerChars n)

/-- Integers with more digits are neither written nor read. -/
def digitLimit : Nat := 4300

/-- The text of an integer, unless it is too long. -/
def writeInteger (n : Int) : Except Fault Text :=
  if digitLimit < Decimal.size n.natAbs then .error .integerTooLong else .ok (integerText n)

theorem writeInteger_of_le {n : Int} (h : Decimal.size n.natAbs ≤ digitLimit) :
    writeInteger n = .ok (integerText n) := if_neg (Nat.not_lt.2 h)

theorem writeInteger_of_lt {n : Int} (h : digitLimit < Decimal.size n.natAbs) :
    writeInteger n = .error .integerTooLong := if_pos h

def chars : Number → List Char
  | integer n => integerChars n.toInt
  | double x => x.chars

def text (v : Number) : String := String.ofList v.chars

/-- The number with the name of its kind. -/
def shown (v : Number) : Text :=
  (if v.isDouble then "Double(" else "Integer(") ++ v.text ++ ")"

end Number

end TagTemplate
