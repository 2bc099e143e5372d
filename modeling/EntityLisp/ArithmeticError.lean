import EntityLisp.CoreForm
import EntityLisp.Text.Quoted

/-!
# Payloads that cannot be combined

Arithmetic combines the payloads of entities. What is wrong with two payloads that an operation
does not combine, or with one that does not become a floating-point number. Payloads are given
by the names of their classes. A numeral in program text can fail to become a number as well.
-/

namespace EntityLisp

/-- How many digits a whole number may have in program text. -/
def digitLimit : Nat := 4300

/-- **Why arithmetic has no result.** -/
inductive ArithmeticError where
  /-- An integer beyond the finite floating-point numbers was to be rounded to one. -/
  | integerTooLarge
  /-- The operation does not combine payloads of the two classes. -/
  | unsupported (op : NumericOp) (left right : String)
  /-- A payload of another class was to be joined to a sequence. -/
  | notJoinable (sequence other : String)
  /-- A sequence was to be repeated by something that is no integer. -/
  | notCount (other : String)
  /-- A sequence was to be repeated by an integer beyond sixty-four bits. -/
  | countTooLarge
  /-- A text would have more characters than can be numbered. -/
  | textTooLong
  /-- A sequence would have more items than there is room for. -/
  | outOfRoom
  /-- A text that denotes no number was to become a floating-point number. -/
  | notNumeral (text : String)
  /-- A payload of this class was to become a floating-point number. -/
  | notReal (found : String)
  /-- A whole number was written with more digits than are read. -/
  | tooManyDigits (count : Nat)
  deriving DecidableEq

/-- The sign that stands for an operation in messages. -/
def NumericOp.sign : NumericOp → String
  | .add => "+"
  | .sub => "-"
  | .mul => "*"

/-- The message for what is wrong. -/
def ArithmeticError.message : ArithmeticError → String
  | .integerTooLarge => "int too large to convert to float"
  | .unsupported op left right =>
    "unsupported operand type(s) for " ++ op.sign ++ ": '" ++ left ++ "' and '" ++ right ++ "'"
  | .notJoinable sequence other =>
    "can only concatenate " ++ sequence ++ " (not \"" ++ other ++ "\") to " ++ sequence
  | .notCount other => "can't multiply sequence by non-int of type '" ++ other ++ "'"
  | .countTooLarge => "cannot fit 'int' into an index-sized integer"
  | .textTooLong => "repeated string is too long"
  | .outOfRoom => ""
  | .notNumeral text => "could not convert string to float: " ++ quoted text
  | .notReal found => "float() argument must be a string or a real number, not '" ++ found ++ "'"
  | .tooManyDigits count =>
    "Exceeds the limit (" ++ toString digitLimit ++ " digits) for integer string conversion: " ++
      "value has " ++ toString count ++
        " digits; use sys.set_int_max_str_digits() to increase the limit"

end EntityLisp
