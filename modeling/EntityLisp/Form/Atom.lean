import EntityLisp.Node
import EntityLisp.SyntaxError

/-!
# Atoms

How a token that is not a parenthesis is read: the three constants, strings, numbers, keywords
and, failing all these, symbols. Whole numbers are read up to a number of digits, and refused
beyond it.
-/

namespace EntityLisp

/-- The text between the quotes of a string token whose opening quote has been taken off. The
closing quote may be missing; another quote inside is a fault. -/
def readString (token : String) (chars : List Char) : Except SyntaxError Node :=
  let text := if chars.getLast? = some '"' then chars.dropLast else chars
  if '"' ∈ text then .error (.misplacedQuote token) else .ok (.str (String.ofList text))

/-- The whole number that a token writes: decimal digits with an optional minus sign, and not too
many of them. -/
def readInt? (chars : List Char) : Option Int :=
  let (negative, digits) := Decimal.takeSign chars
  if Decimal.isDigits digits ∧ digits.length ≤ digitLimit then
    let magnitude : Int := Nat.ofDigitChars 10 digits 0
    some (if negative then -magnitude else magnitude)
  else none

/-- The number of digits of a whole number that has too many to be read. Zeros in front count, a
sign does not. -/
def excessDigits? (chars : List Char) : Option Nat :=
  let digits := (Decimal.takeSign chars).2
  if Decimal.isDigits digits ∧ digitLimit < digits.length then some digits.length else none

/-- The nearest floating-point number to the numeral with a point that a token writes. -/
def readFloat? (chars : List Char) : Option Binary64 :=
  (Decimal.readPositional? chars).map Binary64.ofDecimal

/-- What a token stands for that is no constant and holds no quote: a number, a keyword or a
symbol. -/
def bareAtom (token : String) : Node :=
  match readInt? token.toList, readFloat? token.toList with
  | some n, _ => .int n
  | none, some x => .float x
  | none, none =>
    match token.toList with
    | ':' :: name => .keyword (String.ofList name)
    | _ => .symbol token

/-- Reads a token that is no constant and holds no quote. -/
def readBare (token : String) : Except SyntaxError Node :=
  match excessDigits? token.toList with
  | some count => .error (.tooManyDigits count)
  | none => .ok (bareAtom token)

/-- **The atom that a token stands for.** -/
def readAtom (token : String) : Except SyntaxError Node :=
  if token = "true" then .ok (.bool true)
  else if token = "false" then .ok (.bool false)
  else if token = "nil" then .ok .nil
  else
    match token.toList with
    | '"' :: rest => readString token rest
    | chars =>
      if '"' ∈ chars then .error (.misplacedQuote token)
      else if chars.head? = some '\'' then .error (.singleQuote token)
      else readBare token

end EntityLisp
