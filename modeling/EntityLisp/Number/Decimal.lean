/-!
# Decimal numerals

A `Decimal` is a signed whole coefficient scaled by a power of ten. It is written in one of two
layouts. The positional one has a point and at least one digit on each side of it. The other has
one leading digit, the remaining digits after a point if there are any, and an exponent of at
least two digits with its sign.

`readPositional?` reads the positional layout only, and so decides which numerals a program text
may hold. `Decimal.read?` reads both layouts and more: the sign may be a plus, and the point and
the digits on one side of it may be missing.
-/

namespace EntityLisp

/-- **A decimal numeral:** `coefficient * 10 ^ exponent`, negative if `negative`. -/
structure Decimal where
  negative : Bool
  coefficient : Nat
  exponent : Int
  deriving DecidableEq

namespace Decimal

/-! ### Writing -/

/-- The digits of the coefficient, most significant first. -/
def digits (d : Decimal) : List Char := Nat.toDigits 10 d.coefficient

/-- The power of ten for which the leading digit stands. -/
def leading (d : Decimal) : Int := d.digits.length - 1 + d.exponent

/-- The sign in front of a numeral. -/
def sign (d : Decimal) : List Char := if d.negative then ['-'] else []

/-- The digits before the point and after it when the last of `digits` stands for the power
`exponent` of ten. Zeros fill the places on either side that no digit covers. -/
def aroundPoint (digits : List Char) (exponent : Int) : List Char × List Char :=
  match exponent with
  | .ofNat zeros => (digits ++ List.replicate zeros '0', [])
  | .negSucc k =>
    let places := k + 1
    if digits.length ≤ places then
      (['0'], List.replicate (places - digits.length) '0' ++ digits)
    else
      (digits.take (digits.length - places), digits.drop (digits.length - places))

/-- **The positional layout:** all places are written out, and a number without a fraction has
the fraction zero. -/
def positional (d : Decimal) : List Char :=
  let (whole, fraction) := aroundPoint d.digits d.exponent
  d.sign ++ whole ++ '.' :: (if fraction.isEmpty then ['0'] else fraction)

/-- The digits of an exponent, at least two. -/
def exponentDigits (n : Nat) : List Char :=
  if n < 10 then ['0', Nat.digitChar n] else Nat.toDigits 10 n

/-- **The layout with an exponent,** which is the power of the leading digit. -/
def scientific (d : Decimal) : List Char :=
  let mantissa := match d.digits with
    | first :: next :: rest => first :: '.' :: next :: rest
    | short => short
  d.sign ++ mantissa ++ 'e' :: (if d.leading < 0 then '-' else '+') ::
    exponentDigits d.leading.natAbs

/-! ### Reading -/

/-- Whether the text is a run of one or more of the digits from 0 to 9. -/
def isDigits (text : List Char) : Bool := !text.isEmpty && text.all Char.isDigit

/-- A leading minus sign, and the text behind it. -/
def takeSign : List Char → Bool × List Char
  | '-' :: rest => (true, rest)
  | text => (false, text)

/-- The runs of digits before and after the point of a numeral without sign; `none` unless the
text is one run, a point, and another run. -/
def splitNumeral? (text : List Char) : Option (List Char × List Char) :=
  match text.span (· ≠ '.') with
  | (whole, '.' :: fraction) =>
    if isDigits whole && isDigits fraction then some (whole, fraction) else none
  | _ => none

/-- The numeral with a point that the text writes, with as many places as the text has. -/
def readPositional? (text : List Char) : Option Decimal :=
  let (negative, unsigned) := takeSign text
  (splitNumeral? unsigned).map fun (whole, fraction) =>
    ⟨negative, Nat.ofDigitChars 10 (whole ++ fraction) 0, -(fraction.length : Int)⟩

/-- A leading sign of either sort, and the text behind it. -/
def takeEitherSign : List Char → Bool × List Char
  | '+' :: rest => (false, rest)
  | text => takeSign text

/-- The coefficient of an unsigned numeral without exponent, and how many of its digits stand
behind the point. -/
def readSignificand? (text : List Char) : Option (Nat × Nat) :=
  let (whole, rest) := text.span (· ≠ '.')
  let fraction := rest.drop 1
  if isDigits (whole ++ fraction) then
    some (Nat.ofDigitChars 10 (whole ++ fraction) 0, fraction.length)
  else none

/-- The exponent that is written behind its mark, with an optional sign. -/
def readExponent? (text : List Char) : Option Int :=
  let (negative, digits) := takeEitherSign text
  if isDigits digits then
    let magnitude : Int := Nat.ofDigitChars 10 digits 0
    some (if negative then -magnitude else magnitude)
  else none

/-- **The numeral that a text writes,** in either layout. -/
def read? (text : List Char) : Option Decimal :=
  let (negative, unsigned) := takeEitherSign text
  let (significand, mark) := unsigned.span fun c => c ≠ 'e' && c ≠ 'E'
  let exponent? := if mark.isEmpty then some 0 else readExponent? (mark.drop 1)
  (readSignificand? significand).bind fun (coefficient, places) =>
    exponent?.map fun exponent => ⟨negative, coefficient, exponent - places⟩

/-! ### Small facts -/

example : positional ⟨true, 15, -1⟩ = ['-', '1', '.', '5'] := by decide

example : positional ⟨false, 5, 2⟩ = ['5', '0', '0', '.', '0'] := by decide

example : positional ⟨false, 5, -3⟩ = ['0', '.', '0', '0', '5'] := by decide

example : scientific ⟨false, 15, -8⟩ = ['1', '.', '5', 'e', '-', '0', '7'] := by decide

example : read? ['-', '1', '.', '5', 'e', '-', '0', '7'] = some ⟨true, 15, -8⟩ := by
  decide +kernel

end Decimal

end EntityLisp
