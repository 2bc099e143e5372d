import EntityLisp.Number.Shortest
import EntityLisp.Text.Blank
import EntityLisp.Text.Digit

/-!
# Numerals in free notation

What counts as a floating-point number when it is given as a text and not as program text. Blanks
around it are ignored, the digits may be those of any script, and single underscores may stand
between digits. The number is then named, as infinity or as NaN, or written by a numeral of
either layout. However large an exponent is, it is handled without being written out.
-/

namespace EntityLisp

/-! ### The characters of a numeral -/

/-- A character as it counts in a numeral: the blanks beyond ASCII are spaces, and the decimal
digits of every script are those from 0 to 9. -/
def numeralChar (c : Char) : Char :=
  if c.toNat < 127 then c
  else if isBlank c then ' '
  else match decimalDigit? c with
    | some d => Nat.digitChar d
    | none => c

/-- Whether a character may surround a numeral: the space, the tabs and the line ends. -/
def isMargin (c : Char) : Bool := c == ' ' || (9 ≤ c.toNat && c.toNat ≤ 13)

/-- The text without the margins at its two ends. -/
def trimMargins (text : List Char) : List Char :=
  ((text.dropWhile isMargin).reverse.dropWhile isMargin).reverse

/-- The text without underscores; `none` if one of them does not stand between two digits.
`behindDigit` says whether a digit stands in front of the text. -/
def dropGrouping? : (behindDigit : Bool) → List Char → Option (List Char)
  | _, [] => some []
  | behindDigit, '_' :: c :: rest =>
    if behindDigit && c.isDigit then (dropGrouping? true rest).map (c :: ·) else none
  | _, c :: rest =>
    if c = '_' then none else (dropGrouping? c.isDigit rest).map (c :: ·)

/-! ### The number -/

namespace Binary64

/-- Beyond this power of ten in either direction a leading digit makes an infinity or a zero. -/
def decisivePower : Int := 400

/-- The floating-point number nearest to a numeral whose exponent may be of any size. -/
def ofNumeral (d : Decimal) : Binary64 :=
  if d.coefficient = 0 then zero d.negative
  else if decisivePower < d.leading then .infinite d.negative
  else if d.leading < -decisivePower then zero d.negative
  else ofDecimal d

/-- The number that is named or written in characters that are as they count. -/
def ofNumeralChars? (text : List Char) : Option Binary64 :=
  let (negative, unsigned) := Decimal.takeEitherSign text
  let name := String.ofList (unsigned.map Char.toLower)
  if name = "nan" then some invalid
  else if name = "inf" ∨ name = "infinity" then some (.infinite negative)
  else (Decimal.read? text).map ofNumeral

/-- **The number that a text denotes.** -/
def read? (text : String) : Option Binary64 :=
  (dropGrouping? false (trimMargins (text.toList.map numeralChar))).bind ofNumeralChars?

end Binary64

/-! ### Small facts -/

example : (Binary64.read? " -Infinity ") = some (.infinite true) := by decide +kernel

example : Binary64.read? "1_000.5e-1" = Binary64.read? "100.05" := by decide +kernel

example : Binary64.read? "1__0" = none := by decide +kernel

end EntityLisp
