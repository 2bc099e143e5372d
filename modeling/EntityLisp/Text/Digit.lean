import EntityLisp.Text.Printable

/-!
# Digits of every script

A whole number in a setting may be written with the decimal digits of any script. Unicode 14
encodes the ten digits of a script one after the other, so a script is given by its zero
(`digitZeros`), and `decimalDigit?` is the distance to the zero at or before the character.

Some characters are digits without being decimal digits: superscripts, circled digits and the
like. `isDigitLike` accepts both sorts; no number can be read from the second.
-/

namespace EntityLisp

/-- The zeros of the scripts, each followed by the nine other digits of its script. -/
def digitZeros : List Nat :=
   [0x30, 0x660, 0x6f0, 0x7c0, 0x966, 0x9e6, 0xa66, 0xae6, 0xb66, 0xbe6, 0xc66, 0xce6, 0xd66,
    0xde6, 0xe50, 0xed0, 0xf20, 0x1040, 0x1090, 0x17e0, 0x1810, 0x1946, 0x19d0, 0x1a80, 0x1a90,
    0x1b50, 0x1bb0, 0x1c40, 0x1c50, 0xa620, 0xa8d0, 0xa900, 0xa9d0, 0xa9f0, 0xaa50, 0xabf0,
    0xff10, 0x104a0, 0x10d30, 0x11066, 0x110f0, 0x11136, 0x111d0, 0x112f0, 0x11450, 0x114d0,
    0x11650, 0x116c0, 0x11730, 0x118e0, 0x11950, 0x11c50, 0x11d50, 0x11da0, 0x16a60, 0x16ac0,
    0x16b50, 0x1d7ce, 0x1d7d8, 0x1d7e2, 0x1d7ec, 0x1d7f6, 0x1e140, 0x1e2f0, 0x1e950, 0x1fbf0]

/-- The bounds, in pairs, of the runs of digits that are not decimal digits. -/
def otherDigitBounds : List Nat :=
   [0xb2, 0xb4, 0xb9, 0xba, 0x1369, 0x1372, 0x19da, 0x19db, 0x2070, 0x2071, 0x2074, 0x207a,
    0x2080, 0x208a, 0x2460, 0x2469, 0x2474, 0x247d, 0x2488, 0x2491, 0x24ea, 0x24eb, 0x24f5,
    0x24fe, 0x24ff, 0x2500, 0x2776, 0x277f, 0x2780, 0x2789, 0x278a, 0x2793, 0x10a40, 0x10a44,
    0x10e60, 0x10e69, 0x11052, 0x1105b, 0x1f100, 0x1f10b]

/-- **The value of a decimal digit** of any script, or `none` for any other character. -/
def decimalDigit? (c : Char) : Option Nat :=
  (digitZeros.find? fun first => first ≤ c.toNat && c.toNat < first + 10).map (c.toNat - ·)

/-- Whether the character is a digit of any sort, decimal or not. -/
def isDigitLike (c : Char) : Bool :=
  (decimalDigit? c).isSome || inRuns c.toNat otherDigitBounds

/-- The number with the given decimal digits, most significant first. -/
def ofDigitValues (digits : List Nat) : Nat := digits.foldl (fun n d => 10 * n + d) 0

/-- The number written by decimal digits of any script, most significant first; `none` if the
text is empty or holds anything else. -/
def readDigits? : List Char → Option Nat
  | [] => none
  | text => (text.mapM decimalDigit?).map ofDigitValues

/-! ### Small facts -/

example : decimalDigit? '7' = some 7 := by decide

example : readDigits? ['0', '4', '2'] = some 42 := by decide

/-- The superscript two is a digit, but no decimal digit. -/
example : isDigitLike '²' = true ∧ decimalDigit? '²' = none := by decide

end EntityLisp
