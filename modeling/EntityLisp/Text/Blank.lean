/-!
# Blank characters

The characters that stand between tokens and around a setting without being part of it: the
twenty-nine code points that Unicode counts as white space or as a separator of lines,
paragraphs and fields.

`isBlank` is the test and `trimBlank` removes the blanks at both ends of a text.
-/

namespace EntityLisp

/-- **A blank character.** The tabs and line ends from U+0009 to U+000D, the field separators
from U+001C to U+001F, the space, U+0085, U+00A0, and the wider spaces and the two separators
beyond ASCII. -/
def isBlank (c : Char) : Bool :=
  let n := c.toNat
  (0x09 ≤ n && n ≤ 0x0d) || (0x1c ≤ n && n ≤ 0x20) || n == 0x85 || n == 0xa0 || n == 0x1680 ||
    (0x2000 ≤ n && n ≤ 0x200a) || n == 0x2028 || n == 0x2029 || n == 0x202f || n == 0x205f ||
    n == 0x3000

/-- The text without the blanks at its two ends. -/
def trimBlank (text : List Char) : List Char :=
  ((text.dropWhile isBlank).reverse.dropWhile isBlank).reverse

/-! ### Small facts -/

/-- Every white-space character of ASCII is blank. -/
theorem isBlank_of_isWhitespace {c : Char} (h : c.isWhitespace = true) : isBlank c = true := by
  simp only [Char.isWhitespace, Bool.or_eq_true, decide_eq_true_eq] at h
  rcases h with ((h | h) | h) | h <;> subst h <;> decide

theorem isBlank_openParen : isBlank '(' = false := by decide

theorem isBlank_closeParen : isBlank ')' = false := by decide

theorem isBlank_quote : isBlank '"' = false := by decide

theorem isBlank_semicolon : isBlank ';' = false := by decide

theorem isBlank_newline : isBlank '\n' = true := by decide

theorem isBlank_space : isBlank ' ' = true := by decide

end EntityLisp
