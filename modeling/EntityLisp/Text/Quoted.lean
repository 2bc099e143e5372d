import EntityLisp.Text.Printable

/-!
# Quoted texts

How a text is shown between quotes: the quote is `'`, or `"` when the text holds a `'` and no
`"`; a backslash and the quote in use are escaped, line ends and tabs have their short escapes,
and every other character that is not printable is written by its code point in lower-case
hexadecimal, with two, four or eight digits.
-/

namespace EntityLisp

/-- The `width` lowest hexadecimal digits of `n`, most significant first. -/
def hexDigits : (width : Nat) → (n : Nat) → List Char
  | 0, _ => []
  | width + 1, n => hexDigits width (n / 16) ++ [Nat.digitChar (n % 16)]

theorem length_hexDigits (width n : Nat) : (hexDigits width n).length = width := by
  induction width generalizing n with
  | zero => rfl
  | succ width ih => simp [hexDigits, ih]

/-- The escape of a character by its code point. -/
def codeEscape (c : Char) : List Char :=
  let n := c.toNat
  if n < 0x100 then ['\\', 'x'] ++ hexDigits 2 n
  else if n < 0x10000 then ['\\', 'u'] ++ hexDigits 4 n
  else ['\\', 'U'] ++ hexDigits 8 n

/-- A character as it is written between two of `quote`. -/
def escaped (quote c : Char) : List Char :=
  if c = quote ∨ c = '\\' then ['\\', c]
  else if c = '\n' then ['\\', 'n']
  else if c = '\r' then ['\\', 'r']
  else if c = '\t' then ['\\', 't']
  else if isPrintable c then [c]
  else codeEscape c

/-- The quote around `text`: `'` unless the text holds a `'` and no `"`. -/
def quoteFor (text : List Char) : Char :=
  if text.contains '\'' && !text.contains '"' then '"' else '\''

/-- **The text in quotes,** with its escapes. -/
def quoted (text : String) : String :=
  let chars := text.toList
  let quote := quoteFor chars
  String.ofList (quote :: chars.flatMap (escaped quote) ++ [quote])

/-! ### Small facts -/

example : quoted "it's" = "\"it's\"" := by decide +kernel

example : quoted "a\n\"b'" = "'a\\n\"b\\''" := by decide +kernel

example : codeEscape (Char.ofNat 0xa0) = ['\\', 'x', 'a', '0'] := by decide

end EntityLisp
