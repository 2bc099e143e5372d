import EntityLisp.SyntaxError
import EntityLisp.Text.Blank

/-!
# Tokens of program text

Program text is cut into tokens: each parenthesis outside quotes is one, and so is every longest
run of other characters between blanks, parentheses and comments. A double quote opens or closes
a quoted part of a token, inside of which every character belongs to the token. A semicolon
outside quotes starts a comment that goes to the end of its line.

`tokenize` fails only on a text that ends inside quotes.
-/

namespace EntityLisp

/-- Where the next character of a text stands. -/
inductive TextMode where
  | plain
  | quoted
  | comment
  deriving DecidableEq

/-- The tokens with the pending one in front, unless nothing is pending. The characters of the
pending token are held latest first. -/
def flushToken (pending : List Char) (tokens : List String) : List String :=
  if pending.isEmpty then tokens else String.ofList pending.reverse :: tokens

/-- The tokens of the rest of a text, where `pending` is the token begun before it. -/
def tokensFrom : TextMode → (pending : List Char) → List Char → Except SyntaxError (List String)
  | .quoted, _, [] => .error .unclosedQuote
  | _, pending, [] => .ok (flushToken pending [])
  | .comment, pending, c :: rest =>
    tokensFrom (if c = '\n' then .plain else .comment) pending rest
  | .quoted, pending, c :: rest =>
    tokensFrom (if c = '"' then .plain else .quoted) (c :: pending) rest
  | .plain, pending, c :: rest =>
    if c = '"' then tokensFrom .quoted (c :: pending) rest
    else if c = ';' then (tokensFrom .comment [] rest).map (flushToken pending)
    else if isBlank c then (tokensFrom .plain [] rest).map (flushToken pending)
    else if c = '(' ∨ c = ')' then
      (tokensFrom .plain [] rest).map fun tokens => flushToken pending (c.toString :: tokens)
    else tokensFrom .plain (c :: pending) rest

/-- **The tokens of a program text.** -/
def tokenize (text : String) : Except SyntaxError (List String) :=
  tokensFrom .plain [] text.toList

end EntityLisp
