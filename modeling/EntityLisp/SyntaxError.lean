import EntityLisp.ArithmeticError
import EntityLisp.Text.Quoted

/-!
# Malformed program text

What can be wrong with a program before any of it runs, and the message for each fault.
-/

namespace EntityLisp

/-- **A fault in program text.** -/
inductive SyntaxError where
  /-- The text ends inside a quoted part. -/
  | unclosedQuote
  /-- A quote stands inside a token where no string can begin or end. -/
  | misplacedQuote (token : String)
  /-- A token begins with a single quote. -/
  | singleQuote (token : String)
  /-- A form was to begin, and another token or the end of the tokens was found. -/
  | expectedOpen (found : Option String)
  /-- The tokens end inside a form. -/
  | unclosedForm
  /-- Forms are nested deeper than the reader goes. -/
  | nestedTooDeeply
  /-- A whole number with more digits than are read. It is well formed, and what goes wrong is
  that no number is made of it. -/
  | tooManyDigits (count : Nat)
  /-- A function body that is only a reference to the function itself. -/
  | bareSelf
  deriving DecidableEq

namespace SyntaxError

/-- What the message for a malformed text begins with. -/
def heading : String := "Syntax error: "

/-- The message for a fault. -/
def message : SyntaxError → String
  | .unclosedQuote => heading ++ "unclosed quote"
  | .misplacedQuote token => heading ++ "misplaced quote in " ++ token
  | .singleQuote token => heading ++ "single quotes not allowed: " ++ token
  | .expectedOpen none => heading ++ "expected '(' but found end of input"
  | .expectedOpen (some token) => heading ++ "expected '(' but found " ++ quoted token
  | .unclosedForm => heading ++ "unclosed parenthesis"
  | .nestedTooDeeply => heading ++ "forms nested too deeply"
  | .tooManyDigits count => (ArithmeticError.tooManyDigits count).message
  | .bareSelf => heading ++ "lambda body cannot be a bare `self`; recursion is not supported"

end SyntaxError

end EntityLisp
