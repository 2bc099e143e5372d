import EntityLisp.Number.Binary64

/-!
# Numbers

A number is an integer of any size or a floating-point number of double precision. Numbers of the
two sorts compare by exact value; for arithmetic an integer is rounded to a floating-point
number, if it is not too large.
-/

namespace EntityLisp

/-- **A number** of either sort. -/
inductive Number where
  | int (value : Int)
  | float (value : Binary64)
  deriving DecidableEq

namespace Number

/-- Whether two numbers have exactly the same value; no number is rounded. -/
def sameValue : Number → Number → Bool
  | .int m, .int n => m == n
  | .int m, .float y => y.isWhole m
  | .float x, .int n => x.isWhole n
  | .float x, .float y => x.sameValue y

/-- A number as a floating-point number; `none` for an integer that is too large. -/
def toFloat? : Number → Option Binary64
  | .float x => some x
  | .int n => Binary64.ofInt? n

end Number

end EntityLisp
