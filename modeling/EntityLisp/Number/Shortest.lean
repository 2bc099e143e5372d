import EntityLisp.Number.Binary64
import EntityLisp.Number.Decimal

/-!
# The shortest numeral of a floating-point number

A floating-point number is written with the fewest decimal digits that read back as the same
number, and among numerals of that length with the nearest one. `Binary64.decimal?` finds it: for
one, two, up to seventeen digits it tries the two neighbours of the exact value on that decimal
grid, and takes the first that reads back, the nearer if both do. Should no grid have a hit, all
digits of the exact value are written, so that the numeral reads back in every case
(`ofDecimal_of_decimal?`).

`FloatStyle` says which layout a numeral has and how the other values are called.
-/

namespace EntityLisp

-- powers of whole numbers are those of the core library, whatever else is in scope
attribute [local instance (high)] instPowNat

namespace Binary64

/-- The floating-point number nearest to a decimal numeral. -/
def ofDecimal (d : Decimal) : Binary64 := ofScaled d.negative d.coefficient d.exponent

/-! ### The decimal grids around a number -/

/-- The power of ten of the leading decimal digit of a positive count of units. The count is
scaled by a power of ten that brings the least unit above one. -/
def leadingPower (units : Nat) : Int :=
  ((Nat.toDigits 10 (10 ^ (400 : Nat) * units / unitsPerOne)).length : Int) - 401

/-- The count of units over the spacing `10 ^ exponent` of a grid, as a quotient. -/
def overGrid (units : Nat) (exponent : Int) : Nat × Nat :=
  match exponent with
  | .ofNat e => (units, unitsPerOne * 10 ^ e)
  | .negSucc e => (units * 10 ^ (e + 1), unitsPerOne)

/-- A numeral whose coefficient has just been carried to a new leading digit drops the zero at
its end. -/
def dropZero (d : Decimal) : Decimal :=
  if d.coefficient % 10 = 0 then { d with coefficient := d.coefficient / 10,
                                          exponent := d.exponent + 1 }
  else d

/-- The grid points around the number with `count` digits, the nearer one first and of two
equally near the even one. -/
def neighbours (negative : Bool) (units count : Nat) : List Decimal :=
  let exponent := leadingPower units + 1 - count
  let (num, den) := overGrid units exponent
  let below := num / den
  let points := [dropZero ⟨negative, below, exponent⟩, dropZero ⟨negative, below + 1, exponent⟩]
  if roundQuotient num den = below then points else points.reverse

/-- All decimal digits of the exact value. -/
def exactDecimal (negative : Bool) (units : Nat) : Decimal :=
  ⟨negative, 5 ^ fractionBits * units, -fractionBits⟩

/-- **The shortest numeral that reads back,** nearest to the number among those of its length;
`none` for the infinities and NaN. -/
def decimal? (x : Binary64) : Option Decimal :=
  match x with
  | .finite negative 0 _ => some ⟨negative, 0, 0⟩
  | .finite negative units _ =>
    let candidates := (List.range' 1 17).flatMap (neighbours negative units)
    some ((candidates.find? (ofDecimal · = x)).getD (exactDecimal negative units))
  | _ => none

/-! ### Reading back -/

theorem two_pow_mul_five_pow (n : Nat) : 2 ^ n * 5 ^ n = 10 ^ n := (Nat.mul_pow 2 5 n).symm

theorem ofDecimal_exactDecimal (negative : Bool) {units : Nat} (h : IsDouble units) :
    ofDecimal (exactDecimal negative units) = .finite negative units h := by
  have hscale : unitsPerOne * (5 ^ fractionBits * units) = units * 10 ^ fractionBits := by
    rw [unitsPerOne, ← Nat.mul_assoc, two_pow_mul_five_pow, Nat.mul_comm]
  simp only [ofDecimal, exactDecimal]
  rw [ofScaled_neg _ _ (by decide), hscale]
  exact ofUnits_of_isDouble negative (Nat.pow_pos (by omega)) h

/-- The numeral of a finite number reads back as that number. -/
theorem ofDecimal_of_decimal? {x : Binary64} {d : Decimal} (h : x.decimal? = some d) :
    ofDecimal d = x := by
  unfold decimal? at h
  split at h
  · next negative isDouble =>
    cases h
    have := ofUnits_of_isDouble negative Nat.one_pos isDouble
    simpa [ofDecimal, ofScaled] using this
  · next negative units isDouble _ =>
    simp only [Option.some.injEq] at h
    subst h
    cases hfind : ((List.range' 1 17).flatMap (neighbours negative units)).find?
        (ofDecimal · = .finite negative units isDouble) with
    | none => exact ofDecimal_exactDecimal negative isDouble
    | some d => simpa using List.find?_some hfind
  · exact absurd h (by simp)

end Binary64

/-! ### Two ways to write a number -/

/-- **A way to write floating-point numbers:** for which leading powers of ten the layout is
positional, and the names of the values that have no numeral. -/
structure FloatStyle where
  isPositional : Int → Bool
  infinity : String
  notANumber : String

namespace FloatStyle

/-- A number on display: positional from the fourth place after the point to the sixteenth before
it, and with an exponent beyond. -/
def display : FloatStyle where
  isPositional power := -4 ≤ power && power < 16
  infinity := "inf"
  notANumber := "nan"

/-- A number in program text: always positional, so that it reads as one numeral. -/
def source : FloatStyle where
  isPositional _ := true
  infinity := "Infinity.0"
  notANumber := "NaN.0"

/-- **The text of a floating-point number.** -/
def render (style : FloatStyle) (x : Binary64) : String :=
  match x, x.decimal? with
  | _, some d =>
    String.ofList (if style.isPositional d.leading then d.positional else d.scientific)
  | .infinite true, none => "-" ++ style.infinity
  | .infinite false, none => style.infinity
  | _, none => style.notANumber

end FloatStyle

end EntityLisp
