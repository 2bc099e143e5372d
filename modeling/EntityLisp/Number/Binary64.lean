import EntityLisp.Number.Rounding

/-!
# Floating-point numbers of double precision

`Binary64` holds the signed zeros, the finite numbers, the two infinities and the NaNs. A finite
number is its sign and its magnitude as a count of least units (`EntityLisp.Number.Rounding`),
with a proof that the count is one of double precision, so every value of the type is a number
that the format has. A NaN carries a mark, which tells it from the NaNs made elsewhere.

Sums, differences and products are exact integers of units, rounded once, and zeros and
infinities follow the usual rules of signs. Comparison is by value: the two zeros are equal, and
a whole number of any size is compared without being rounded. A NaN has no value in common with
any number but a NaN of the same mark.
-/

namespace EntityLisp

-- powers of whole numbers are those of the core library, whatever else is in scope
attribute [local instance (high)] instPowNat

/-- **A floating-point number of double precision.** -/
inductive Binary64 where
  /-- The number of magnitude `units` least units, negative if `negative`. -/
  | finite (negative : Bool) (units : Nat) (isDouble : IsDouble units)
  | infinite (negative : Bool)
  | nan (mark : Nat)
  deriving DecidableEq

namespace Binary64

/-- How many binary places lie between one and the least unit. -/
def fractionBits : Nat := 1074

/-- How many least units make one. -/
def unitsPerOne : Nat := 2 ^ fractionBits

/-! ### Rounding -/

/-- The number of the given sign nearest to `num / den` least units; an infinity if rounding
leaves the range. -/
def ofUnits (negative : Bool) (num den : Nat) : Binary64 :=
  let units := roundUnits num den
  if h : units.log2 < 2098 then .finite negative units ⟨h, isShort_roundUnits num den⟩
  else .infinite negative

/-- A magnitude of the format is its own rounding. -/
theorem ofUnits_of_isDouble (negative : Bool) {units den : Nat} (hden : 0 < den)
    (h : IsDouble units) : ofUnits negative (units * den) den = .finite negative units h := by
  simp only [ofUnits, roundUnits_of_isShort hden h.2, h.1, ↓reduceDIte]

/-- The NaN that an operation makes. -/
def invalid : Binary64 := .nan 0

/-- The zero of the given sign. -/
def zero (negative : Bool) : Binary64 := .finite negative 0 (by decide)

/-- The nearest number to `(-1) ^ negative * coefficient * 10 ^ exponent`. -/
def ofScaled (negative : Bool) (coefficient : Nat) (exponent : Int) : Binary64 :=
  match exponent with
  | .ofNat e => ofUnits negative (unitsPerOne * (coefficient * 10 ^ e)) 1
  | .negSucc e => ofUnits negative (unitsPerOne * coefficient) (10 ^ (e + 1))

theorem ofScaled_neg (negative : Bool) (coefficient : Nat) {places : Nat} (h : 0 < places) :
    ofScaled negative coefficient (-(places : Int)) =
      ofUnits negative (unitsPerOne * coefficient) (10 ^ places) := by
  cases places with
  | zero => omega
  | succ n => rfl

/-- The nearest number to a whole number, or `none` if it lies beyond the finite numbers. -/
def ofInt? (n : Int) : Option Binary64 :=
  match ofUnits (n < 0) (unitsPerOne * n.natAbs) 1 with
  | .infinite _ => none
  | x => some x

/-! ### Signs -/

/-- A magnitude with its sign, as a whole number of units. -/
def signed (negative : Bool) (units : Nat) : Int := if negative then -(units : Int) else units

/-- The number with its sign turned. -/
def neg : Binary64 → Binary64
  | .finite negative units h => .finite (!negative) units h
  | .infinite negative => .infinite !negative
  | .nan mark => .nan mark

theorem neg_neg (x : Binary64) : x.neg.neg = x := by
  cases x <;> simp [neg]

/-! ### Arithmetic -/

/-- **The rounded sum.** A sum that is exactly zero is negative only if both operands are. -/
def add : Binary64 → Binary64 → Binary64
  | .nan _, _ => invalid
  | _, .nan _ => invalid
  | .infinite a, .infinite b => if a = b then .infinite a else invalid
  | .infinite a, .finite .. => .infinite a
  | .finite .., .infinite b => .infinite b
  | .finite a u _, .finite b v _ =>
    let total := signed a u + signed b v
    if total = 0 then zero (a && b) else ofUnits (total < 0) total.natAbs 1

/-- **The rounded difference.** -/
def sub (x y : Binary64) : Binary64 := x.add y.neg

/-- **The rounded product,** negative if exactly one operand is; an infinity times zero is NaN. -/
def mul : Binary64 → Binary64 → Binary64
  | .nan _, _ => invalid
  | _, .nan _ => invalid
  | .infinite a, .infinite b => .infinite (a != b)
  | .infinite a, .finite b v _ => if v = 0 then invalid else .infinite (a != b)
  | .finite a u _, .infinite b => if u = 0 then invalid else .infinite (a != b)
  | .finite a u _, .finite b v _ => ofUnits (a != b) (u * v) unitsPerOne

/-! ### Comparison by value -/

/-- Whether two numbers have the same value. -/
def sameValue : Binary64 → Binary64 → Bool
  | .finite a u _, .finite b v _ => signed a u == signed b v
  | .infinite a, .infinite b => a == b
  | .nan a, .nan b => a == b
  | _, _ => false

/-- Whether the number has the value of the whole number `n`. -/
def isWhole (x : Binary64) (n : Int) : Bool :=
  match x with
  | .finite negative units _ => signed negative units == unitsPerOne * n
  | _ => false

theorem sameValue_comm : (x y : Binary64) → x.sameValue y = y.sameValue x
  | .finite .., .finite .. => Bool.beq_comm
  | .infinite _, .infinite _ => Bool.beq_comm
  | .finite .., .infinite _ | .infinite _, .finite .. => rfl
  | .nan _, .nan _ => Bool.beq_comm
  | .nan _, .finite .. | .nan _, .infinite _ => rfl
  | .finite .., .nan _ | .infinite _, .nan _ => rfl

/-- A number has its own value. -/
theorem sameValue_self (x : Binary64) : x.sameValue x = true := by
  cases x <;> simp [sameValue]

end Binary64

end EntityLisp
