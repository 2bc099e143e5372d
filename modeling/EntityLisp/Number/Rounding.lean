/-!
# Rounding to fifty-three significant bits

The finite numbers of double precision are the whole multiples of one least unit, the 1074th
negative power of two, that have at most fifty-three significant bits and stay below the 2098th
power of two, counted in units. `IsDouble` says so of a count of units.

`roundUnits num den` is the count of at most fifty-three significant bits nearest to the exact
quotient `num / den`, a tie going to the even neighbour. It is exact on every count that already
has so few bits (`roundUnits_of_isShort`), and its result always does (`isShort_roundUnits`).
-/

namespace EntityLisp

-- powers of whole numbers are those of the core library, whatever else is in scope
attribute [local instance (high)] instPowNat

/-- At most fifty-three significant bits: the bits of `units` below the fifty-third from the top
are all zero. -/
def IsShort (units : Nat) : Prop := units % 2 ^ (units.log2 - 52) = 0

/-- **The magnitudes of double precision,** counted in least units. -/
def IsDouble (units : Nat) : Prop := units.log2 < 2098 ∧ IsShort units

instance (units : Nat) : Decidable (IsShort units) := inferInstanceAs (Decidable (_ = _))

instance (units : Nat) : Decidable (IsDouble units) := inferInstanceAs (Decidable (_ ∧ _))

/-- The whole number nearest to `num / den`, the even one of two equally near. -/
def roundQuotient (num den : Nat) : Nat :=
  let quotient := num / den
  let remainder := num % den
  if den < 2 * remainder ∨ (2 * remainder = den ∧ quotient % 2 = 1) then quotient + 1
  else quotient

/-- **Rounding to fifty-three significant bits.** The grid around `num / den` has the spacing
`2 ^ shift`, where `shift` is the number of bits of the quotient beyond fifty-three. -/
def roundUnits (num den : Nat) : Nat :=
  let shift := (num / den).log2 - 52
  roundQuotient num (den * 2 ^ shift) * 2 ^ shift

/-! ### The result has few bits -/

theorem roundQuotient_le (num den : Nat) : roundQuotient num den ≤ num / den + 1 := by
  unfold roundQuotient
  simp only
  split <;> omega

theorem isShort_zero : IsShort 0 := by simp [IsShort]

/-- A multiple of `2 ^ s` by at most `2 ^ 53` has at most fifty-three significant bits. -/
theorem isShort_mul_two_pow {m : Nat} (s : Nat) (hm : m ≤ 2 ^ (53 : Nat)) :
    IsShort (m * 2 ^ s) := by
  unfold IsShort
  rcases Nat.eq_zero_or_pos m with rfl | hpos
  · simp
  have hne : m * 2 ^ s ≠ 0 := Nat.mul_ne_zero (by omega) (Nat.ne_of_gt (Nat.two_pow_pos s))
  rcases Nat.lt_or_eq_of_le hm with hlt | rfl
  · -- the lowest set bit is at `s` or above, and the grid is no coarser than `2 ^ s`
    have hlog : (m * 2 ^ s).log2 < 53 + s := by
      rw [Nat.log2_lt hne, Nat.pow_add]
      exact Nat.mul_lt_mul_of_pos_right hlt (Nat.two_pow_pos s)
    have hdvd : 2 ^ ((m * 2 ^ s).log2 - 52) ∣ 2 ^ s := Nat.pow_dvd_pow 2 (by omega)
    exact Nat.mod_eq_zero_of_dvd (Nat.dvd_trans hdvd (Nat.dvd_mul_left _ _))
  · -- a carry: a single bit
    rw [← Nat.pow_add, Nat.log2_two_pow]
    exact Nat.mod_eq_zero_of_dvd (Nat.pow_dvd_pow 2 (by omega))

theorem quotient_le_grid (num den : Nat) :
    num / (den * 2 ^ ((num / den).log2 - 52)) < 2 ^ (53 : Nat) := by
  rw [← Nat.div_div_eq_div_mul, Nat.div_lt_iff_lt_mul (Nat.two_pow_pos _), ← Nat.pow_add]
  exact Nat.lt_of_lt_of_le Nat.lt_log2_self (Nat.pow_le_pow_right (by omega) (by omega))

/-- Rounding gives at most fifty-three significant bits. -/
theorem isShort_roundUnits (num den : Nat) : IsShort (roundUnits num den) := by
  refine isShort_mul_two_pow _ ?_
  have := roundQuotient_le num (den * 2 ^ ((num / den).log2 - 52))
  have := quotient_le_grid num den
  omega

/-! ### Exact results -/

/-- A quotient that comes out even is not changed by rounding. -/
theorem roundQuotient_mul (q : Nat) {den : Nat} (h : 0 < den) :
    roundQuotient (q * den) den = q := by
  have hq : q * den / den = q := Nat.mul_div_cancel q h
  have hr : q * den % den = 0 := Nat.mul_mod_left q den
  simp only [roundQuotient, hq, hr]
  have : ¬(den < 2 * 0 ∨ 2 * 0 = den ∧ q % 2 = 1) := by omega
  rw [if_neg this]

/-- A count of at most fifty-three significant bits is its own rounding, over any denominator. -/
theorem roundUnits_of_isShort {units den : Nat} (hden : 0 < den) (h : IsShort units) :
    roundUnits (units * den) den = units := by
  unfold roundUnits
  rw [Nat.mul_div_cancel units hden]
  obtain ⟨q, hq⟩ := Nat.dvd_of_mod_eq_zero h
  have hpos : 0 < 2 ^ (units.log2 - 52) := Nat.two_pow_pos _
  have hnum : units * den = q * (den * 2 ^ (units.log2 - 52)) := by
    calc units * den = 2 ^ (units.log2 - 52) * q * den := by rw [← hq]
      _ = q * (den * 2 ^ (units.log2 - 52)) := by
        rw [Nat.mul_comm (2 ^ _) q, Nat.mul_assoc, Nat.mul_comm (2 ^ _) den]
  simp only
  rw [hnum, roundQuotient_mul q (Nat.mul_pos hden hpos), Nat.mul_comm, ← hq]

end EntityLisp
