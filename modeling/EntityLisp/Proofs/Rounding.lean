import EntityLisp.Number.Shortest
import Mathlib.Algebra.Order.Field.Basic
import Mathlib.Algebra.Order.Ring.Unbundled.Rat
import Mathlib.Tactic.NormNum
import Mathlib.Tactic.FieldSimp
import Mathlib.Tactic.Positivity
import Mathlib.Tactic.Ring

/-!
# What rounding depends on

Rounding a quotient of least units depends on the quotient alone (`ofUnits_congr`), so a numeral
is rounded by the number it denotes: two numerals of the same sign and magnitude read as the same
floating-point number (`ofDecimal_congr`).

Rounding leaves the finite range at one threshold, `Binary64.overflow`: the tie between the
largest magnitude of double precision and the next power of two, which is rounded up
(`ofUnits_eq_infinite_iff`).  It says which whole numbers are too large (`ofInt?_eq_none_iff`) and
which numerals read as an infinity (`ofDecimal_eq_infinite_iff`).
-/

namespace EntityLisp

/-! ### Scaling -/

theorem roundQuotient_scale (num den : Nat) {k : Nat} (hk : 0 < k) :
    roundQuotient (num * k) (den * k) = roundQuotient num den := by
  unfold roundQuotient
  rw [Nat.mul_div_mul_right _ _ hk, Nat.mul_mod_mul_right]
  -- the two tests of the tie compare products with `k` on both sides
  have hlt : den * k < 2 * (num % den * k) ↔ den < 2 * (num % den) := by
    rw [← Nat.mul_assoc]
    exact Nat.mul_lt_mul_right hk
  have heq : 2 * (num % den * k) = den * k ↔ 2 * (num % den) = den := by
    rw [← Nat.mul_assoc]
    exact Nat.mul_left_inj (Nat.ne_of_gt hk)
  simp only [hlt, heq]

theorem roundUnits_scale (num den : Nat) {k : Nat} (hk : 0 < k) :
    roundUnits (num * k) (den * k) = roundUnits num den := by
  unfold roundUnits
  rw [Nat.mul_div_mul_right _ _ hk]
  simp only
  rw [show den * k * 2 ^ ((num / den).log2 - 52) = den * 2 ^ ((num / den).log2 - 52) * k by ring,
    roundQuotient_scale _ _ hk]

/-- Equal quotients of least units are rounded to the same number. -/
theorem Binary64.ofUnits_congr (negative : Bool) {num den num' den' : Nat} (hden : 0 < den)
    (hden' : 0 < den') (h : num * den' = num' * den) :
    ofUnits negative num den = ofUnits negative num' den' := by
  have hround : roundUnits num den = roundUnits num' den' := by
    rw [← roundUnits_scale num den hden', ← roundUnits_scale num' den' hden, h,
      Nat.mul_comm den den']
  simp only [ofUnits, hround]

/-! ### The number that a numeral denotes -/

/-- The absolute value of the number that a numeral denotes. -/
def Decimal.magnitude (d : Decimal) : ℚ := d.coefficient * (10 : ℚ) ^ d.exponent

/-- A numeral as a quotient of least units. -/
theorem Binary64.exists_ofDecimal_eq_ofUnits (d : Decimal) :
    ∃ num den : Nat, 0 < den ∧ ofDecimal d = ofUnits d.negative num den ∧
      (num : ℚ) = d.magnitude * unitsPerOne * den := by
  obtain ⟨negative, coefficient, exponent⟩ := d
  cases exponent with
  | ofNat e =>
    refine ⟨unitsPerOne * (coefficient * 10 ^ e), 1, Nat.one_pos, rfl, ?_⟩
    simp only [Decimal.magnitude, Int.ofNat_eq_natCast, zpow_natCast]
    generalize unitsPerOne = units
    push_cast
    ring
  | negSucc e =>
    refine ⟨unitsPerOne * coefficient, 10 ^ (e + 1), Nat.pow_pos (by omega), rfl, ?_⟩
    simp only [Decimal.magnitude, zpow_negSucc]
    generalize unitsPerOne = units
    push_cast
    field_simp

/-- **A numeral is read by the number it denotes,** in whatever layout and with whatever zeros
that number is written. -/
theorem Binary64.ofDecimal_congr {d d' : Decimal} (hsign : d.negative = d'.negative)
    (h : d.magnitude = d'.magnitude) : ofDecimal d = ofDecimal d' := by
  obtain ⟨num, den, hden, hd, hnum⟩ := exists_ofDecimal_eq_ofUnits d
  obtain ⟨num', den', hden', hd', hnum'⟩ := exists_ofDecimal_eq_ofUnits d'
  rw [hd, hd', ← hsign]
  apply ofUnits_congr _ hden hden'
  have : (num * den' : ℚ) = num' * den := by
    rw [hnum, hnum', h]
    ring
  exact_mod_cast this

/-! ### The end of the finite range -/

/-- **The threshold of the finite range,** half way from the largest magnitude of double precision
to the next power of two: the difference of the 1024th and the 970th power of two. -/
def Binary64.overflow : Nat := (2 ^ 54 - 1) * 2 ^ 970

/-- A quotient rounds to an even whole number or above if it reaches the tie below it. -/
theorem even_le_roundQuotient_iff {num den k : Nat} (hden : 0 < den) (hk : k % 2 = 0)
    (hpos : 0 < k) : k ≤ roundQuotient num den ↔ (2 * k - 1) * den ≤ 2 * num := by
  have hsplit : den * (num / den) + num % den = num := Nat.div_add_mod num den
  have hlt : num % den < den := Nat.mod_lt _ hden
  unfold roundQuotient
  simp only
  generalize num / den = q at *
  generalize num % den = r at *
  -- `q` is the quotient rounded down, so only `k = q + 1` depends on the tie
  rcases Nat.lt_trichotomy k (q + 1) with hkq | rfl | hkq
  · -- the quotient is there without rounding
    have hle : (2 * k - 1) * den ≤ 2 * q * den := Nat.mul_le_mul_right _ (by omega)
    have : 2 * q * den = 2 * (den * q) := by ring
    constructor
    · intro _
      omega
    · intro _
      split <;> omega
  · have : (2 * (q + 1) - 1) * den = 2 * (den * q) + den := by
      rw [show 2 * (q + 1) - 1 = 2 * q + 1 by omega]
      ring
    rw [this]
    split <;> omega
  · -- even rounded up, the quotient stays below
    have hle : (2 * q + 3) * den ≤ (2 * k - 1) * den := Nat.mul_le_mul_right _ (by omega)
    have : (2 * q + 3) * den = 2 * (den * q) + 3 * den := by ring
    constructor
    · intro h
      split at h <;> omega
    · intro h
      omega

theorem roundQuotient_ge (num den : Nat) : num / den ≤ roundQuotient num den := by
  unfold roundQuotient
  simp only
  split <;> omega

theorem roundUnits_le_of_log2_lt {s num den : Nat} (h : (num / den).log2 < s + 53) :
    roundUnits num den ≤ 2 ^ 53 * 2 ^ s := by
  have hq := roundQuotient_le num (den * 2 ^ ((num / den).log2 - 52))
  have hgrid := quotient_le_grid num den
  have hspacing : 2 ^ ((num / den).log2 - 52) ≤ 2 ^ s :=
    Nat.pow_le_pow_right (by decide) (by omega)
  exact Nat.mul_le_mul (Nat.le_trans hq hgrid) hspacing

theorem two_pow_log2_le_roundUnits {num den : Nat} (h : 52 ≤ (num / den).log2) :
    2 ^ (num / den).log2 ≤ roundUnits num den := by
  have hne : num / den ≠ 0 := by
    intro h0
    rw [h0] at h
    simp at h
  have hlog : 52 + ((num / den).log2 - 52) = (num / den).log2 := by omega
  have hq : 2 ^ 52 ≤ roundQuotient num (den * 2 ^ ((num / den).log2 - 52)) := by
    refine Nat.le_trans ?_ (roundQuotient_ge _ _)
    rw [← Nat.div_div_eq_div_mul, Nat.le_div_iff_mul_le (Nat.two_pow_pos _), ← Nat.pow_add, hlog]
    exact Nat.log2_self_le hne
  -- rounding down keeps the leading bit, and rounding up can only add to it
  calc 2 ^ (num / den).log2 = 2 ^ 52 * 2 ^ ((num / den).log2 - 52) := by rw [← Nat.pow_add, hlog]
    _ ≤ roundUnits num den := Nat.mul_le_mul_right _ hq

/-- In the last binade below `2 ^ 54 * 2 ^ s` the grid has the spacing `2 * 2 ^ s`, and rounding
reaches the end of the binade exactly from the tie below it on. -/
theorem le_roundUnits_iff_of_log2_eq {s num den : Nat} (hden : 0 < den)
    (h : (num / den).log2 = s + 53) :
    2 ^ 54 * 2 ^ s ≤ roundUnits num den ↔ (2 ^ 54 - 1) * 2 ^ s * den ≤ num := by
  have hshift : (num / den).log2 - 52 = s + 1 := by omega
  have hround : roundUnits num den =
      roundQuotient num (den * 2 ^ (s + 1)) * 2 ^ (s + 1) := by
    rw [roundUnits]
    simp only [hshift]
  have hgrid : 0 < den * 2 ^ (s + 1) := Nat.mul_pos hden (Nat.two_pow_pos _)
  have hend : 2 ^ 54 * 2 ^ s = 2 ^ 53 * 2 ^ (s + 1) := by
    rw [Nat.pow_succ 2 s]
    ring
  have htie : (2 * 2 ^ 53 - 1) * (den * 2 ^ (s + 1)) = 2 * ((2 ^ 54 - 1) * 2 ^ s * den) := by
    rw [Nat.pow_succ 2 s]
    ring
  calc 2 ^ 54 * 2 ^ s ≤ roundUnits num den
      ↔ 2 ^ 53 * 2 ^ (s + 1) ≤ roundQuotient num (den * 2 ^ (s + 1)) * 2 ^ (s + 1) := by
        rw [hend, hround]
    _ ↔ 2 ^ 53 ≤ roundQuotient num (den * 2 ^ (s + 1)) :=
        Nat.mul_le_mul_right_iff (Nat.two_pow_pos (s + 1))
    _ ↔ (2 * 2 ^ 53 - 1) * (den * 2 ^ (s + 1)) ≤ 2 * num :=
        even_le_roundQuotient_iff hgrid (by decide) (by decide)
    _ ↔ (2 ^ 54 - 1) * 2 ^ s * den ≤ num := by
        rw [htie]
        exact Nat.mul_le_mul_left_iff (by decide)

/-- Rounding reaches a power of two exactly from the tie below it on. -/
theorem le_roundUnits_iff (s num : Nat) {den : Nat} (hden : 0 < den) :
    2 ^ 54 * 2 ^ s ≤ roundUnits num den ↔ (2 ^ 54 - 1) * 2 ^ s * den ≤ num := by
  -- the spacing of the grid is known in one binade only; the others are decided by size
  rcases Nat.lt_trichotomy (num / den).log2 (s + 53) with hlog | hlog | hlog
  · -- below the last binade: neither side holds
    have hround : roundUnits num den < 2 ^ 54 * 2 ^ s :=
      Nat.lt_of_le_of_lt (roundUnits_le_of_log2_lt hlog)
        (Nat.mul_lt_mul_of_pos_right (by decide) (Nat.two_pow_pos s))
    have hquotient : num / den < 2 ^ 53 * 2 ^ s := by
      rw [Nat.mul_comm, ← Nat.pow_add]
      exact Nat.lt_of_lt_of_le Nat.lt_log2_self (Nat.pow_le_pow_right (by decide) (by omega))
    have hnum : num < (2 ^ 54 - 1) * 2 ^ s * den :=
      Nat.lt_of_lt_of_le ((Nat.div_lt_iff_lt_mul hden).mp hquotient)
        (Nat.mul_le_mul_right _ (Nat.mul_le_mul_right _ (by decide)))
    exact iff_of_false (Nat.not_le.mpr hround) (Nat.not_le.mpr hnum)
  · exact le_roundUnits_iff_of_log2_eq hden hlog
  · -- beyond it: both sides hold
    have hpow : 2 ^ 54 * 2 ^ s ≤ 2 ^ (num / den).log2 := by
      rw [Nat.mul_comm, ← Nat.pow_add]
      exact Nat.pow_le_pow_right (by decide) (by omega)
    have hne : num / den ≠ 0 := by
      intro h0
      rw [h0] at hlog
      simp at hlog
    have hquotient : 2 ^ 54 * 2 ^ s * den ≤ num :=
      (Nat.le_div_iff_mul_le hden).mp (Nat.le_trans hpow (Nat.log2_self_le hne))
    have hround : 2 ^ 54 * 2 ^ s ≤ roundUnits num den :=
      Nat.le_trans hpow (two_pow_log2_le_roundUnits (by omega))
    have hnum : (2 ^ 54 - 1) * 2 ^ s * den ≤ num :=
      Nat.le_trans (Nat.mul_le_mul_right _ (Nat.mul_le_mul_right _ (by decide))) hquotient
    exact iff_of_true hround hnum

namespace Binary64

theorem unitsPerOne_pos : 0 < unitsPerOne := Nat.two_pow_pos fractionBits

/-- The threshold as a count of least units. -/
theorem overflow_mul_unitsPerOne :
    overflow * unitsPerOne = (2 ^ 54 - 1) * 2 ^ (970 + fractionBits) := by
  rw [overflow, unitsPerOne, Nat.mul_assoc, ← Nat.pow_add]

/-- **Rounding gives an infinity exactly from the threshold on.** -/
theorem ofUnits_eq_infinite_iff (negative : Bool) (num : Nat) {den : Nat} (hden : 0 < den) :
    ofUnits negative num den = .infinite negative ↔ overflow * unitsPerOne * den ≤ num := by
  rw [overflow_mul_unitsPerOne, ← le_roundUnits_iff _ num hden, ← Nat.pow_add]
  -- a count of units is finite exactly if it has at most 2098 bits
  have hbits : 54 + (970 + fractionBits) = 2098 := rfl
  unfold ofUnits
  simp only
  split
  · next h =>
    refine iff_of_false (by simp) fun hle => ?_
    have hne : roundUnits num den ≠ 0 :=
      Nat.ne_of_gt (Nat.lt_of_lt_of_le (Nat.two_pow_pos _) hle)
    have := (Nat.le_log2 hne).mpr hle
    omega
  · next h =>
    have hne : roundUnits num den ≠ 0 := by
      intro h0
      rw [h0] at h
      exact h (by decide)
    exact iff_of_true rfl ((Nat.le_log2 hne).mp (by omega))

/-- Rounding gives a finite number or the infinity of the same sign. -/
theorem ofUnits_cases (negative : Bool) (num den : Nat) :
    (∃ units h, ofUnits negative num den = .finite negative units h) ∨
      ofUnits negative num den = .infinite negative := by
  unfold ofUnits
  simp only
  split
  · next h => exact Or.inl ⟨_, ⟨h, isShort_roundUnits num den⟩, rfl⟩
  · exact Or.inr rfl

/-- **A whole number is too large for a floating-point number** exactly if its magnitude reaches
the threshold. -/
theorem ofInt?_eq_none_iff (n : Int) : ofInt? n = none ↔ overflow ≤ n.natAbs := by
  have hiff := ofUnits_eq_infinite_iff (n < 0) (unitsPerOne * n.natAbs) Nat.one_pos
  rw [Nat.mul_one, Nat.mul_comm overflow, Nat.mul_le_mul_left_iff unitsPerOne_pos] at hiff
  rw [← hiff]
  unfold ofInt?
  rcases ofUnits_cases (n < 0) (unitsPerOne * n.natAbs) 1 with ⟨units, h, heq⟩ | heq
  · rw [heq]
    simp
  · rw [heq]
    simp

/-- **A numeral reads as an infinity** exactly if the magnitude of the number it denotes reaches
the threshold. -/
theorem ofDecimal_eq_infinite_iff (d : Decimal) :
    ofDecimal d = .infinite d.negative ↔ (overflow : ℚ) ≤ d.magnitude := by
  obtain ⟨num, den, hden, hd, hnum⟩ := exists_ofDecimal_eq_ofUnits d
  have hunits : (0 : ℚ) < unitsPerOne := by exact_mod_cast unitsPerOne_pos
  have hden' : (0 : ℚ) < den := by exact_mod_cast hden
  rw [hd, ofUnits_eq_infinite_iff _ _ hden, ← Nat.cast_le (α := ℚ), hnum, Nat.cast_mul,
    Nat.cast_mul, mul_assoc, mul_assoc]
  exact mul_le_mul_iff_left₀ (mul_pos hunits hden')

end Binary64

end EntityLisp
