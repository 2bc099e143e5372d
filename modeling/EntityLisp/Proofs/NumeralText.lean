import EntityLisp.Form.Atom
import EntityLisp.Proofs.Rounding
import Mathlib.Data.List.TakeDrop

/-!
# Numerals in program text

The two patterns of numbers in program text, and what is read from them.

* `readInt?_eq_some_iff`, `readFloat?_eq_some_iff`: a text is read as a number exactly if it
  matches the pattern, and the pattern fixes the number.
* `excessDigits?_of_isWhole`: a text has too many digits if it matches the pattern of whole numbers
  with more than are read. No number is read that needs so many (`natAbs_lt_of_readInt?`).
* `exists_positional_eq`: the positional layout of a numeral matches the pattern with a point and
  denotes the number of the numeral; hence a finite number reads back from its program text
  (`readFloat?_source`).
-/

namespace EntityLisp

/-! ### Runs of digits -/

namespace Decimal

theorem isDigits_iff {text : List Char} :
    isDigits text = true ↔ text ≠ [] ∧ ∀ c ∈ text, c.isDigit = true := by
  simp [isDigits]

theorem isDigits_toDigits (n : Nat) : isDigits (Nat.toDigits 10 n) = true :=
  isDigits_iff.mpr ⟨Nat.toDigits_ne_nil, fun _ hc =>
    Nat.isDigit_of_mem_toDigits (by decide) (by decide) hc⟩

theorem ne_of_isDigit {c : Char} (h : c.isDigit = true) : c ≠ '-' ∧ c ≠ '.' := by
  constructor
  · rintro rfl
    exact absurd h (by decide)
  · rintro rfl
    exact absurd h (by decide)

theorem not_mem_of_isDigits {text : List Char} (h : isDigits text = true) :
    '-' ∉ text ∧ '.' ∉ text := by
  have hall := (isDigits_iff.mp h).2
  exact ⟨fun hc => (ne_of_isDigit (hall _ hc)).1 rfl, fun hc => (ne_of_isDigit (hall _ hc)).2 rfl⟩

/-! ### Signs -/

theorem takeSign_of_head_ne {text : List Char} (h : text.head? ≠ some '-') :
    takeSign text = (false, text) := by
  unfold takeSign
  split
  · simp at h
  · rfl

theorem head?_ne_of_isDigits {text rest : List Char} (h : isDigits text = true) :
    (text ++ rest).head? ≠ some '-' := by
  cases text with
  | nil => simp [isDigits] at h
  | cons c text =>
    intro hc
    obtain rfl : c = '-' := by simpa using hc
    exact (not_mem_of_isDigits h).1 (by simp)

/-- The sign in front of an unsigned numeral is taken off. -/
theorem takeSign_sign_append {negative : Bool} {text : List Char} (h : text.head? ≠ some '-') :
    takeSign ((if negative then ['-'] else []) ++ text) = (negative, text) := by
  cases negative with
  | true => rfl
  | false => exact takeSign_of_head_ne h

/-- A text is its sign and what follows. -/
theorem takeSign_eq (text : List Char) :
    text = (if (takeSign text).1 then ['-'] else []) ++ (takeSign text).2 := by
  unfold takeSign
  split <;> rfl

/-! ### The two patterns -/

/-- **The pattern of whole numbers:** an optional minus sign and one or more digits. -/
def IsWhole (text : List Char) (negative : Bool) (digits : List Char) : Prop :=
  isDigits digits = true ∧ text = (if negative then ['-'] else []) ++ digits

/-- **The pattern of numbers with a point:** an optional minus sign, and one or more digits before
and after the point. -/
def IsPointed (text : List Char) (negative : Bool) (whole fraction : List Char) : Prop :=
  isDigits whole = true ∧ isDigits fraction = true ∧
    text = (if negative then ['-'] else []) ++ (whole ++ '.' :: fraction)

theorem splitNumeral?_append {whole fraction : List Char} (hwhole : isDigits whole = true)
    (hfraction : isDigits fraction = true) :
    splitNumeral? (whole ++ '.' :: fraction) = some (whole, fraction) := by
  have hpoint : ∀ c ∈ whole, (decide (c ≠ '.')) = true := by
    intro c hc
    exact decide_eq_true (ne_of_isDigit ((isDigits_iff.mp hwhole).2 c hc)).2
  -- the first point of the text is the one behind the digits
  have hspan : (whole ++ '.' :: fraction).span (· ≠ '.') = (whole, '.' :: fraction) := by
    rw [List.span_eq_takeWhile_dropWhile, List.takeWhile_append_of_pos hpoint,
      List.dropWhile_append_of_pos hpoint]
    simp
  unfold splitNumeral?
  rw [hspan]
  simp [hwhole, hfraction]

theorem splitNumeral?_eq_some {text whole fraction : List Char}
    (h : splitNumeral? text = some (whole, fraction)) :
    isDigits whole = true ∧ isDigits fraction = true ∧ text = whole ++ '.' :: fraction := by
  unfold splitNumeral? at h
  rw [List.span_eq_takeWhile_dropWhile] at h
  have htext := List.takeWhile_append_dropWhile (p := fun c => decide (c ≠ '.')) (l := text)
  split at h
  · next before after heq =>
    simp only [Prod.mk.injEq] at heq
    rw [heq.1, heq.2] at htext
    split at h
    · next hdigits =>
      simp only [Option.some.injEq, Prod.mk.injEq] at h
      obtain ⟨rfl, rfl⟩ := h
      rw [Bool.and_eq_true] at hdigits
      exact ⟨hdigits.1, hdigits.2, htext.symm⟩
    · cases h
  · cases h

/-- A text with a point is read exactly if it matches the pattern, by its digits and the number of
digits behind the point. -/
theorem readPositional?_eq_some_iff {text : List Char} {d : Decimal} :
    readPositional? text = some d ↔ ∃ negative whole fraction,
      IsPointed text negative whole fraction ∧
        d = ⟨negative, Nat.ofDigitChars 10 (whole ++ fraction) 0, -(fraction.length : Int)⟩ := by
  constructor
  · intro h
    have htext := takeSign_eq text
    unfold readPositional? at h
    -- the sign and what follows it are all that is known of the text
    generalize takeSign text = signed at h htext
    obtain ⟨negative, unsigned⟩ := signed
    simp only [Option.map_eq_some_iff, Prod.exists] at h
    obtain ⟨whole, fraction, hsplit, rfl⟩ := h
    obtain ⟨hwhole, hfraction, hunsigned⟩ := splitNumeral?_eq_some hsplit
    exact ⟨negative, whole, fraction, ⟨hwhole, hfraction, by rw [← hunsigned]; exact htext⟩, rfl⟩
  · rintro ⟨negative, whole, fraction, ⟨hwhole, hfraction, rfl⟩, rfl⟩
    unfold readPositional?
    rw [takeSign_sign_append (head?_ne_of_isDigits hwhole)]
    simp only [splitNumeral?_append hwhole hfraction, Option.map_some]

end Decimal

open Decimal

/-- **A text is read as a whole number** exactly if it matches the pattern and has no more digits
than are read. -/
theorem readInt?_eq_some_iff {text : List Char} {n : Int} :
    readInt? text = some n ↔ ∃ negative digits, IsWhole text negative digits ∧
      digits.length ≤ digitLimit ∧ n = if negative then -(Nat.ofDigitChars 10 digits 0 : Int)
        else (Nat.ofDigitChars 10 digits 0 : Int) := by
  constructor
  · intro h
    have htext := takeSign_eq text
    unfold readInt? at h
    generalize takeSign text = signed at h htext
    obtain ⟨negative, digits⟩ := signed
    simp only at h
    split at h
    · next hdigits =>
      exact ⟨negative, digits, ⟨hdigits.1, htext⟩, hdigits.2, (Option.some.inj h).symm⟩
    · cases h
  · rintro ⟨negative, digits, ⟨hdigits, rfl⟩, hlength, rfl⟩
    -- unsigned digits cannot be taken for a sign
    have hhead : (digits ++ []).head? ≠ some '-' := head?_ne_of_isDigits hdigits
    rw [List.append_nil] at hhead
    unfold readInt?
    rw [takeSign_sign_append hhead]
    exact if_pos ⟨hdigits, hlength⟩

/-- **A text is read as a number with a point** exactly if it matches the pattern. -/
theorem readFloat?_eq_some_iff {text : List Char} {x : Binary64} :
    readFloat? text = some x ↔ ∃ negative whole fraction,
      IsPointed text negative whole fraction ∧ x = Binary64.ofDecimal
        ⟨negative, Nat.ofDigitChars 10 (whole ++ fraction) 0, -(fraction.length : Int)⟩ := by
  unfold readFloat?
  simp only [Option.map_eq_some_iff, readPositional?_eq_some_iff]
  constructor
  · rintro ⟨d, ⟨negative, whole, fraction, hpointed, rfl⟩, rfl⟩
    exact ⟨negative, whole, fraction, hpointed, rfl⟩
  · rintro ⟨negative, whole, fraction, hpointed, rfl⟩
    exact ⟨_, ⟨negative, whole, fraction, hpointed, rfl⟩, rfl⟩

/-- No whole number is read from a text that does not match the pattern. -/
theorem readInt?_eq_none {text : List Char} (h : ∀ negative digits, ¬IsWhole text negative digits) :
    readInt? text = none := by
  rw [Option.eq_none_iff_forall_ne_some]
  intro n hn
  obtain ⟨negative, digits, hwhole, -⟩ := readInt?_eq_some_iff.mp hn
  exact h negative digits hwhole

/-- A text with a point is no whole number. -/
theorem not_isWhole_of_mem {text : List Char} (h : '.' ∈ text) (negative : Bool)
    (digits : List Char) : ¬IsWhole text negative digits := by
  rintro ⟨hdigits, rfl⟩
  have hpoint := (not_mem_of_isDigits hdigits).2
  cases negative with
  | true => simp [hpoint] at h
  | false => simp [hpoint] at h

/-- **A text that matches the pattern has too many digits** if it has more than are read. -/
theorem excessDigits?_of_isWhole {text digits : List Char} {negative : Bool}
    (h : IsWhole text negative digits) :
    excessDigits? text = if digitLimit < digits.length then some digits.length else none := by
  obtain ⟨hdigits, rfl⟩ := h
  have hhead : (digits ++ []).head? ≠ some '-' := head?_ne_of_isDigits hdigits
  rw [List.append_nil] at hhead
  unfold excessDigits?
  rw [takeSign_sign_append hhead]
  simp only [hdigits, true_and]

theorem excessDigits?_eq_none_iff {text : List Char} :
    excessDigits? text = none ↔
      ∀ negative digits, IsWhole text negative digits → digits.length ≤ digitLimit := by
  constructor
  · intro h negative digits hwhole
    rw [excessDigits?_of_isWhole hwhole] at h
    by_contra hlong
    rw [if_pos (Nat.lt_of_not_le hlong)] at h
    cases h
  · intro h
    have hwhole := fun hdigits => h (takeSign text).1 (takeSign text).2 ⟨hdigits, takeSign_eq text⟩
    exact if_neg fun hlong => absurd (hwhole hlong.1) (Nat.not_le_of_lt hlong.2)

/-- A whole number that is read has not too many digits. -/
theorem excessDigits?_of_readInt? {text : List Char} {n : Int} (h : readInt? text = some n) :
    excessDigits? text = none := by
  obtain ⟨negative, digits, hwhole, hlength, -⟩ := readInt?_eq_some_iff.mp h
  rw [excessDigits?_of_isWhole hwhole, if_neg (Nat.not_lt_of_le hlength)]

/-- No text has too many digits that does not match the pattern of whole numbers. -/
theorem excessDigits?_eq_none {text : List Char}
    (h : ∀ negative digits, ¬IsWhole text negative digits) : excessDigits? text = none :=
  excessDigits?_eq_none_iff.mpr fun _ _ hwhole => absurd hwhole (h _ _)

/-! ### Whole numbers -/

/-- The decimal text of a whole number matches the pattern. -/
theorem isWhole_toString (n : Int) :
    IsWhole (toString n).toList (decide (n < 0)) (Nat.toDigits 10 n.natAbs) := by
  refine ⟨isDigits_toDigits _, ?_⟩
  cases n with
  | ofNat n =>
    have hsign : ¬ Int.ofNat n < 0 := Int.not_lt.mpr (Int.natCast_nonneg n)
    rw [decide_eq_false hsign]
    show (Nat.repr n).toList = _
    rw [Nat.toList_repr]
    rfl
  | negSucc n =>
    rw [decide_eq_true (Int.negSucc_lt_zero n)]
    show ("-" ++ Nat.repr (n + 1)).toList = _
    rw [String.toList_append, Nat.toList_repr]
    rfl

/-- What digits denote is less than the power of ten with as many zeros. -/
theorem ofDigitChars_lt {digits : List Char} (h : ∀ c ∈ digits, c.isDigit = true) :
    Nat.ofDigitChars 10 digits 0 < 10 ^ digits.length := by
  induction digits with
  | nil => decide
  | cons c rest ih =>
    have hc : c.isDigit = true := h c List.mem_cons_self
    simp only [Char.isDigit, Bool.and_eq_true, decide_eq_true_eq] at hc
    have hvalue : c.toNat - '0'.toNat ≤ 9 := by
      have hle : c.toNat ≤ 57 := hc.2
      have hzero : '0'.toNat = 48 := rfl
      omega
    have hrest := ih fun d hd => h d (List.mem_cons_of_mem _ hd)
    rw [Nat.ofDigitChars_cons, Nat.ofDigitChars_eq_ofDigitChars_zero, List.length_cons, pow_succ,
      Nat.mul_zero, Nat.zero_add]
    have hmul := Nat.mul_le_mul_left (10 ^ rest.length) hvalue
    omega

/-- The numbers with no more digits than are read. -/
theorem length_toDigits_le_iff (n : Nat) :
    (Nat.toDigits 10 n).length ≤ digitLimit ↔ n < 10 ^ digitLimit :=
  Nat.length_toDigits_le_iff (by decide) (by decide)

/-- The digits of a whole number and its sign denote it. -/
theorem signed_toDigits (n : Int) :
    (if decide (n < 0) then -(Nat.ofDigitChars 10 (Nat.toDigits 10 n.natAbs) 0 : Int)
      else (Nat.ofDigitChars 10 (Nat.toDigits 10 n.natAbs) 0 : Int)) = n := by
  rw [Nat.ofDigitChars_ten_toDigits]
  by_cases h : n < 0
  · simp only [h, decide_true, ↓reduceIte]
    omega
  · simp only [h, decide_false, Bool.false_eq_true, ↓reduceIte]
    omega

/-- No number is read that has more digits than are read. -/
theorem natAbs_lt_of_readInt? {text : List Char} {n : Int} (h : readInt? text = some n) :
    n.natAbs < 10 ^ digitLimit := by
  obtain ⟨negative, digits, ⟨hdigits, -⟩, hlength, rfl⟩ := readInt?_eq_some_iff.mp h
  have hvalue := ofDigitChars_lt (isDigits_iff.mp hdigits).2
  have hpow : 10 ^ digits.length ≤ 10 ^ digitLimit := Nat.pow_le_pow_right (by decide) hlength
  cases negative with
  | true =>
    simp only [↓reduceIte, Int.natAbs_neg, Int.natAbs_natCast]
    exact Nat.lt_of_lt_of_le hvalue hpow
  | false =>
    simp only [Bool.false_eq_true, ↓reduceIte, Int.natAbs_natCast]
    exact Nat.lt_of_lt_of_le hvalue hpow

/-! ### Numbers with a point -/

theorem Decimal.isDigits_append_zeros {digits : List Char} (h : isDigits digits = true)
    (zeros : Nat) : isDigits (digits ++ List.replicate zeros '0') = true := by
  obtain ⟨hne, hall⟩ := isDigits_iff.mp h
  refine isDigits_iff.mpr ⟨by simp [hne], fun c hc => ?_⟩
  rcases List.mem_append.mp hc with hc | hc
  · exact hall c hc
  · rw [List.eq_of_mem_replicate hc]
    decide

theorem Decimal.isDigits_take {digits : List Char} (h : isDigits digits = true) {count : Nat}
    (hpos : 0 < count) : isDigits (digits.take count) = true := by
  obtain ⟨hne, hall⟩ := isDigits_iff.mp h
  refine isDigits_iff.mpr ⟨?_, fun c hc => hall c (List.mem_of_mem_take hc)⟩
  rw [Ne, List.take_eq_nil_iff]
  exact not_or.mpr ⟨by omega, hne⟩

/-- Zeros in front of digits do not count. -/
theorem Decimal.ofDigitChars_zeros_append (zeros : Nat) (digits : List Char) :
    Nat.ofDigitChars 10 (List.replicate zeros '0' ++ digits) 0 = Nat.ofDigitChars 10 digits 0 := by
  rw [Nat.ofDigitChars_append, Nat.ofDigitChars_replicate_zero, Nat.mul_zero]

/-- The digits around the point hold the coefficient, shifted by its exponent. -/
theorem Decimal.aroundPoint_spec {digits whole fraction : List Char} {exponent : Int}
    (hdigits : isDigits digits = true) (h : aroundPoint digits exponent = (whole, fraction)) :
    isDigits whole = true ∧ (∀ c ∈ fraction, c.isDigit = true) ∧
      (Nat.ofDigitChars 10 (whole ++ fraction) 0 : ℚ) * 10 ^ (-(fraction.length : ℤ)) =
        Nat.ofDigitChars 10 digits 0 * 10 ^ exponent := by
  -- zeros behind the digits, zeros in front of them, or the point between two of them
  have hall := (isDigits_iff.mp hdigits).2
  cases exponent with
  | ofNat zeros =>
    obtain ⟨rfl, rfl⟩ : digits ++ List.replicate zeros '0' = whole ∧ [] = fraction := by
      simpa [aroundPoint] using h
    refine ⟨isDigits_append_zeros hdigits zeros, by simp, ?_⟩
    rw [List.append_nil, Nat.ofDigitChars_append, Nat.ofDigitChars_replicate_zero]
    push_cast
    simp only [List.length_nil, Int.ofNat_eq_natCast, zpow_natCast]
    simp [mul_comm]
  | negSucc k =>
    unfold aroundPoint at h
    simp only at h
    split at h
    · next hle =>
      obtain ⟨rfl, rfl⟩ := Prod.mk.inj h
      refine ⟨by decide, fun c hc => ?_, ?_⟩
      · rcases List.mem_append.mp hc with hc | hc
        · rw [List.eq_of_mem_replicate hc]
          decide
        · exact hall c hc
      · have hlength : (List.replicate (k + 1 - digits.length) '0' ++ digits).length = k + 1 := by
          rw [List.length_append, List.length_replicate]
          omega
        rw [hlength, ← List.append_assoc, List.singleton_append, ← List.replicate_succ,
          ofDigitChars_zeros_append]
        rfl
    · next hgt =>
      obtain ⟨rfl, rfl⟩ := Prod.mk.inj h
      refine ⟨isDigits_take hdigits (by omega), fun c hc => hall c (List.mem_of_mem_drop hc), ?_⟩
      have hlength : (digits.drop (digits.length - (k + 1))).length = k + 1 := by
        rw [List.length_drop]
        omega
      rw [List.take_append_drop, hlength]
      rfl

/-- **The positional layout** matches the pattern with a point, and the digits it writes denote
the number of the numeral. -/
theorem Decimal.exists_positional_eq (d : Decimal) : ∃ whole fraction,
    IsPointed d.positional d.negative whole fraction ∧
      magnitude ⟨d.negative, Nat.ofDigitChars 10 (whole ++ fraction) 0,
        -(fraction.length : Int)⟩ = d.magnitude := by
  have hdigits := isDigits_toDigits d.coefficient
  obtain ⟨hwhole, hfraction, hvalue⟩ := aroundPoint_spec hdigits (rfl :
    aroundPoint (Nat.toDigits 10 d.coefficient) d.exponent = (_, _))
  rw [Nat.ofDigitChars_ten_toDigits] at hvalue
  have hpositional : d.positional = d.sign ++
      ((aroundPoint d.digits d.exponent).1 ++ '.' ::
        (if (aroundPoint d.digits d.exponent).2.isEmpty then ['0']
          else (aroundPoint d.digits d.exponent).2)) := by
    simp [positional]
  rw [hpositional]
  change isDigits (aroundPoint d.digits d.exponent).1 = true at hwhole
  change ∀ c ∈ (aroundPoint d.digits d.exponent).2, _ at hfraction
  change (Nat.ofDigitChars 10 ((aroundPoint d.digits d.exponent).1 ++
    (aroundPoint d.digits d.exponent).2) 0 : ℚ) *
      10 ^ (-((aroundPoint d.digits d.exponent).2.length : ℤ)) = d.magnitude at hvalue
  -- from here on only the pattern of the two sides and their value matter
  generalize (aroundPoint d.digits d.exponent).1 = whole at *
  generalize (aroundPoint d.digits d.exponent).2 = fraction at *
  -- a layout without digits behind the point has a zero written there
  cases fraction with
  | nil =>
    refine ⟨whole, ['0'], ⟨hwhole, by decide, rfl⟩, ?_⟩
    rw [← hvalue, List.append_nil]
    unfold magnitude
    simp only [Nat.ofDigitChars_append]
    rw [show (['0'] : List Char) = List.replicate 1 '0' from rfl,
      Nat.ofDigitChars_replicate_zero]
    push_cast
    simp
    ring
  | cons c fraction =>
    refine ⟨whole, c :: fraction, ⟨hwhole, isDigits_iff.mpr ⟨by simp, hfraction⟩, rfl⟩, ?_⟩
    rw [← hvalue]
    rfl

/-- **A numeral reads back** from its positional layout as the number it denotes. -/
theorem readFloat?_positional (d : Decimal) :
    readFloat? d.positional = some (Binary64.ofDecimal d) := by
  obtain ⟨whole, fraction, hpointed, hvalue⟩ := exists_positional_eq d
  have hread : Binary64.ofDecimal ⟨d.negative, Nat.ofDigitChars 10 (whole ++ fraction) 0,
      -(fraction.length : Int)⟩ = Binary64.ofDecimal d := Binary64.ofDecimal_congr rfl hvalue
  exact readFloat?_eq_some_iff.mpr ⟨d.negative, whole, fraction, hpointed, hread.symm⟩

/-! ### The program text of a number -/

/-- A finite number has a numeral. -/
theorem exists_decimal? (negative : Bool) (units : Nat) (h : IsDouble units) :
    ∃ d, (Binary64.finite negative units h).decimal? = some d := by
  unfold Binary64.decimal?
  split
  · exact ⟨_, rfl⟩
  · exact ⟨_, rfl⟩
  · next hzero hfinite => exact absurd rfl (hfinite negative units h)

/-- A finite number has a numeral, whose positional layout is its program text. -/
theorem exists_render_source (negative : Bool) (units : Nat) (h : IsDouble units) :
    ∃ d, Binary64.ofDecimal d = .finite negative units h ∧
      FloatStyle.source.render (.finite negative units h) = String.ofList d.positional := by
  obtain ⟨d, hd⟩ := exists_decimal? negative units h
  refine ⟨d, Binary64.ofDecimal_of_decimal? hd, ?_⟩
  unfold FloatStyle.render
  rw [hd]
  rfl

/-- **A finite number reads back** from its program text. -/
theorem readFloat?_source (negative : Bool) (units : Nat) (h : IsDouble units) :
    readFloat? (FloatStyle.source.render (.finite negative units h)).toList =
      some (.finite negative units h) := by
  obtain ⟨d, hd, htext⟩ := exists_render_source negative units h
  rw [htext, String.toList_ofList, readFloat?_positional, hd]

end EntityLisp
