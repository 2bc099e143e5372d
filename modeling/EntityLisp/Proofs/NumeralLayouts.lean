import EntityLisp.Proofs.ReadBack

/-!
# The two layouts of a numeral

A number is displayed in one of two layouts and written into program text in one of them alone. The
text for a program is made from the displayed one: the numeral that is displayed is read, and its
digits are laid out again around the point.

`Decimal.denoted?` is the decimal number that a text of either layout denotes, by its sign and its
magnitude.

* `Decimal.read?_scientific`, `Decimal.denoted?_positional`: both layouts of a numeral are read as
  the number that it denotes.
* `exists_render_display`: the program text of a finite number is the positional layout of the
  numeral that its displayed text is read as.
* `positional_text`: **laying digits out around the point keeps the number,** for every numeral with
  any number of digits and any exponent, and so for every finite number.
-/

namespace EntityLisp

namespace Decimal

variable {negative : Bool} {text significand whole fraction digits : List Char}
  {coefficient places : Nat} {exponent : Int}

/-! ### Reading the parts of a numeral -/

/-- A sign that is written is taken off, and nothing else is taken for one. -/
theorem takeEitherSign_sign_append (negative : Bool) (hminus : text.head? ≠ some '-')
    (hplus : text.head? ≠ some '+') :
    takeEitherSign ((if negative then ['-'] else []) ++ text) = (negative, text) := by
  have hsign : takeSign ((if negative then ['-'] else []) ++ text) = (negative, text) :=
    takeSign_sign_append hminus
  cases negative with
  | true => exact hsign
  | false =>
    change takeEitherSign text = _
    unfold takeEitherSign
    split
    · simp at hplus
    · exact hsign

theorem isDigits_append (hwhole : isDigits whole = true)
    (hfraction : ∀ c ∈ fraction, c.isDigit = true) : isDigits (whole ++ fraction) = true := by
  obtain ⟨hne, hall⟩ := isDigits_iff.mp hwhole
  refine isDigits_iff.mpr ⟨by simp [hne], fun c hc => ?_⟩
  rcases List.mem_append.mp hc with hc | hc
  · exact hall c hc
  · exact hfraction c hc

/-- A text is cut at the first character that fails a test. -/
theorem span_append {p : Char → Bool} (hbefore : ∀ c ∈ text, p c = true) (mark : List Char)
    (hbehind : ∀ c, mark.head? = some c → p c = false) :
    (text ++ mark).span p = (text, mark) := by
  rw [List.span_eq_takeWhile_dropWhile, List.takeWhile_append_of_pos hbefore,
    List.dropWhile_append_of_pos hbefore]
  cases mark with
  | nil => simp
  | cons c rest =>
    have hc : p c = false := hbehind c rfl
    simp [hc]

theorem readSignificand?_of_isDigits (h : isDigits digits = true) :
    readSignificand? digits = some (Nat.ofDigitChars 10 digits 0, 0) := by
  have hpoint : ∀ c ∈ digits, decide (c ≠ '.') = true := by
    intro c hc
    exact decide_eq_true (ne_of_isDigit ((isDigits_iff.mp h).2 c hc)).2
  have hspan := span_append hpoint [] (by simp)
  rw [List.append_nil] at hspan
  unfold readSignificand?
  rw [hspan]
  simp [h]

theorem readSignificand?_append (hwhole : isDigits whole = true)
    (hfraction : ∀ c ∈ fraction, c.isDigit = true) :
    readSignificand? (whole ++ '.' :: fraction) =
      some (Nat.ofDigitChars 10 (whole ++ fraction) 0, fraction.length) := by
  have hpoint : ∀ c ∈ whole, decide (c ≠ '.') = true := by
    intro c hc
    exact decide_eq_true (ne_of_isDigit ((isDigits_iff.mp hwhole).2 c hc)).2
  have hspan := span_append hpoint ('.' :: fraction) (by simp)
  unfold readSignificand?
  rw [hspan]
  simp [isDigits_append hwhole hfraction]

/-- The digits of an exponent are its digits, or two if it has one. -/
theorem ofDigitChars_exponentDigits (n : Nat) :
    isDigits (exponentDigits n) = true ∧ Nat.ofDigitChars 10 (exponentDigits n) 0 = n := by
  unfold exponentDigits
  split
  · next hlt =>
    have hdigit : Nat.toDigits 10 n = [Nat.digitChar n] := Nat.toDigits_of_lt_base hlt
    have hdigits := isDigits_toDigits n
    have hvalue := Nat.ofDigitChars_ten_toDigits (n := n)
    rw [hdigit] at hdigits hvalue
    have hzero : isDigits ['0'] = true := by decide
    refine ⟨isDigits_append hzero (isDigits_iff.mp hdigits).2, ?_⟩
    exact hvalue
  · exact ⟨isDigits_toDigits n, Nat.ofDigitChars_ten_toDigits⟩

/-- An exponent is read from its sign and its digits. -/
theorem readExponent?_exponentDigits (exponent : Int) :
    readExponent? ((if exponent < 0 then '-' else '+') :: exponentDigits exponent.natAbs) =
      some exponent := by
  obtain ⟨hdigits, hvalue⟩ := ofDigitChars_exponentDigits exponent.natAbs
  have hread : ∀ negative, takeEitherSign
      ((if negative then '-' else '+') :: exponentDigits exponent.natAbs) =
        (negative, exponentDigits exponent.natAbs) := by
    intro negative
    cases negative <;> rfl
  have hsigned : (if decide (exponent < 0) = true then -(exponent.natAbs : Int)
      else (exponent.natAbs : Int)) = exponent := by
    simp only [decide_eq_true_eq]
    omega
  have hmark := hread (decide (exponent < 0))
  simp only [decide_eq_true_eq] at hmark
  unfold readExponent?
  simp only [hmark, hdigits, hvalue, ↓reduceIte, hsigned]

/-- **A numeral is read** from its sign, from its digits with a point among them or none, and from
an exponent if one is marked. -/
theorem read?_sign_append (negative : Bool) (mark : List Char)
    (hfirst : ∀ c, significand.head? = some c → c.isDigit = true)
    (hchars : ∀ c ∈ significand, c = '.' ∨ c.isDigit = true)
    (hsignificand : readSignificand? significand = some (coefficient, places))
    (hmark : ∀ c, mark.head? = some c → c = 'e')
    (hexponent : (if mark.isEmpty then some 0 else readExponent? (mark.drop 1)) =
      some exponent) :
    read? ((if negative then ['-'] else []) ++ (significand ++ mark)) =
      some ⟨negative, coefficient, exponent - places⟩ := by
  have hne : significand ≠ [] := by
    rintro rfl
    simp [readSignificand?, isDigits] at hsignificand
  have hhead : ∀ c, c.isDigit = false → (significand ++ mark).head? ≠ some c := by
    intro c hc heq
    rw [List.head?_append_of_ne_nil _ hne] at heq
    rw [hfirst c heq] at hc
    cases hc
  have hsign := takeEitherSign_sign_append negative (hhead '-' (by decide))
    (hhead '+' (by decide))
  have hplain : ∀ c ∈ significand, (c ≠ 'e' && c ≠ 'E') = true := by
    intro c hc
    rcases hchars c hc with rfl | hdigit
    · decide
    · have hlower : c ≠ 'e' := by
        rintro rfl
        exact absurd hdigit (by decide)
      have hupper : c ≠ 'E' := by
        rintro rfl
        exact absurd hdigit (by decide)
      simp [hlower, hupper]
  have hspan : (significand ++ mark).span (fun c => c ≠ 'e' && c ≠ 'E') = (significand, mark) := by
    refine span_append hplain mark fun c hc => ?_
    rw [hmark c hc]
    decide
  unfold read?
  rw [hsign]
  simp only [hspan, hsignificand, hexponent, Option.bind_some, Option.map_some]

/-! ### The number that a text denotes -/

/-- **The decimal number that a text denotes,** by its sign and its magnitude; `none` if the text is
in no layout. -/
def denoted? (text : List Char) : Option (Bool × ℚ) :=
  (read? text).map fun d => (d.negative, d.magnitude)

theorem denoted?_of_read? {d : Decimal} (h : read? text = some d) :
    denoted? text = some (d.negative, d.magnitude) := by
  rw [denoted?, h, Option.map_some]

/-- A text with a point is read by its digits and the number of digits behind the point. -/
theorem read?_of_isPointed (h : IsPointed text negative whole fraction) :
    read? text =
      some ⟨negative, Nat.ofDigitChars 10 (whole ++ fraction) 0, -(fraction.length : Int)⟩ := by
  obtain ⟨hwhole, hfraction, rfl⟩ := h
  obtain ⟨hne, hdigits⟩ := isDigits_iff.mp hwhole
  obtain ⟨-, hplaces⟩ := isDigits_iff.mp hfraction
  have hfirst : ∀ c, (whole ++ '.' :: fraction).head? = some c → c.isDigit = true := by
    intro c hc
    rw [List.head?_append_of_ne_nil _ hne] at hc
    exact hdigits c (List.mem_of_head? hc)
  have hchars : ∀ c ∈ whole ++ '.' :: fraction, c = '.' ∨ c.isDigit = true := by
    intro c hc
    rcases List.mem_append.mp hc with hc | hc
    · exact Or.inr (hdigits c hc)
    rcases List.mem_cons.mp hc with rfl | hc
    · exact Or.inl rfl
    · exact Or.inr (hplaces c hc)
  have hread := read?_sign_append negative [] hfirst hchars
    (readSignificand?_append hwhole hplaces) (by simp) rfl
  rw [List.append_nil, Int.zero_sub] at hread
  exact hread

/-- **The positional layout denotes the number of the numeral.** -/
theorem denoted?_positional (d : Decimal) :
    denoted? d.positional = some (d.negative, d.magnitude) := by
  obtain ⟨whole, fraction, hpointed, hvalue⟩ := exists_positional_eq d
  rw [denoted?_of_read? (read?_of_isPointed hpointed), hvalue]

/-- The digits in front of an exponent are read, whether or not there is a point among them. -/
theorem exists_mantissa (d : Decimal) : ∃ mantissa,
    d.scientific = d.sign ++ (mantissa ++
      'e' :: (if d.leading < 0 then '-' else '+') :: exponentDigits d.leading.natAbs) ∧
    (∀ c, mantissa.head? = some c → c.isDigit = true) ∧
    (∀ c ∈ mantissa, c = '.' ∨ c.isDigit = true) ∧
    readSignificand? mantissa = some (d.coefficient, d.digits.length - 1) := by
  have hvalue : Nat.ofDigitChars 10 d.digits 0 = d.coefficient := Nat.ofDigitChars_ten_toDigits
  have hdigits : isDigits d.digits = true := isDigits_toDigits d.coefficient
  rw [← hvalue]
  unfold scientific
  -- from here on only the digits matter
  generalize d.digits = digits at hdigits ⊢
  obtain ⟨hne, hall⟩ := isDigits_iff.mp hdigits
  match digits with
  | [] => exact absurd rfl hne
  | [c] =>
    have hc : c.isDigit = true := hall c (List.mem_singleton_self c)
    refine ⟨[c], by simp, by simp [hc], by simp [hc], readSignificand?_of_isDigits hdigits⟩
  | first :: next :: rest =>
    have hfirst : first.isDigit = true := hall first List.mem_cons_self
    have hrest : ∀ c ∈ next :: rest, c.isDigit = true := fun c hc =>
      hall c (List.mem_cons_of_mem first hc)
    have hone : isDigits [first] = true := by simp [isDigits, hfirst]
    refine ⟨first :: '.' :: next :: rest, by simp, by simp [hfirst], ?_,
      readSignificand?_append hone hrest⟩
    intro c hc
    rcases List.mem_cons.mp hc with rfl | hc
    · exact Or.inr hfirst
    rcases List.mem_cons.mp hc with rfl | hc
    · exact Or.inl rfl
    · exact Or.inr (hrest c hc)

/-- **The layout with an exponent is read as the numeral.** -/
theorem read?_scientific (d : Decimal) : read? d.scientific = some d := by
  obtain ⟨mantissa, htext, hfirst, hchars, hsignificand⟩ := exists_mantissa d
  have hread := read?_sign_append d.negative ('e' :: _) hfirst hchars hsignificand (by simp)
    (readExponent?_exponentDigits d.leading)
  have hlength : 0 < d.digits.length := List.length_pos_iff.mpr Nat.toDigits_ne_nil
  have hexponent : d.leading - ((d.digits.length - 1 : Nat) : Int) = d.exponent := by
    unfold leading
    omega
  rw [hexponent] at hread
  rw [htext]
  exact hread

/-! ### Digits around the point -/

theorem length_aroundPoint (digits : List Char) (exponent : Int) :
    (aroundPoint digits exponent).2.length = (-exponent).toNat := by
  cases exponent with
  | ofNat zeros => simp [aroundPoint]
  | negSucc k =>
    unfold aroundPoint
    simp only
    split
    · simp only [List.length_append, List.length_replicate]
      omega
    · simp only [List.length_drop]
      omega

/-- **The same number with a place behind the point,** if the numeral has none. -/
def withPlaces (d : Decimal) : Decimal :=
  match d.exponent with
  | .ofNat zeros => ⟨d.negative, d.coefficient * 10 ^ (zeros + 1), -1⟩
  | .negSucc _ => d

/-- **The positional layout is read with the places that it has.** -/
theorem read?_positional (d : Decimal) : read? d.positional = some d.withPlaces := by
  obtain ⟨negative, coefficient, exponent⟩ := d
  have hdigits := isDigits_toDigits coefficient
  have hcoefficient := Nat.ofDigitChars_ten_toDigits (n := coefficient)
  unfold positional withPlaces Decimal.digits Decimal.sign
  generalize Nat.toDigits 10 coefficient = digits at hdigits hcoefficient ⊢
  obtain ⟨whole, fraction, hparts⟩ : ∃ whole fraction,
      aroundPoint digits exponent = (whole, fraction) := ⟨_, _, rfl⟩
  obtain ⟨hwhole, hfraction, hmagnitude⟩ := aroundPoint_spec hdigits hparts
  have hlength := length_aroundPoint digits exponent
  simp only [hparts] at hlength ⊢
  cases exponent with
  | ofNat zeros =>
    obtain rfl : fraction = [] := by
      apply List.eq_nil_of_length_eq_zero
      rw [hlength]
      simp
    have hpointed : IsPointed ((if negative then ['-'] else []) ++ (whole ++ '.' :: ['0']))
        negative whole ['0'] := ⟨hwhole, by decide, rfl⟩
    have hread := read?_of_isPointed hpointed
    have hvalue : Nat.ofDigitChars 10 (whole ++ ['0']) 0 = coefficient * 10 ^ (zeros + 1) := by
      obtain ⟨rfl, -⟩ : digits ++ List.replicate zeros '0' = whole ∧ ([] : List Char) = [] :=
        Prod.mk.inj hparts
      rw [List.append_assoc, ← List.replicate_succ', Nat.ofDigitChars_append,
        Nat.ofDigitChars_replicate_zero, hcoefficient, Nat.mul_comm]
    rw [hvalue] at hread
    simpa using hread
  | negSucc k =>
    have hplaces : fraction.length = k + 1 := by
      rw [hlength]
      omega
    have hne : fraction ≠ [] := List.ne_nil_of_length_eq_add_one hplaces
    have hpointed : IsPointed ((if negative then ['-'] else []) ++ (whole ++ '.' :: fraction))
        negative whole fraction := ⟨hwhole, isDigits_iff.mpr ⟨hne, hfraction⟩, rfl⟩
    have hread := read?_of_isPointed hpointed
    -- the same number with the same places has the same coefficient
    have hexponent : -(fraction.length : ℤ) = Int.negSucc k := by
      rw [hplaces]
      omega
    have hvalue : Nat.ofDigitChars 10 (whole ++ fraction) 0 = coefficient := by
      have hscale : (10 : ℚ) ^ (Int.negSucc k) ≠ 0 := zpow_ne_zero _ (by norm_num)
      rw [hexponent, hcoefficient] at hmagnitude
      exact_mod_cast mul_right_cancel₀ hscale hmagnitude
    rw [hexponent, hvalue] at hread
    simpa [hne] using hread

/-- A place that is added does not change the number. -/
theorem withPlaces_same_number (d : Decimal) :
    d.withPlaces.negative = d.negative ∧ d.withPlaces.magnitude = d.magnitude := by
  have hsame : some (d.withPlaces.negative, d.withPlaces.magnitude) =
      some (d.negative, d.magnitude) :=
    (denoted?_of_read? (read?_positional d)).symm.trans (denoted?_positional d)
  exact Prod.mk.inj (Option.some.inj hsame)

/-- Zeros behind the digits multiply by ten. -/
theorem toDigits_mul_ten_pow {n : Nat} (h : 0 < n) (zeros : Nat) :
    Nat.toDigits 10 (n * 10 ^ zeros) = Nat.toDigits 10 n ++ List.replicate zeros '0' := by
  induction zeros with
  | zero => simp
  | succ zeros ih =>
    have hpos : 0 < n * 10 ^ zeros := Nat.mul_pos h (Nat.pow_pos (by decide))
    have hstep : Nat.toDigits 10 (n * 10 ^ zeros) ++ Nat.toDigits 10 0 =
        Nat.toDigits 10 (10 * (n * 10 ^ zeros) + 0) :=
      Nat.toDigits_append_toDigits (by decide) hpos (by decide)
    have hpow : n * 10 ^ (zeros + 1) = 10 * (n * 10 ^ zeros) + 0 := by
      rw [Nat.pow_succ]
      ring
    rw [hpow, ← hstep, ih, List.append_assoc, List.replicate_succ']
    rfl

/-- The last of several digits stands alone behind the point if it stands for tenths. -/
theorem aroundPoint_concat (h : digits ≠ []) (c : Char) :
    aroundPoint (digits ++ [c]) (-1) = (digits, [c]) := by
  have hlength : 0 < digits.length := List.length_pos_iff.mpr h
  have hlong : ¬(digits ++ [c]).length ≤ 1 := by
    rw [List.length_append, List.length_singleton]
    omega
  show (if (digits ++ [c]).length ≤ 1 then _ else _) = _
  rw [if_neg hlong]
  simp

/-- A place that is added does not change the positional layout. -/
theorem positional_withPlaces {d : Decimal} (h : d.coefficient = 0 → d.exponent ≤ 0) :
    d.withPlaces.positional = d.positional := by
  obtain ⟨negative, coefficient, exponent⟩ := d
  cases exponent with
  | negSucc k => rfl
  | ofNat zeros =>
    rcases Nat.eq_zero_or_pos coefficient with rfl | hpos
    · obtain rfl : zeros = 0 := by
        have hle : Int.ofNat zeros ≤ 0 := h rfl
        simpa using hle
      cases negative <;> decide
    · have hdigits := toDigits_mul_ten_pow hpos (zeros + 1)
      have hne : Nat.toDigits 10 coefficient ++ List.replicate zeros '0' ≠ [] := by
        simp [Nat.toDigits_ne_nil]
      have hparts := aroundPoint_concat hne '0'
      rw [List.append_assoc, ← List.replicate_succ', ← hdigits] at hparts
      unfold positional withPlaces Decimal.digits Decimal.sign
      simp only [hparts]
      rfl

end Decimal

open Decimal

/-! ### The two texts of a number -/

/-- Only zero has a numeral without a digit that counts, and this has no zeros to add. -/
theorem exponent_of_decimal? {x : Binary64} {d : Decimal} (hd : x.decimal? = some d)
    (hzero : d.coefficient = 0) : d.exponent ≤ 0 := by
  obtain ⟨negative, coefficient, exponent⟩ := d
  obtain rfl : coefficient = 0 := hzero
  have hx := Binary64.ofDecimal_of_decimal? hd
  have hsame : Binary64.ofDecimal ⟨negative, 0, exponent⟩ = Binary64.ofDecimal ⟨negative, 0, 0⟩ :=
    Binary64.ofDecimal_congr rfl (by simp [magnitude])
  have hnothing : Binary64.ofDecimal ⟨negative, 0, 0⟩ = Binary64.zero negative := by
    have hdouble : IsDouble 0 := by decide
    have hunits := Binary64.ofUnits_of_isDouble negative Nat.one_pos hdouble
    have hfinite : Binary64.ofDecimal ⟨negative, 0, 0⟩ = .finite negative 0 hdouble := by
      simpa [Binary64.ofDecimal, Binary64.ofScaled] using hunits
    exact hfinite
  rw [← hx, hsame, hnothing] at hd
  cases hd
  exact Int.le_refl 0

/-- **The program text of a finite number** is the positional layout of the numeral that its
displayed text is read as. -/
theorem exists_render_display (negative : Bool) (units : Nat) (h : IsDouble units) :
    ∃ d, Binary64.ofDecimal d = .finite negative units h ∧
      read? (FloatStyle.display.render (.finite negative units h)).toList = some d ∧
      FloatStyle.source.render (.finite negative units h) = String.ofList d.positional := by
  obtain ⟨d, hd⟩ := exists_decimal? negative units h
  have hnumber := Binary64.ofDecimal_of_decimal? hd
  have hsource : FloatStyle.source.render (.finite negative units h) =
      String.ofList d.positional := by
    unfold FloatStyle.render
    rw [hd]
    rfl
  have hdisplay : FloatStyle.display.render (.finite negative units h) =
      String.ofList (if FloatStyle.display.isPositional d.leading then d.positional
        else d.scientific) := by
    unfold FloatStyle.render
    rw [hd]
  rw [hdisplay, hsource, String.toList_ofList]
  split
  · -- the displayed text may have a place more than the numeral
    have hread := read?_positional d
    have hplaces := positional_withPlaces (exponent_of_decimal? hd)
    obtain ⟨hsign, hmagnitude⟩ := withPlaces_same_number d
    have hsame : Binary64.ofDecimal d.withPlaces = Binary64.ofDecimal d :=
      Binary64.ofDecimal_congr hsign hmagnitude
    exact ⟨d.withPlaces, hsame.trans hnumber, hread, by rw [hplaces]⟩
  · exact ⟨d, hnumber, read?_scientific d, rfl⟩

/-- **A reading that depends on the number alone** that a text denotes, and not on its layout. -/
def DependsOnNumber (reading : List Char → Binary64) : Prop :=
  ∀ first second number, denoted? first = some number → denoted? second = some number →
    reading first = reading second

/-- **The reading by rounding:** the number nearest to the numeral of a text, and zero for a text
without one. -/
def readNearest (text : List Char) : Binary64 :=
  ((read? text).map Binary64.ofDecimal).getD (.zero false)

theorem dependsOnNumber_readNearest : DependsOnNumber readNearest := by
  intro first second number hfirst hsecond
  obtain ⟨d, hd, rfl⟩ := Option.map_eq_some_iff.mp hfirst
  obtain ⟨d', hd', hnumber⟩ := Option.map_eq_some_iff.mp hsecond
  obtain ⟨hsign, hmagnitude⟩ := Prod.mk.inj hnumber
  have hsame : Binary64.ofDecimal d = Binary64.ofDecimal d' :=
    Binary64.ofDecimal_congr hsign.symm hmagnitude.symm
  simp only [readNearest, hd, hd', Option.map_some, Option.getD_some, hsame]

/-- A finite number reads back from its displayed text. -/
theorem readNearest_render_display (negative : Bool) (units : Nat) (h : IsDouble units) :
    readNearest (FloatStyle.display.render (.finite negative units h)).toList =
      .finite negative units h := by
  obtain ⟨d, hnumber, hshown, -⟩ := exists_render_display negative units h
  simp only [readNearest, hshown, Option.map_some, Option.getD_some, hnumber]

/-- The positional layout of a numeral reads as an atom, the number nearest to it. -/
theorem readAtom_positional (d : Decimal) :
    readAtom (String.ofList d.positional) = .ok (.float (Binary64.ofDecimal d)) := by
  obtain ⟨whole, fraction, hpointed, hvalue⟩ := exists_positional_eq d
  have hnumber : Binary64.ofDecimal ⟨d.negative, Nat.ofDigitChars 10 (whole ++ fraction) 0,
      -(fraction.length : Int)⟩ = Binary64.ofDecimal d := Binary64.ofDecimal_congr rfl hvalue
  have hread : readPositional? (String.ofList d.positional).toList =
      some ⟨d.negative, Nat.ofDigitChars 10 (whole ++ fraction) 0, -(fraction.length : Int)⟩ := by
    rw [String.toList_ofList]
    exact readPositional?_eq_some_iff.mpr ⟨d.negative, whole, fraction, hpointed, rfl⟩
  rw [readAtom_of_readPositional? hread, hnumber]

/-- **The positional layout of a text keeps its number.** A text of either layout, with any number
of digits and any exponent, is read as a numeral. The positional layout of this numeral matches the
pattern of numbers with a point and denotes the number that the text denotes, sign and all. It reads
as an atom that is a floating-point number, the one nearest to the number, and no reading that
depends on the number alone can tell it from the text.

The program text of a finite number is such a layout, that of the displayed text. It reads as the
number itself, by the rounding of numerals or by any other reading that depends on the number alone
and reads the displayed text as the number. -/
theorem positional_text :
    (∀ (text : List Char) (d : Decimal), read? text = some d →
      (∃ whole fraction, IsPointed d.positional d.negative whole fraction) ∧
      denoted? d.positional = denoted? text ∧
      readAtom (String.ofList d.positional) = .ok (.float (Binary64.ofDecimal d)) ∧
      ∀ reading, DependsOnNumber reading → reading d.positional = reading text) ∧
    ∀ (negative : Bool) (units : Nat) (h : IsDouble units) (shown written : String),
      FloatStyle.display.render (.finite negative units h) = shown →
      FloatStyle.source.render (.finite negative units h) = written →
        ∃ d, read? shown.toList = some d ∧ written = String.ofList d.positional ∧
          (∃ whole fraction, IsPointed written.toList d.negative whole fraction) ∧
          denoted? written.toList = denoted? shown.toList ∧
          readAtom written = .ok (.float (.finite negative units h)) ∧
          ∀ reading, DependsOnNumber reading →
            reading shown.toList = .finite negative units h →
              reading written.toList = .finite negative units h := by
  have hpattern : ∀ d : Decimal, ∃ whole fraction,
      IsPointed d.positional d.negative whole fraction := by
    intro d
    obtain ⟨whole, fraction, hpointed, -⟩ := exists_positional_eq d
    exact ⟨whole, fraction, hpointed⟩
  have hdenoted : ∀ {text : List Char} {d : Decimal}, read? text = some d →
      denoted? d.positional = denoted? text := fun hread =>
    (denoted?_positional _).trans (denoted?_of_read? hread).symm
  have hreading : ∀ {text : List Char} {d : Decimal}, read? text = some d →
      ∀ reading, DependsOnNumber reading → reading d.positional = reading text :=
    fun hread reading hdepends => hdepends _ _ _ (denoted?_positional _) (denoted?_of_read? hread)
  constructor
  · intro text d hread
    exact ⟨hpattern d, hdenoted hread, readAtom_positional d, hreading hread⟩
  · rintro negative units h _ _ rfl rfl
    obtain ⟨d, hnumber, hshown, hwritten⟩ := exists_render_display negative units h
    have hatom := readAtom_positional d
    rw [hnumber] at hatom
    rw [hwritten, String.toList_ofList]
    exact ⟨d, hshown, rfl, hpattern d, hdenoted hshown, hatom,
      fun reading hdepends hback => (hreading hshown reading hdepends).trans hback⟩

/-- The greatest number below zero. -/
def greatestBelowZero : Binary64 := .finite true 1 (by decide)

/-- The text `1e+22` is laid out with 23 digits in front of the point. The greatest number below
zero is displayed as `-5e-324` and laid out with 324 digits behind the point. -/
theorem positional_text_extremes :
    read? "1e+22".toList = some ⟨false, 1, 22⟩ ∧
    denoted? ('1' :: List.replicate 22 '0' ++ ['.', '0']) = denoted? "1e+22".toList ∧
    FloatStyle.display.render greatestBelowZero = "-5e-324" ∧
    FloatStyle.source.render greatestBelowZero =
      String.ofList (['-', '0', '.'] ++ List.replicate 323 '0' ++ ['5']) ∧
    DependsOnNumber readNearest ∧
    readNearest "-5e-324".toList = greatestBelowZero ∧
    readNearest (['-', '0', '.'] ++ List.replicate 323 '0' ++ ['5']) = greatestBelowZero := by
  have hread : read? "1e+22".toList = some ⟨false, 1, 22⟩ := by decide +kernel
  have hlayout : positional ⟨false, 1, 22⟩ = '1' :: List.replicate 22 '0' ++ ['.', '0'] := by
    decide +kernel
  have hshown : FloatStyle.display.render greatestBelowZero = "-5e-324" := by decide +kernel
  have hwritten : FloatStyle.source.render greatestBelowZero =
      String.ofList (['-', '0', '.'] ++ List.replicate 323 '0' ++ ['5']) := by decide +kernel
  have hback : readNearest "-5e-324".toList = greatestBelowZero := by
    rw [← hshown]
    exact readNearest_render_display true 1 _
  obtain ⟨-, hdenoted, -, -⟩ := positional_text.1 _ _ hread
  obtain ⟨d, -, -, -, -, -, hreadings⟩ := positional_text.2 true 1 _ _ _ hshown hwritten
  have hagain := hreadings readNearest dependsOnNumber_readNearest hback
  rw [hlayout] at hdenoted
  rw [String.toList_ofList] at hagain
  exact ⟨hread, hdenoted, hshown, hwritten, dependsOnNumber_readNearest, hback, hagain⟩

end EntityLisp
