import EntityLisp.Form.Normal
import EntityLisp.Node.Source
import EntityLisp.Proofs.NumeralText
import EntityLisp.Proofs.Words

/-!
# The program text of an atom

`Node.IsReadable` says of a node that it is an atom with a program text of its own.

* `Node.IsReadable.exists_atomText`: the text of such an atom is a word that reads as the atom.
* `isReadable_or_infinite_of_readAtom`: the atoms that are read from words are these, and the
  infinities. A numeral that is too large reads as an infinity, whose program text is the name of
  a symbol (`isSymbolName_infinite`).
-/

namespace EntityLisp

open Decimal

/-! ### What atoms can be read -/

/-- Whether a text is that of a truth value or of nil. -/
def isConstant (text : List Char) : Bool :=
  text == "true".toList || text == "false".toList || text == "nil".toList

/-- **A name that reads as a symbol:** a bare word that is no other atom. -/
structure IsSymbolName (name : List Char) : Prop where
  nonempty : name ≠ []
  bare : ∀ c ∈ name, isBareChar c = true
  notConstant : isConstant name = false
  notKeyword : name.head? ≠ some ':'
  notSingleQuote : name.head? ≠ some '\''
  notWhole : ∀ negative digits, ¬IsWhole name negative digits
  notPointed : ∀ negative whole fraction, ¬IsPointed name negative whole fraction

/-- **An atom with a program text of its own.** A whole number has no more digits than are read, a
number with a point is finite, a text holds no quote, and a name is a bare word. -/
def Node.IsReadable : Node → Prop
  | .nil | .bool _ | .float (.finite ..) => True
  | .int n => n.natAbs < 10 ^ digitLimit
  | .str text => '"' ∉ text.toList
  | .keyword name => ∀ c ∈ name.toList, isBareChar c = true
  | .symbol name => IsSymbolName name.toList
  | _ => False

/-! ### The characters of numerals -/

/-- A character that a numeral may hold. -/
def IsNumeralChar (c : Char) : Prop := c = '-' ∨ c = '.' ∨ c.isDigit = true

instance (c : Char) : Decidable (IsNumeralChar c) :=
  inferInstanceAs (Decidable (c = '-' ∨ c = '.' ∨ c.isDigit = true))

/-- The characters of numerals are bare. -/
theorem isBareChar_of_isNumeralChar {c : Char} (h : IsNumeralChar c) : isBareChar c = true := by
  rcases h with rfl | rfl | hdigit
  · decide
  · decide
  · simp only [Char.isDigit, Bool.and_eq_true, decide_eq_true_eq] at hdigit
    have hbounds : 48 ≤ c.toNat ∧ c.toNat ≤ 57 := hdigit
    have hne : ∀ d : Char, d.toNat < 48 ∨ 57 < d.toNat → c ≠ d := by
      rintro d hd rfl
      omega
    have hblank : isBlank c = false := by
      simp only [isBlank, Bool.or_eq_false_iff, Bool.and_eq_false_iff, decide_eq_false_iff_not,
        beq_eq_false_iff_ne]
      omega
    simp [isBareChar, isSeparator, hblank, hne '(' (by decide), hne ')' (by decide),
      hne ';' (by decide), hne '"' (by decide)]

theorem isNumeralChar_of_mem_digits {digits : List Char} (h : isDigits digits = true) :
    ∀ c ∈ digits, IsNumeralChar c := fun c hc => Or.inr (Or.inr ((isDigits_iff.mp h).2 c hc))

theorem isNumeralChar_of_mem_sign {negative : Bool} {c : Char}
    (h : c ∈ if negative then ['-'] else []) : IsNumeralChar c := by
  cases negative with
  | true => exact Or.inl (List.mem_singleton.mp h)
  | false => exact absurd h List.not_mem_nil

theorem isNumeralChar_of_isWhole {text digits : List Char} {negative : Bool}
    (h : IsWhole text negative digits) : ∀ c ∈ text, IsNumeralChar c := by
  obtain ⟨hdigits, rfl⟩ := h
  intro c hc
  rcases List.mem_append.mp hc with hc | hc
  · exact isNumeralChar_of_mem_sign hc
  · exact isNumeralChar_of_mem_digits hdigits c hc

theorem isNumeralChar_of_isPointed {text whole fraction : List Char} {negative : Bool}
    (h : IsPointed text negative whole fraction) : ∀ c ∈ text, IsNumeralChar c := by
  obtain ⟨hwhole, hfraction, rfl⟩ := h
  intro c hc
  rcases List.mem_append.mp hc with hc | hc
  · exact isNumeralChar_of_mem_sign hc
  rcases List.mem_append.mp hc with hc | hc
  · exact isNumeralChar_of_mem_digits hwhole c hc
  rcases List.mem_cons.mp hc with rfl | hc
  · exact Or.inr (Or.inl rfl)
  · exact isNumeralChar_of_mem_digits hfraction c hc

theorem ne_nil_of_isPointed {text whole fraction : List Char} {negative : Bool}
    (h : IsPointed text negative whole fraction) : text ≠ [] := by
  obtain ⟨-, -, rfl⟩ := h
  simp

theorem ne_nil_of_isWhole {text digits : List Char} {negative : Bool}
    (h : IsWhole text negative digits) : text ≠ [] := by
  obtain ⟨hdigits, rfl⟩ := h
  simp [(isDigits_iff.mp hdigits).1]

/-! ### Reading a bare word -/

/-- A token that begins with a quote is read as a quoted text. -/
theorem readAtom_of_quote {token : String} {rest : List Char} (h : token.toList = '"' :: rest) :
    readAtom token = readString token rest := by
  have hne : ∀ word : String, word.toList.head? ≠ some '"' → token ≠ word := by
    rintro word hword rfl
    exact hword (by rw [h]; rfl)
  unfold readAtom
  rw [if_neg (hne "true" (by decide)), if_neg (hne "false" (by decide)),
    if_neg (hne "nil" (by decide)), h]
  rfl

/-- A bare word that is no constant is a number, a keyword or a symbol. -/
theorem readAtom_of_bare {token : String} (hbare : ∀ c ∈ token.toList, isBareChar c = true)
    (hconstant : isConstant token.toList = false) (hsingle : token.toList.head? ≠ some '\'') :
    readAtom token = readBare token := by
  have hquote : '"' ∉ token.toList := fun hmem => absurd (hbare _ hmem) (by decide)
  simp only [isConstant, Bool.or_eq_false_iff, beq_eq_false_iff_ne] at hconstant
  obtain ⟨⟨htrue, hfalse⟩, hnil⟩ := hconstant
  unfold readAtom
  rw [if_neg (fun heq => htrue (by rw [heq])), if_neg (fun heq => hfalse (by rw [heq])),
    if_neg (fun heq => hnil (by rw [heq]))]
  split
  · next rest heq => exact absurd (by rw [heq]; exact List.mem_cons_self) hquote
  · rw [if_neg hquote, if_neg hsingle]

/-- A text of numeral characters is a bare word and no constant. -/
theorem readAtom_of_isNumeralChar {token : String}
    (h : ∀ c ∈ token.toList, IsNumeralChar c) : readAtom token = readBare token := by
  -- the constants begin with letters, which no numeral holds
  have hfree : ∀ c, ¬IsNumeralChar c → c ∉ token.toList := fun c hc hmem => hc (h c hmem)
  refine readAtom_of_bare (fun c hc => isBareChar_of_isNumeralChar (h c hc)) ?_ ?_
  · simp only [isConstant, Bool.or_eq_false_iff, beq_eq_false_iff_ne]
    refine ⟨⟨?_, ?_⟩, ?_⟩
    · intro heq
      exact hfree 't' (by decide) (by rw [heq]; decide)
    · intro heq
      exact hfree 'f' (by decide) (by rw [heq]; decide)
    · intro heq
      exact hfree 'n' (by decide) (by rw [heq]; decide)
  · intro heq
    exact hfree '\'' (by decide) (List.mem_of_head? heq)

/-- A word that is no whole number has not too many digits. -/
theorem readBare_of_not_isWhole {token : String}
    (h : ∀ negative digits, ¬IsWhole token.toList negative digits) :
    readBare token = .ok (bareAtom token) := by
  rw [readBare, excessDigits?_eq_none h]

/-- **A whole number is read or refused** by the number of its digits. -/
theorem readAtom_of_isWhole {token : String} {negative : Bool} {digits : List Char}
    (h : IsWhole token.toList negative digits) :
    readAtom token = if digitLimit < digits.length then .error (.tooManyDigits digits.length)
      else .ok (.int (if negative then -(Nat.ofDigitChars 10 digits 0 : Int)
        else (Nat.ofDigitChars 10 digits 0 : Int))) := by
  rw [readAtom_of_isNumeralChar (isNumeralChar_of_isWhole h), readBare, excessDigits?_of_isWhole h]
  by_cases hlong : digitLimit < digits.length
  · rw [if_pos hlong, if_pos hlong]
  · have hread := readInt?_eq_some_iff.mpr ⟨negative, digits, h, Nat.le_of_not_lt hlong, rfl⟩
    rw [if_neg hlong, if_neg hlong]
    simp only [bareAtom, hread]

/-- No number with a point is read from a text that does not match the pattern. -/
theorem readFloat?_eq_none {text : List Char}
    (h : ∀ negative whole fraction, ¬IsPointed text negative whole fraction) :
    readFloat? text = none := by
  rw [Option.eq_none_iff_forall_ne_some]
  intro x hx
  obtain ⟨negative, whole, fraction, hpointed, -⟩ := readFloat?_eq_some_iff.mp hx
  exact h negative whole fraction hpointed

/-! ### Atoms read back -/

/-- **The text of a whole number reads as the number,** if it has no more digits than are read. -/
theorem readAtom_toString {n : Int} (h : n.natAbs < 10 ^ digitLimit) :
    readAtom (toString n) = .ok (.int n) := by
  rw [readAtom_of_isWhole (isWhole_toString n),
    if_neg (Nat.not_lt_of_le ((length_toDigits_le_iff _).mpr h)), signed_toDigits]

/-- **The program text of a finite number reads as the number.** -/
theorem readAtom_render (negative : Bool) (units : Nat) (h : IsDouble units) :
    readAtom (FloatStyle.source.render (.finite negative units h)) =
      .ok (.float (.finite negative units h)) := by
  have hread := readFloat?_source negative units h
  obtain ⟨sign, whole, fraction, hpointed, -⟩ := readFloat?_eq_some_iff.mp hread
  -- the point keeps the text from being read as a whole number
  have hpoint : '.' ∈ (FloatStyle.source.render (.finite negative units h)).toList := by
    rw [hpointed.2.2]
    simp
  have hnotWhole := not_isWhole_of_mem hpoint
  rw [readAtom_of_isNumeralChar (isNumeralChar_of_isPointed hpointed),
    readBare_of_not_isWhole hnotWhole]
  unfold bareAtom
  rw [hread, readInt?_eq_none hnotWhole]

/-- **The name of a symbol reads as the symbol.** -/
theorem readAtom_of_isSymbolName {name : String} (h : IsSymbolName name.toList) :
    readAtom name = .ok (.symbol name) := by
  rw [readAtom_of_bare h.bare h.notConstant h.notSingleQuote, readBare_of_not_isWhole h.notWhole]
  unfold bareAtom
  rw [readInt?_eq_none h.notWhole, readFloat?_eq_none h.notPointed]
  simp only
  split
  · next heq => exact absurd (by rw [heq]; rfl) h.notKeyword
  · rfl

/-- **A name with a colon in front reads as the keyword.** -/
theorem readAtom_colon {name : String} (h : ∀ c ∈ name.toList, isBareChar c = true) :
    readAtom (":" ++ name) = .ok (.keyword name) := by
  have hlist : (":" ++ name).toList = ':' :: name.toList := by simp
  have hcolon : ¬IsNumeralChar ':' := by decide
  have hbare : ∀ c ∈ (":" ++ name).toList, isBareChar c = true := by
    rw [hlist]
    intro c hc
    rcases List.mem_cons.mp hc with rfl | hc
    · decide
    · exact h c hc
  -- the colon comes after the numerals in the order of the tests
  have hnotWhole : ∀ negative digits, ¬IsWhole (':' :: name.toList) negative digits :=
    fun _ _ hwhole => hcolon (isNumeralChar_of_isWhole hwhole _ List.mem_cons_self)
  have hint : readInt? (':' :: name.toList) = none := readInt?_eq_none hnotWhole
  have hfloat : readFloat? (':' :: name.toList) = none := readFloat?_eq_none fun _ _ _ hpointed =>
    hcolon (isNumeralChar_of_isPointed hpointed _ List.mem_cons_self)
  rw [readAtom_of_bare hbare (by rw [hlist]; simp [isConstant]) (by rw [hlist]; simp),
    readBare_of_not_isWhole (by rw [hlist]; exact hnotWhole)]
  unfold bareAtom
  rw [hlist, hint, hfloat]
  simp

/-- **A text in quotes reads as the text.** -/
theorem readAtom_quotes {text : String} (h : '"' ∉ text.toList) :
    readAtom ("\"" ++ text ++ "\"") = .ok (.str text) := by
  have hlist : ("\"" ++ text ++ "\"").toList = '"' :: (text.toList ++ ['"']) := by simp
  rw [readAtom_of_quote hlist]
  simp [readString, h]

/-- The text of an atom that can be read is a word, and reads as the atom. -/
theorem Node.IsReadable.exists_atomText {atom : Node} (h : atom.IsReadable) :
    ∃ text, atom.atomText? = some text ∧ text.toList ≠ [] ∧ isWordFrom false text.toList = true ∧
      readAtom text = .ok atom := by
  cases atom with
  | nil => exact ⟨"nil", rfl, by decide, by decide, rfl⟩
  | bool value =>
    cases value with
    | true => exact ⟨"true", rfl, by decide, by decide, rfl⟩
    | false => exact ⟨"false", rfl, by decide, by decide, rfl⟩
  | int n =>
    have hwhole := isWhole_toString n
    exact ⟨_, rfl, ne_nil_of_isWhole hwhole, isWordFrom_of_bare fun c hc =>
      isBareChar_of_isNumeralChar (isNumeralChar_of_isWhole hwhole c hc), readAtom_toString h⟩
  | float x =>
    cases x with
    | finite negative units hdouble =>
      obtain ⟨sign, whole, fraction, hpointed, -⟩ :=
        readFloat?_eq_some_iff.mp (readFloat?_source negative units hdouble)
      exact ⟨_, rfl, ne_nil_of_isPointed hpointed, isWordFrom_of_bare fun c hc =>
        isBareChar_of_isNumeralChar (isNumeralChar_of_isPointed hpointed c hc),
        readAtom_render negative units hdouble⟩
    | infinite negative => exact absurd h id
    | nan mark => exact absurd h id
  | str text =>
    refine ⟨_, rfl, by simp, ?_, readAtom_quotes h⟩
    have hword := isWordFrom_quoted h
    simpa using hword
  | symbol name =>
    exact ⟨name, rfl, IsSymbolName.nonempty h, isWordFrom_of_bare (IsSymbolName.bare h),
      readAtom_of_isSymbolName h⟩
  | keyword name =>
    refine ⟨_, rfl, by simp, isWordFrom_of_bare fun c hc => ?_, readAtom_colon h⟩
    rw [String.toList_append] at hc
    rcases List.mem_append.mp hc with hc | hc
    · obtain rfl : c = ':' := by simpa using hc
      decide
    · exact h c hc
  | form items => exact absurd h id
  | entity value => exact absurd h id
  | entities values joined => exact absurd h id
  | closure value => exact absurd h id

/-! ### What is read from words -/

/-- What is read has not too many digits for a whole number. -/
theorem readBare_eq_ok_iff {token : String} {atom : Node} :
    readBare token = .ok atom ↔ excessDigits? token.toList = none ∧ bareAtom token = atom := by
  unfold readBare
  cases excessDigits? token.toList with
  | some count => simp
  | none => simp

theorem isForm_bareAtom (token : String) : (bareAtom token).isForm = false := by
  unfold bareAtom
  split
  · rfl
  · rfl
  · split <;> rfl

/-- No token is read as a form. -/
theorem isForm_of_readAtom {token : String} {atom : Node} (h : readAtom token = .ok atom) :
    atom.isForm = false := by
  unfold readAtom at h
  split at h
  · cases h
    rfl
  split at h
  · cases h
    rfl
  split at h
  · cases h
    rfl
  split at h
  · unfold readString at h
    extract_lets text at h
    split at h
    · cases h
    · cases h
      rfl
  · split at h
    · cases h
    split at h
    · cases h
    · obtain ⟨-, rfl⟩ := readBare_eq_ok_iff.mp h
      exact isForm_bareAtom token

/-- A number that is read with a point is finite or an infinity. -/
theorem finite_or_infinite_of_readFloat? {text : List Char} {x : Binary64}
    (h : readFloat? text = some x) :
    (∃ negative units hdouble, x = .finite negative units hdouble) ∨
      ∃ negative, x = .infinite negative := by
  obtain ⟨negative, whole, fraction, -, rfl⟩ := readFloat?_eq_some_iff.mp h
  obtain ⟨num, den, -, heq, -⟩ := Binary64.exists_ofDecimal_eq_ofUnits
    ⟨negative, Nat.ofDigitChars 10 (whole ++ fraction) 0, -(fraction.length : Int)⟩
  rw [heq]
  -- no numeral reads as a NaN
  rcases Binary64.ofUnits_cases negative num den with ⟨units, hdouble, hfinite⟩ | hinfinite
  · exact Or.inl ⟨negative, units, hdouble, hfinite⟩
  · exact Or.inr ⟨negative, hinfinite⟩

/-- What a bare word stands for that is no constant. -/
theorem isReadable_or_infinite_bareAtom {token : String} (hne : token.toList ≠ [])
    (hbare : ∀ c ∈ token.toList, isBareChar c = true)
    (hconstant : isConstant token.toList = false) (hsingle : token.toList.head? ≠ some '\'')
    (hdigits : excessDigits? token.toList = none) :
    (bareAtom token).IsReadable ∨ ∃ negative, bareAtom token = .float (.infinite negative) := by
  unfold bareAtom
  -- in the order of the tests: what is left after both numerals is a name
  cases hint : readInt? token.toList with
  | some n => exact Or.inl (natAbs_lt_of_readInt? hint)
  | none =>
    cases hfloat : readFloat? token.toList with
    | some x =>
      rcases finite_or_infinite_of_readFloat? hfloat with ⟨_, _, _, rfl⟩ | ⟨negative, rfl⟩
      · exact Or.inl trivial
      · exact Or.inr ⟨negative, rfl⟩
    | none =>
      refine Or.inl ?_
      simp only
      split
      · next name heq =>
        show ∀ c ∈ (String.ofList name).toList, isBareChar c = true
        rw [String.toList_ofList]
        exact fun c hc => hbare c (by rw [heq]; exact List.mem_cons_of_mem _ hc)
      · next hcolon =>
        refine ⟨hne, hbare, hconstant, ?_, hsingle, ?_, ?_⟩
        · intro hhead
          obtain ⟨name, hname⟩ := List.head?_eq_some_iff.mp hhead
          exact hcolon name hname
        · intro negative digits hwhole
          have hlength := excessDigits?_eq_none_iff.mp hdigits negative digits hwhole
          have := readInt?_eq_some_iff.mpr ⟨negative, digits, hwhole, hlength, rfl⟩
          rw [hint] at this
          cases this
        · intro negative whole fraction hpointed
          have := readFloat?_eq_some_iff.mpr ⟨negative, whole, fraction, hpointed, rfl⟩
          rw [hfloat] at this
          cases this

/-- **What is read from a word** is an atom that can be read, or an infinity. -/
theorem isReadable_or_infinite_of_readAtom {token : String} {atom : Node}
    (hne : token.toList ≠ []) (hword : isWordFrom false token.toList = true)
    (h : readAtom token = .ok atom) :
    atom.IsReadable ∨ ∃ negative, atom = .float (.infinite negative) := by
  unfold readAtom at h
  split at h
  · cases h
    exact Or.inl trivial
  next htrue =>
  split at h
  · cases h
    exact Or.inl trivial
  next hfalse =>
  split at h
  · cases h
    exact Or.inl trivial
  next hnil =>
  have hconstant : isConstant token.toList = false := by
    simp only [isConstant, Bool.or_eq_false_iff, beq_eq_false_iff_ne, ne_eq, String.toList_inj]
    exact ⟨⟨htrue, hfalse⟩, hnil⟩
  split at h
  · -- A quoted text: what stands between the quotes has passed the test for quotes.
    unfold readString at h
    extract_lets text at h
    by_cases hquote : '"' ∈ text
    · rw [if_pos hquote] at h
      cases h
    · rw [if_neg hquote] at h
      cases h
      refine Or.inl ?_
      show '"' ∉ (String.ofList text).toList
      rwa [String.toList_ofList]
  · split at h
    · cases h
    next hquote =>
    split at h
    · cases h
    next hsingle =>
    obtain ⟨hdigits, rfl⟩ := readBare_eq_ok_iff.mp h
    exact isReadable_or_infinite_bareAtom hne (bare_of_isWordFrom hword hquote) hconstant hsingle
      hdigits

/-! ### Names -/

/-- Whether a text is the name of a symbol at first sight: a bare word with a character that no
numeral holds, which is no constant and whose first character says nothing else. -/
def isPlainName (name : List Char) : Bool :=
  name.any (fun c => !decide (IsNumeralChar c)) && name.all isBareChar && !isConstant name &&
    name.head? != some ':' && name.head? != some '\''

theorem isSymbolName_of_isPlainName {name : List Char} (h : isPlainName name = true) :
    IsSymbolName name := by
  simp only [isPlainName, Bool.and_eq_true, Bool.not_eq_true', bne_iff_ne] at h
  obtain ⟨⟨⟨⟨hany, hall⟩, hconstant⟩, hkeyword⟩, hsingle⟩ := h
  obtain ⟨c, hc, hnumeral⟩ := List.any_eq_true.mp hany
  replace hnumeral : ¬IsNumeralChar c := by simpa using hnumeral
  exact {
    nonempty := List.ne_nil_of_mem hc
    bare := List.all_eq_true.mp hall
    notConstant := hconstant
    notKeyword := hkeyword
    notSingleQuote := hsingle
    notWhole := fun _ _ hwhole => hnumeral (isNumeralChar_of_isWhole hwhole c hc)
    notPointed := fun _ _ _ hpointed => hnumeral (isNumeralChar_of_isPointed hpointed c hc) }

/-- **The program text of an infinity is the name of a symbol.** -/
theorem isSymbolName_infinite (negative : Bool) :
    IsSymbolName (FloatStyle.source.render (.infinite negative)).toList := by
  apply isSymbolName_of_isPlainName
  cases negative <;> decide

end EntityLisp
