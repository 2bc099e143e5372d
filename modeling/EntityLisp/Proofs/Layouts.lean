import EntityLisp.Proofs.SourceTokens

/-!
# Layouts of tokens

The other side of cutting a text into tokens: what can stand between the tokens of a list, so that
the text is cut into this list again.

* `IsWellFormed`: what a token is, said position by position; `isToken_iff` equates it with the
  test that runs along the token.
* `Layout`: well-formed tokens with gaps before, between and behind them, where two atoms have a
  gap that is not empty between them. A gap is a mix of blanks and comments.
* `tokenize_eq_ok_iff_layout`: **a text is cut into the tokens of its layouts,** which all have the
  same ones, and has an unclosed quote if and only if it has no layout.
-/

namespace EntityLisp

/-! ### Well-formed tokens -/

/-- **A word, position by position:** it is not empty, its quotes come in pairs, and no separator
stands behind an even number of them. -/
structure IsWord (word : List Char) : Prop where
  nonempty : word ≠ []
  paired : word.count '"' % 2 = 0
  bare : ∀ before c after, word = before ++ c :: after → before.count '"' % 2 = 0 →
    isSeparator c = false

/-- **A well-formed token:** a parenthesis or a word. -/
def IsWellFormed (token : String) : Prop :=
  token = "(" ∨ token = ")" ∨ IsWord token.toList

/-- A token that is no parenthesis. -/
def IsAtom (token : String) : Prop := token ≠ "(" ∧ token ≠ ")"

/-- What holds at each position of a list holds at the first and at each behind it. -/
theorem forall_split_cons {α : Type} {first : α} {rest : List α} {P : List α → α → Prop} :
    (∀ before c after, first :: rest = before ++ c :: after → P before c) ↔
      P [] first ∧ ∀ before c after, rest = before ++ c :: after → P (first :: before) c := by
  constructor
  · intro h
    refine ⟨h [] first rest rfl, fun before c after heq => h (first :: before) c after ?_⟩
    rw [heq, List.cons_append]
  · rintro ⟨hfirst, hrest⟩ before c after heq
    cases before with
    | nil =>
      obtain ⟨rfl, -⟩ := List.cons.inj heq
      exact hfirst
    | cons other before =>
      obtain ⟨rfl, htail⟩ := List.cons.inj heq
      exact hrest before c after htail

/-- The test that runs along a text counts the quotes. -/
theorem isWordFrom_iff {quoted : Bool} {word : List Char} :
    isWordFrom quoted word = true ↔
      (word.count '"' + quoted.toNat) % 2 = 0 ∧
        ∀ before c after, word = before ++ c :: after →
          (before.count '"' + quoted.toNat) % 2 = 0 → isSeparator c = false := by
  induction word generalizing quoted with
  | nil => cases quoted <;> simp [isWordFrom]
  | cons first rest ih =>
    rw [forall_split_cons (P := fun before c =>
      (before.count '"' + quoted.toNat) % 2 = 0 → isSeparator c = false)]
    by_cases hquote : first = '"'
    · subst hquote
      -- one quote more is the same as to begin on the other side of a quote
      have hparity (n : Nat) : (n + 1 + quoted.toNat) % 2 = 0 ↔ (n + (!quoted).toNat) % 2 = 0 := by
        cases quoted with
        | false => simp only [Bool.not_false, Bool.toNat_true, Bool.toNat_false, Nat.add_zero]
        | true =>
          simp only [Bool.not_true, Bool.toNat_true, Bool.toNat_false]
          omega
      have hsep : isSeparator '"' = false := by decide
      simp only [isWordFrom_cons_quote, ih, List.count_cons_self, hparity, hsep, implies_true,
        true_and]
    · have hcount (chars : List Char) : (first :: chars).count '"' = chars.count '"' :=
        List.count_cons_of_ne hquote
      have hfirst : (quoted || !isSeparator first) = true ↔
          (([] : List Char).count '"' + quoted.toNat) % 2 = 0 → isSeparator first = false := by
        cases quoted <;> simp
      simp only [isWordFrom_cons_of_ne hquote, Bool.and_eq_true, ih, hcount, ← hfirst]
      exact and_left_comm

/-- **The tokens that the test accepts** are the well-formed ones. -/
theorem isToken_iff {token : String} : IsToken token ↔ IsWellFormed token := by
  have hword : token.toList ≠ [] ∧ isWordFrom false token.toList = true ↔
      IsWord token.toList := by
    rw [isWordFrom_iff]
    exact ⟨fun ⟨hne, hpaired, hbare⟩ => ⟨hne, hpaired, hbare⟩,
      fun h => ⟨h.nonempty, h.paired, h.bare⟩⟩
  rw [IsToken, IsWellFormed, hword]

theorem IsWord.isWordFrom {word : List Char} (h : IsWord word) : isWordFrom false word = true :=
  isWordFrom_iff.mpr ⟨h.paired, h.bare⟩

/-- A well-formed token is an atom, which is a word, or a parenthesis. -/
theorem IsWellFormed.isWord {token : String} (h : IsWellFormed token) (hatom : IsAtom token) :
    IsWord token.toList :=
  (h.resolve_left hatom.1).resolve_left hatom.2

/-- A token that is no atom is a parenthesis. -/
theorem exists_paren {token : String} (h : ¬IsAtom token) :
    ∃ c, (c = '(' ∨ c = ')') ∧ token = c.toString := by
  by_cases hopen : token = "("
  · exact ⟨'(', Or.inl rfl, hopen⟩
  · exact ⟨')', Or.inr rfl, by_contra fun hclose => h ⟨hopen, hclose⟩⟩

theorem isSeparator_of_paren {c : Char} (h : c = '(' ∨ c = ')') : isSeparator c = true := by
  rcases h with rfl | rfl <;> decide

/-- A word does not begin with a separator. -/
theorem IsWord.head_ne {word : List Char} (h : IsWord word) :
    ∀ c ∈ word.head?, isSeparator c = false := by
  intro c hc
  obtain ⟨rest, rfl⟩ := List.head?_eq_some_iff.mp hc
  exact h.bare [] c rest rfl rfl

/-! ### Gaps -/

/-- **A gap:** any mix of blanks and of comments, each with the line end that closes it. -/
inductive IsGap : List Char → Prop where
  | nil : IsGap []
  | blank {c : Char} {gap : List Char} (hblank : isBlank c = true) (hgap : IsGap gap) :
      IsGap (c :: gap)
  | comment {body gap : List Char} (hbody : '\n' ∉ body) (hgap : IsGap gap) :
      IsGap (';' :: (body ++ '\n' :: gap))

/-- **What can stand behind the last token:** a gap, or a gap and a comment that goes to the end of
the text. -/
inductive IsLastGap : List Char → Prop where
  | gap {gap : List Char} (hgap : IsGap gap) : IsLastGap gap
  | openComment {gap body : List Char} (hgap : IsGap gap) (hbody : '\n' ∉ body) :
      IsLastGap (gap ++ ';' :: body)

theorem IsGap.append {first second : List Char} (hfirst : IsGap first) (hsecond : IsGap second) :
    IsGap (first ++ second) := by
  induction hfirst with
  | nil => exact hsecond
  | blank hblank _ ih => exact .blank hblank ih
  | comment hbody _ ih =>
    rw [List.cons_append, List.append_assoc, List.cons_append]
    exact .comment hbody ih

theorem IsLastGap.append {gap last : List Char} (hgap : IsGap gap) (hlast : IsLastGap last) :
    IsLastGap (gap ++ last) := by
  cases hlast with
  | gap hlast => exact .gap (hgap.append hlast)
  | openComment hlast hbody =>
    rw [← List.append_assoc]
    exact .openComment (hgap.append hlast) hbody

theorem isSeparator_of_isBlank {c : Char} (h : isBlank c = true) : isSeparator c = true := by
  simp [isSeparator, h]

/-- A gap begins with a separator unless it is empty. -/
theorem IsGap.head_isSeparator {gap : List Char} (h : IsGap gap) :
    ∀ c ∈ gap.head?, isSeparator c = true := by
  intro c hc
  cases h with
  | nil => cases hc
  | blank hblank _ =>
    obtain rfl := Option.some.inj hc
    exact isSeparator_of_isBlank hblank
  | comment _ _ =>
    obtain rfl := Option.some.inj hc
    decide

theorem IsLastGap.head_isSeparator {last : List Char} (h : IsLastGap last) :
    ∀ c ∈ last.head?, isSeparator c = true := by
  cases h with
  | gap hgap => exact hgap.head_isSeparator
  | @openComment gap body hgap _ =>
    intro c hc
    cases gap with
    | nil =>
      obtain rfl := Option.some.inj hc
      decide
    | cons d gap => exact hgap.head_isSeparator c hc

/-! ### Cutting a gap -/

theorem tokensFrom_cons_blank {c : Char} (h : isBlank c = true) (rest : List Char) :
    tokensFrom .plain [] (c :: rest) = tokensFrom .plain [] rest := by
  have hcomment : c ≠ ';' := by
    rintro rfl
    exact absurd h (by decide)
  have hparen : ¬(c = '(' ∨ c = ')') := by
    rintro (rfl | rfl)
    · exact absurd h (by decide)
    · exact absurd h (by decide)
  rw [tokensFrom_cons_of_separator (isSeparator_of_isBlank h), modeBehind, if_neg hcomment,
    ownToken, if_neg hparen]
  cases tokensFrom .plain [] rest <;> rfl

theorem tokensFrom_cons_semicolon (rest : List Char) :
    tokensFrom .plain [] (';' :: rest) = tokensFrom .comment [] rest := by
  rw [tokensFrom_cons_of_separator (by decide), modeBehind, if_pos rfl]
  cases tokensFrom .comment [] rest <;> rfl

/-- The characters of a comment are passed over. -/
theorem tokensFrom_comment_append {body : List Char} (h : '\n' ∉ body) (rest : List Char) :
    tokensFrom .comment [] (body ++ rest) = tokensFrom .comment [] rest := by
  induction body with
  | nil => rfl
  | cons c body ih =>
    rw [List.mem_cons, not_or] at h
    rw [List.cons_append, tokensFrom, if_neg (Ne.symm h.1), ih h.2]

/-- **A gap is passed over.** -/
theorem tokensFrom_gap_append {gap : List Char} (h : IsGap gap) (rest : List Char) :
    tokensFrom .plain [] (gap ++ rest) = tokensFrom .plain [] rest := by
  induction h with
  | nil => rfl
  | blank hblank _ ih => rw [List.cons_append, tokensFrom_cons_blank hblank, ih]
  | comment hbody _ ih =>
    rw [List.cons_append, List.append_assoc, tokensFrom_cons_semicolon,
      tokensFrom_comment_append hbody, List.cons_append, tokensFrom, if_pos rfl, ih]

theorem tokensFrom_lastGap {last : List Char} (h : IsLastGap last) :
    tokensFrom .plain [] last = .ok [] := by
  cases h with
  | gap hgap =>
    have hcut := tokensFrom_gap_append hgap []
    rwa [List.append_nil] at hcut
  | @openComment gap body hgap hbody =>
    have hcut := tokensFrom_comment_append hbody []
    rw [List.append_nil] at hcut
    rw [tokensFrom_gap_append hgap, tokensFrom_cons_semicolon, hcut]
    rfl

/-! ### Layouts -/

/-- **A well-formed token and the gap in front of it.** -/
structure PlacedToken where
  gap : List Char
  token : String
  isGap : IsGap gap
  isWellFormed : IsWellFormed token

/-- The text of a placed token with its gap. -/
def PlacedToken.chars (placed : PlacedToken) : List Char := placed.gap ++ placed.token.toList

/-- **A layout:** placed tokens and what stands behind the last of them. The gap between two atoms
is not empty. -/
structure Layout where
  placed : List PlacedToken
  last : List Char
  isLastGap : IsLastGap last
  apart : placed.IsChain fun before behind =>
    IsAtom before.token → IsAtom behind.token → behind.gap ≠ []

namespace Layout

/-- The tokens that a layout writes. -/
def tokens (layout : Layout) : List String := layout.placed.map (·.token)

/-- The characters of a layout. -/
def chars (layout : Layout) : List Char := layout.placed.flatMap PlacedToken.chars ++ layout.last

/-- **The text of a layout.** -/
def text (layout : Layout) : String := String.ofList layout.chars

theorem chars_eq_toList_iff {layout : Layout} {text : String} :
    layout.text = text ↔ layout.chars = text.toList := by
  constructor
  · rintro rfl
    rw [Layout.text, String.toList_ofList]
  · intro h
    rw [Layout.text, h, String.ofList_toList]

/-! ### A layout is cut into its tokens -/

/-- What follows an atom in a layout is a separator or the end. -/
theorem head_behind_atom {first : PlacedToken} {rest : List PlacedToken} {last : List Char}
    (hlast : IsLastGap last) (hatom : IsAtom first.token)
    (hapart : (first :: rest).IsChain fun before behind =>
      IsAtom before.token → IsAtom behind.token → behind.gap ≠ []) :
    ∀ c ∈ (rest.flatMap PlacedToken.chars ++ last).head?, isSeparator c = true := by
  intro c hc
  cases rest with
  | nil => exact hlast.head_isSeparator c hc
  | cons next rest =>
    have hgap := List.IsChain.rel hapart hatom
    rw [List.flatMap_cons, PlacedToken.chars, List.append_assoc, List.append_assoc] at hc
    cases hnext : next.gap with
    | cons d gap =>
      rw [hnext] at hc
      obtain rfl := Option.some.inj hc
      exact next.isGap.head_isSeparator d (by rw [hnext]; rfl)
    | nil =>
      -- without a gap the next token is a parenthesis
      obtain ⟨d, hparen, htoken⟩ := exists_paren fun hatom => hgap hatom hnext
      rw [hnext, htoken, Char.toString_eq_singleton, String.toList_singleton] at hc
      obtain rfl := Option.some.inj hc
      exact isSeparator_of_paren hparen

theorem tokensFrom_placed {placed : List PlacedToken} {last : List Char} (hlast : IsLastGap last)
    (hapart : placed.IsChain fun before behind =>
      IsAtom before.token → IsAtom behind.token → behind.gap ≠ []) :
    tokensFrom .plain [] (placed.flatMap PlacedToken.chars ++ last) =
      .ok (placed.map (·.token)) := by
  induction placed with
  | nil => exact tokensFrom_lastGap hlast
  | cons first rest ih =>
    have hrest := ih (List.IsChain.tail hapart)
    rw [List.flatMap_cons, PlacedToken.chars, List.append_assoc, List.append_assoc,
      tokensFrom_gap_append first.isGap, List.map_cons]
    by_cases hatom : IsAtom first.token
    · have hword := first.isWellFormed.isWord hatom
      rw [isCutInto_word hword.nonempty hword.isWordFrom _ (head_behind_atom hlast hatom hapart),
        hrest, String.ofList_toList]
      rfl
    · obtain ⟨c, hparen, htoken⟩ := exists_paren hatom
      rw [htoken, Char.toString_eq_singleton, String.toList_singleton, List.singleton_append,
        tokensFrom_cons_paren hparen, hrest]
      rfl

/-- **A layout is cut into its tokens.** -/
theorem tokenize_text (layout : Layout) : tokenize layout.text = .ok layout.tokens := by
  rw [tokenize, text, String.toList_ofList]
  exact tokensFrom_placed layout.isLastGap layout.apart

/-! ### Building a layout from the front -/

/-- The layout with more of a gap in front of it. -/
def prependGap (layout : Layout) (gap : List Char) (hgap : IsGap gap) : Layout :=
  match layout with
  | ⟨[], last, isLastGap, apart⟩ => ⟨[], gap ++ last, isLastGap.append hgap, apart⟩
  | ⟨first :: rest, last, isLastGap, apart⟩ =>
    ⟨{ first with gap := gap ++ first.gap, isGap := hgap.append first.isGap } :: rest, last,
      isLastGap, by
        cases rest with
        | nil => exact .singleton _
        | cons next rest => exact .cons_cons (List.IsChain.rel apart) (List.IsChain.tail apart)⟩

theorem tokens_prependGap (layout : Layout) {gap : List Char} (hgap : IsGap gap) :
    (layout.prependGap gap hgap).tokens = layout.tokens := by
  obtain ⟨placed, last, isLastGap, apart⟩ := layout
  cases placed <;> rfl

theorem chars_prependGap (layout : Layout) {gap : List Char} (hgap : IsGap gap) :
    (layout.prependGap gap hgap).chars = gap ++ layout.chars := by
  obtain ⟨placed, last, isLastGap, apart⟩ := layout
  cases placed with
  | nil => rfl
  | cons first rest =>
    simp only [prependGap, chars, List.flatMap_cons, PlacedToken.chars, List.append_assoc]

/-- **The layout with a token in front of it.** It needs no gap if the layout is empty or begins
with a separator, or if the token is a parenthesis. -/
def prependToken (layout : Layout) (token : String) (hword : IsWellFormed token)
    (hapart : IsAtom token → ∀ c ∈ layout.chars.head?, isSeparator c = true) : Layout where
  placed := ⟨[], token, .nil, hword⟩ :: layout.placed
  last := layout.last
  isLastGap := layout.isLastGap
  apart := by
    obtain ⟨placed, last, isLastGap, apart⟩ := layout
    cases placed with
    | nil => exact .singleton _
    | cons next rest =>
      refine .cons_cons (fun hatom hnext hempty => ?_) apart
      -- the word behind an empty gap would begin with a separator
      have hnextWord := next.isWellFormed.isWord hnext
      obtain ⟨c, word, hchars⟩ := List.exists_cons_of_ne_nil hnextWord.nonempty
      have hhead : c ∈ (chars ⟨next :: rest, last, isLastGap, apart⟩).head? := by
        simp [chars, PlacedToken.chars, hempty, hchars]
      have hbare := hnextWord.head_ne c (by rw [hchars]; rfl)
      exact absurd (hapart hatom c hhead) (by rw [hbare]; decide)

theorem chars_prependToken (layout : Layout) {token : String} (hword : IsWellFormed token)
    (hapart : IsAtom token → ∀ c ∈ layout.chars.head?, isSeparator c = true) :
    (layout.prependToken token hword hapart).chars = token.toList ++ layout.chars := by
  simp only [prependToken, chars, List.flatMap_cons, PlacedToken.chars, List.nil_append,
    List.append_assoc]

end Layout

/-- Whether characters are a layout of tokens. -/
def IsLaidOut (chars : List Char) (tokens : List String) : Prop :=
  ∃ layout : Layout, layout.chars = chars ∧ layout.tokens = tokens

theorem IsLastGap.isLaidOut {last : List Char} (h : IsLastGap last) : IsLaidOut last [] :=
  ⟨⟨[], last, h, .nil⟩, rfl, rfl⟩

theorem IsLaidOut.gap_append {gap chars : List Char} {tokens : List String} (hgap : IsGap gap)
    (h : IsLaidOut chars tokens) : IsLaidOut (gap ++ chars) tokens := by
  obtain ⟨layout, rfl, rfl⟩ := h
  exact ⟨layout.prependGap gap hgap, layout.chars_prependGap hgap, layout.tokens_prependGap hgap⟩

theorem IsLaidOut.paren_cons {c : Char} {chars : List Char} {tokens : List String}
    (hparen : c = '(' ∨ c = ')') (h : IsLaidOut chars tokens) :
    IsLaidOut (c :: chars) (c.toString :: tokens) := by
  obtain ⟨layout, rfl, rfl⟩ := h
  have hword : IsWellFormed c.toString := by
    rcases hparen with rfl | rfl
    · exact Or.inl rfl
    · exact Or.inr (Or.inl rfl)
  have hnotAtom : ¬IsAtom c.toString := by
    rcases hparen with rfl | rfl
    · exact fun hatom => hatom.1 rfl
    · exact fun hatom => hatom.2 rfl
  refine ⟨layout.prependToken c.toString hword fun hatom => absurd hatom hnotAtom, ?_, rfl⟩
  rw [layout.chars_prependToken, Char.toString_eq_singleton, String.toList_singleton]
  rfl

theorem IsLaidOut.word_append {word chars : List Char} {tokens : List String} (hne : word ≠ [])
    (hword : isWordFrom false word = true) (hbehind : ∀ c ∈ chars.head?, isSeparator c = true)
    (h : IsLaidOut chars tokens) : IsLaidOut (word ++ chars) (String.ofList word :: tokens) := by
  obtain ⟨layout, rfl, rfl⟩ := h
  have hwell : IsWellFormed (String.ofList word) := by
    refine isToken_iff.mp (Or.inr (Or.inr ?_))
    rw [String.toList_ofList]
    exact ⟨hne, hword⟩
  refine ⟨layout.prependToken _ hwell fun _ => hbehind, ?_, rfl⟩
  rw [layout.chars_prependToken, String.toList_ofList]

/-! ### A text that is cut has a layout -/

/-- **The longest word at the front** of a text that can be cut. -/
theorem exists_word_append {quoted : Bool} {pending chars : List Char} {tokens : List String}
    (h : tokensFrom (.ofQuoted quoted) pending chars = .ok tokens) :
    ∃ word rest, chars = word ++ rest ∧ isWordFrom quoted word = true ∧
      ∀ c ∈ rest.head?, isSeparator c = true := by
  induction chars generalizing quoted pending with
  | nil =>
    cases quoted with
    | true => cases h
    | false => exact ⟨[], [], rfl, rfl, by simp⟩
  | cons c chars ih =>
    by_cases hword : c = '"' ∨ (quoted || !isSeparator c) = true
    · rw [tokensFrom_cons_of_word hword] at h
      obtain ⟨word, rest, rfl, hrest, hbehind⟩ := ih h
      refine ⟨c :: word, rest, rfl, ?_, hbehind⟩
      by_cases hquote : c = '"'
      · rw [if_pos hquote] at hrest
        rw [hquote, isWordFrom_cons_quote, hrest]
      · rw [if_neg hquote] at hrest
        rw [isWordFrom_cons_of_ne hquote, hrest, hword.resolve_left hquote]
        rfl
    · -- the word ends in front of a separator outside quotes
      rw [not_or, Bool.not_eq_true, Bool.or_eq_false_iff, Bool.not_eq_false'] at hword
      obtain ⟨-, rfl, hsep⟩ := hword
      refine ⟨[], c :: chars, rfl, rfl, fun d hd => ?_⟩
      obtain rfl := Option.some.inj hd
      exact hsep

/-- A comment ends with its line or with the text. -/
theorem split_comment (chars : List Char) :
    '\n' ∉ chars ∨ ∃ body rest, '\n' ∉ body ∧ chars = body ++ '\n' :: rest := by
  by_cases h : '\n' ∈ chars
  · obtain ⟨body, rest, rfl, hbody⟩ := List.eq_append_cons_of_mem h
    exact Or.inr ⟨body, rest, hbody, rfl⟩
  · exact Or.inl h

/-- **A text that is cut is a layout** of its tokens. -/
theorem isLaidOut_of_tokensFrom {chars : List Char} {tokens : List String}
    (h : tokensFrom .plain [] chars = .ok tokens) : IsLaidOut chars tokens := by
  -- by the length of the text: a blank, a comment, a parenthesis or a word is taken off its front
  induction hlength : chars.length using Nat.strong_induction_on generalizing chars tokens with
  | _ length ih =>
  subst hlength
  cases chars with
  | nil =>
    cases h
    exact (IsLastGap.gap .nil).isLaidOut
  | cons c rest =>
    by_cases hblank : isBlank c = true
    · rw [tokensFrom_cons_blank hblank] at h
      exact (ih rest.length (by simp) h rfl).gap_append (.blank hblank .nil)
    by_cases hcomment : c = ';'
    · subst hcomment
      rcases split_comment rest with hbody | ⟨body, rest, hbody, rfl⟩
      · have hlast : IsLastGap (';' :: rest) := .openComment .nil hbody
        rw [tokensFrom_lastGap hlast] at h
        cases h
        exact hlast.isLaidOut
      · have hgap : IsGap (';' :: (body ++ ['\n'])) := .comment hbody .nil
        have hchars : ';' :: (body ++ '\n' :: rest) = (';' :: (body ++ ['\n'])) ++ rest := by simp
        rw [hchars, tokensFrom_gap_append hgap] at h
        rw [hchars]
        exact (ih rest.length (by simp; omega) h rfl).gap_append hgap
    by_cases hparen : c = '(' ∨ c = ')'
    · rw [tokensFrom_cons_paren hparen] at h
      obtain ⟨tail, htail, rfl⟩ := Except.map_eq_ok_iff.mp h
      exact (ih rest.length (by simp) htail rfl).paren_cons hparen
    · have hplain : tokensFrom (.ofQuoted false) [] (c :: rest) = .ok tokens := h
      obtain ⟨word, behind, hchars, hword, hbehind⟩ := exists_word_append hplain
      have hbare : isSeparator c = false := by
        rw [not_or] at hparen
        simp [isSeparator, hblank, hcomment, hparen]
      have hne : word ≠ [] := by
        rintro rfl
        rw [List.nil_append] at hchars
        exact absurd (hbehind c (by rw [← hchars]; rfl)) (by rw [hbare]; decide)
      have hshorter : behind.length < (c :: rest).length := by
        rw [hchars, List.length_append]
        exact Nat.lt_add_of_pos_left (List.length_pos_iff.mpr hne)
      rw [hchars, isCutInto_word hne hword behind hbehind] at h
      obtain ⟨tail, htail, rfl⟩ := Except.map_eq_ok_iff.mp h
      rw [hchars]
      exact (ih behind.length hshorter htail rfl).word_append hne hword hbehind

/-! ### The tokens of a text and its layouts -/

/-- A text that cannot be cut ends inside quotes. -/
theorem tokensFrom_error {mode : TextMode} {pending chars : List Char} {fault : SyntaxError}
    (h : tokensFrom mode pending chars = .error fault) : fault = .unclosedQuote := by
  induction chars generalizing mode pending with
  | nil =>
    cases mode with
    | quoted =>
      cases h
      rfl
    | plain => cases h
    | comment => cases h
  | cons c rest ih =>
    cases mode with
    | comment =>
      rw [tokensFrom] at h
      exact ih h
    | quoted =>
      rw [tokensFrom] at h
      exact ih h
    | plain =>
      by_cases hword : c = '"' ∨ (false || !isSeparator c) = true
      · exact ih (tokensFrom_cons_of_word hword pending rest ▸ h)
      · rw [not_or] at hword
        rw [tokensFrom_cons_of_separator (by simpa using hword.2)] at h
        exact ih (Except.map_eq_error_iff.mp h)

/-- **A text is cut into the tokens of its layouts.** All layouts of a text have the same tokens,
and a text without a layout is one with an unclosed quote; there is no other fault. -/
theorem tokenize_eq_ok_iff_layout (text : String) :
    (∀ tokens, tokenize text = .ok tokens ↔
      ∃ layout : Layout, layout.text = text ∧ layout.tokens = tokens) ∧
    (∀ layout layout' : Layout, layout.text = text → layout'.text = text →
      layout.tokens = layout'.tokens) ∧
    (tokenize text = .error .unclosedQuote ↔ ∀ layout : Layout, layout.text ≠ text) ∧
    ∀ fault, tokenize text = .error fault → fault = .unclosedQuote := by
  have hcut (tokens : List String) : tokenize text = .ok tokens ↔
      ∃ layout : Layout, layout.text = text ∧ layout.tokens = tokens := by
    constructor
    · intro h
      obtain ⟨layout, hchars, htokens⟩ := isLaidOut_of_tokensFrom h
      exact ⟨layout, Layout.chars_eq_toList_iff.mpr hchars, htokens⟩
    · rintro ⟨layout, rfl, rfl⟩
      exact layout.tokenize_text
  have hfault (fault : SyntaxError) (h : tokenize text = .error fault) : fault = .unclosedQuote :=
    tokensFrom_error h
  refine ⟨hcut, fun layout layout' h h' => ?_, ⟨fun h layout hlayout => ?_, fun h => ?_⟩, hfault⟩
  · have hfirst := layout.tokenize_text
    rw [h, ← h', layout'.tokenize_text] at hfirst
    exact (Except.ok.inj hfirst).symm
  · rw [← hlayout, layout.tokenize_text] at h
    cases h
  · cases hresult : tokenize text with
    | error fault => rw [hfault fault hresult]
    | ok tokens =>
      obtain ⟨layout, hlayout, -⟩ := (hcut tokens).mp hresult
      exact absurd hlayout (h layout)

/-- A semicolon and blanks in quotes, quotes in a comment and in the middle of an atom, and an open
comment at the end; and a text that ends inside quotes. -/
theorem tokenize_eq_ok_iff_layout_join :
    (tokenize "(join;\"\n a\"; b\"c)\t;d" = .ok ["(", "join", "a\"; b\"c", ")"] ∧
      ∃ layout : Layout, layout.text = "(join;\"\n a\"; b\"c)\t;d" ∧
        layout.tokens = ["(", "join", "a\"; b\"c", ")"] ∧
        ∀ layout' : Layout, layout'.text = "(join;\"\n a\"; b\"c)\t;d" →
          layout.tokens = layout'.tokens) ∧
    tokenize "(join \"a;\n)" = .error .unclosedQuote ∧
      ∀ layout : Layout, layout.text ≠ "(join \"a;\n)" := by
  have hjoin : tokenize "(join;\"\n a\"; b\"c)\t;d" = .ok ["(", "join", "a\"; b\"c", ")"] := by
    decide +kernel
  have hopen : tokenize "(join \"a;\n)" = .error .unclosedQuote := by decide +kernel
  obtain ⟨hcut, hunique, -, -⟩ := tokenize_eq_ok_iff_layout "(join;\"\n a\"; b\"c)\t;d"
  obtain ⟨layout, htext, htokens⟩ := (hcut _).mp hjoin
  exact ⟨⟨hjoin, layout, htext, htokens, fun layout' htext' => hunique layout layout' htext htext'⟩,
    hopen, (tokenize_eq_ok_iff_layout "(join \"a;\n)").2.2.1.mp hopen⟩

end EntityLisp
