import EntityLisp.Proofs.Results
import EntityLisp.Token

/-!
# Words of program text

Every token of a text is a parenthesis or a word: a run of characters in which the quotes come in
pairs and no blank, parenthesis or semicolon stands outside of them.

* `tokensFrom_word_append`: a word that stands in a text is taken up as a whole by the token that
  is pending in front of it.
* `isToken_of_tokenize`: the tokens of a text are parentheses and non-empty words.
-/

namespace EntityLisp

/-! ### Words -/

/-- Whether a character ends the token in front of it when it stands outside quotes. -/
def isSeparator (c : Char) : Bool := isBlank c || c == '(' || c == ')' || c == ';'

/-- Whether a text can be the rest of a word, where `quoted` says whether it begins inside
quotes. -/
def isWordFrom : (quoted : Bool) → List Char → Bool
  | quoted, [] => !quoted
  | quoted, c :: rest =>
    if c = '"' then isWordFrom (!quoted) rest
    else (quoted || !isSeparator c) && isWordFrom quoted rest

/-- **The text of a token:** a parenthesis or a non-empty word. -/
def IsToken (token : String) : Prop :=
  token = "(" ∨ token = ")" ∨ (token.toList ≠ [] ∧ isWordFrom false token.toList = true)

/-- A character of a bare word, which is neither a separator nor a quote. -/
def isBareChar (c : Char) : Bool := !isSeparator c && c != '"'

theorem isWordFrom_cons_quote (quoted : Bool) (rest : List Char) :
    isWordFrom quoted ('"' :: rest) = isWordFrom (!quoted) rest := by simp [isWordFrom]

theorem isWordFrom_cons_of_ne {c : Char} (h : c ≠ '"') (quoted : Bool) (rest : List Char) :
    isWordFrom quoted (c :: rest) = ((quoted || !isSeparator c) && isWordFrom quoted rest) := by
  simp [isWordFrom, h]

/-- A run of bare characters is a word. -/
theorem isWordFrom_of_bare {word : List Char} (h : ∀ c ∈ word, isBareChar c = true) :
    isWordFrom false word = true := by
  induction word with
  | nil => rfl
  | cons c rest ih =>
    have hc := h c List.mem_cons_self
    simp only [isBareChar, Bool.and_eq_true, bne_iff_ne, ne_eq] at hc
    rw [isWordFrom_cons_of_ne hc.2, hc.1, ih fun d hd => h d (List.mem_cons_of_mem c hd)]
    rfl

/-- A word without quotes is a run of bare characters. -/
theorem bare_of_isWordFrom {word : List Char} (h : isWordFrom false word = true)
    (hquote : '"' ∉ word) : ∀ c ∈ word, isBareChar c = true := by
  induction word with
  | nil => simp
  | cons c rest ih =>
    have hc : c ≠ '"' := fun heq => hquote (by simp [heq])
    rw [isWordFrom_cons_of_ne hc, Bool.false_or, Bool.and_eq_true] at h
    intro d hd
    rcases List.mem_cons.mp hd with rfl | hd
    · simp [isBareChar, h.1, hc]
    · exact ih h.2 (fun hmem => hquote (List.mem_cons_of_mem c hmem)) d hd

/-- A text without quotes is a word once it stands in quotes. -/
theorem isWordFrom_quoted {text : List Char} (h : '"' ∉ text) :
    isWordFrom false ('"' :: (text ++ ['"'])) = true := by
  rw [isWordFrom_cons_quote]
  induction text with
  | nil => rfl
  | cons c rest ih =>
    rw [List.mem_cons, not_or] at h
    rw [List.cons_append, isWordFrom_cons_of_ne (Ne.symm h.1), ih h.2]
    rfl

/-! ### A word in a text -/

/-- The state inside or outside quotes in which a text is cut. -/
def TextMode.ofQuoted (quoted : Bool) : TextMode := if quoted then .quoted else .plain

/-- One character of a word joins the pending token. -/
theorem tokensFrom_cons_of_word {quoted : Bool} {c : Char}
    (h : c = '"' ∨ (quoted || !isSeparator c) = true) (pending rest : List Char) :
    tokensFrom (.ofQuoted quoted) pending (c :: rest) =
      tokensFrom (.ofQuoted (if c = '"' then !quoted else quoted)) (c :: pending) rest := by
  cases quoted with
  | true =>
    by_cases hc : c = '"' <;> simp [TextMode.ofQuoted, tokensFrom, hc]
  | false =>
    by_cases hc : c = '"'
    · simp [TextMode.ofQuoted, tokensFrom, hc]
    · have hsep : isSeparator c = false := by simpa [hc] using h
      simp only [isSeparator, Bool.or_eq_false_iff, beq_eq_false_iff_ne] at hsep
      obtain ⟨⟨⟨hblank, hopen⟩, hclose⟩, hcomment⟩ := hsep
      simp [TextMode.ofQuoted, tokensFrom, hc, hblank, hopen, hclose, hcomment]

/-- **A word is taken up as a whole** by the token that is pending in front of it. -/
theorem tokensFrom_word_append {quoted : Bool} {word : List Char}
    (h : isWordFrom quoted word = true) (pending rest : List Char) :
    tokensFrom (.ofQuoted quoted) pending (word ++ rest) =
      tokensFrom .plain (word.reverse ++ pending) rest := by
  induction word generalizing quoted pending with
  | nil =>
    have hquoted : quoted = false := by simpa [isWordFrom] using h
    rw [hquoted]
    rfl
  | cons c word ih =>
    have hchar : c = '"' ∨ (quoted || !isSeparator c) = true := by
      by_cases hc : c = '"'
      · exact Or.inl hc
      · rw [isWordFrom_cons_of_ne hc, Bool.and_eq_true] at h
        exact Or.inr h.1
    -- a quote opens or closes the quotes, any other character leaves them as they are
    have hrest : isWordFrom (if c = '"' then !quoted else quoted) word = true := by
      by_cases hc : c = '"'
      · subst hc
        rwa [isWordFrom_cons_quote] at h
      · rw [isWordFrom_cons_of_ne hc, Bool.and_eq_true] at h
        rw [if_neg hc]
        exact h.2
    rw [List.cons_append, tokensFrom_cons_of_word hchar, ih hrest, List.reverse_cons,
      List.append_assoc]
    rfl

/-! ### A separator in a text -/

/-- The token that a separator is itself, if it is a parenthesis. -/
def ownToken (c : Char) : List String := if c = '(' ∨ c = ')' then [c.toString] else []

/-- Where the character behind a separator stands. -/
def modeBehind (c : Char) : TextMode := if c = ';' then .comment else .plain

/-- **A separator completes the pending token.** -/
theorem tokensFrom_cons_of_separator {c : Char} (h : isSeparator c = true)
    (pending rest : List Char) :
    tokensFrom .plain pending (c :: rest) =
      (tokensFrom (modeBehind c) [] rest).map fun tokens =>
        flushToken pending (ownToken c ++ tokens) := by
  have hquote : c ≠ '"' := by
    rintro rfl
    exact absurd h (by decide)
  rw [tokensFrom, if_neg hquote]
  by_cases hcomment : c = ';'
  · subst hcomment
    rfl
  -- a blank vanishes, a parenthesis stays as a token of its own
  by_cases hblank : isBlank c = true
  · have hparen : ¬(c = '(' ∨ c = ')') := by
      rintro (rfl | rfl)
      · exact absurd hblank (by decide)
      · exact absurd hblank (by decide)
    simp [hcomment, hblank, hparen, modeBehind, ownToken]
  · have hparen : c = '(' ∨ c = ')' := by
      simpa [isSeparator, hblank, hcomment] using h
    simp [hcomment, hblank, hparen, modeBehind, ownToken]

theorem flushToken_reverse {word : List Char} (h : word ≠ []) (tokens : List String) :
    flushToken word.reverse tokens = String.ofList word :: tokens := by
  simp [flushToken, h]

/-! ### The tokens of a text are words -/

/-- Whether any rest of a word makes one with the pending token in front of it. -/
def IsWordBegun (quoted : Bool) (pending : List Char) : Prop :=
  ∀ rest, isWordFrom quoted rest = true → isWordFrom false (pending.reverse ++ rest) = true

theorem IsWordBegun.nil : IsWordBegun false [] := fun _ h => h

/-- A character that a word may hold goes on with the word begun. -/
theorem IsWordBegun.cons {quoted : Bool} {pending : List Char} {c : Char}
    (h : IsWordBegun quoted pending) (hc : c = '"' ∨ (quoted || !isSeparator c) = true) :
    IsWordBegun (if c = '"' then !quoted else quoted) (c :: pending) := by
  intro rest hrest
  rw [List.reverse_cons, List.append_assoc]
  refine h (c :: rest) ?_
  by_cases hquote : c = '"'
  · subst hquote
    rwa [isWordFrom_cons_quote]
  · rw [if_neg hquote] at hrest
    rw [isWordFrom_cons_of_ne hquote, hrest, hc.resolve_left hquote]
    rfl

theorem isToken_of_mem_flushToken {pending : List Char} {tokens : List String}
    (h : IsWordBegun false pending) (htokens : ∀ token ∈ tokens, IsToken token) :
    ∀ token ∈ flushToken pending tokens, IsToken token := by
  intro token hmem
  unfold flushToken at hmem
  split at hmem
  · exact htokens token hmem
  · next hpending =>
    rcases List.mem_cons.mp hmem with rfl | hmem
    · have hword := h [] rfl
      rw [List.append_nil] at hword
      refine Or.inr (Or.inr ⟨?_, ?_⟩)
      · simpa using hpending
      · rwa [String.toList_ofList]
    · exact htokens token hmem

theorem isToken_of_mem_ownToken {c : Char} {token : String} (h : token ∈ ownToken c) :
    IsToken token := by
  unfold ownToken at h
  split at h
  · next hparen =>
    obtain rfl := List.mem_singleton.mp h
    rcases hparen with rfl | rfl
    · exact Or.inl rfl
    · exact Or.inr (Or.inl rfl)
  · exact absurd h List.not_mem_nil

/-- What may be pending in each mode: a word begun, and nothing inside a comment. -/
def TextMode.Admits : TextMode → List Char → Prop
  | .plain, pending => IsWordBegun false pending
  | .quoted, pending => IsWordBegun true pending
  | .comment, pending => pending = []

theorem IsWordBegun.admits {quoted : Bool} {pending : List Char} (h : IsWordBegun quoted pending) :
    (TextMode.ofQuoted quoted).Admits pending := by
  cases quoted <;> exact h

theorem isToken_of_tokensFrom {mode : TextMode} {pending chars : List Char} {tokens : List String}
    (h : tokensFrom mode pending chars = .ok tokens) (hpending : mode.Admits pending) :
    ∀ token ∈ tokens, IsToken token := by
  -- what is pending is a word begun in every mode, so what is flushed is a word
  induction chars generalizing mode pending tokens with
  | nil =>
    cases mode with
    | plain =>
      cases h
      exact isToken_of_mem_flushToken hpending (by simp)
    | quoted => cases h
    | comment =>
      obtain rfl := hpending
      cases h
      simp [flushToken]
  | cons c rest ih =>
    cases mode with
    | comment =>
      obtain rfl := hpending
      rw [tokensFrom] at h
      refine ih h ?_
      split
      · exact IsWordBegun.nil
      · rfl
    | quoted =>
      have hchar : c = '"' ∨ (true || !isSeparator c) = true := Or.inr rfl
      exact ih (tokensFrom_cons_of_word hchar pending rest ▸ h) (hpending.cons hchar).admits
    | plain =>
      by_cases hword : c = '"' ∨ (false || !isSeparator c) = true
      · exact ih (tokensFrom_cons_of_word hword pending rest ▸ h) (hpending.cons hword).admits
      · -- A separator completes the pending word, and a parenthesis is a token of its own.
        have hsep : isSeparator c = true := by
          rw [not_or] at hword
          simpa using hword.2
        rw [tokensFrom_cons_of_separator hsep] at h
        obtain ⟨tail, htail, rfl⟩ := Except.map_eq_ok_iff.mp h
        refine isToken_of_mem_flushToken hpending fun token hmem => ?_
        rcases List.mem_append.mp hmem with hmem | hmem
        · exact isToken_of_mem_ownToken hmem
        · refine ih htail ?_ token hmem
          unfold modeBehind
          split
          · rfl
          · exact IsWordBegun.nil

/-- **The tokens of a text** are parentheses and non-empty words. -/
theorem isToken_of_tokenize {text : String} {tokens : List String}
    (h : tokenize text = .ok tokens) : ∀ token ∈ tokens, IsToken token :=
  isToken_of_tokensFrom h IsWordBegun.nil

end EntityLisp
