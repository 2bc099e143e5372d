import EntityLisp.Proofs.ReadBack
import EntityLisp.Proofs.Ensures

/-!
# Programs one after the other

A text that can be read and a text behind it on a line of its own: each of the three stages works
on the second as if it stood alone.

* `tokensFrom_append_newline`: the tokens of the second text follow those of the first, even if the
  first ends in an open comment.
* `readForms_append`: so do its forms.
* `evalSequence_append`: the second program goes on in the state in which the first has ended.
* `evaluateText_append_line`: **a program and one behind it run one after the other,** and nothing
  runs of a text that cannot be read.
-/

namespace EntityLisp

/-! ### Tokens -/

theorem flushToken_append (pending : List Char) (tokens more : List String) :
    flushToken pending (tokens ++ more) = flushToken pending tokens ++ more := by
  unfold flushToken
  split <;> rfl

/-- The same, behind a computation of tokens that may fail. -/
theorem map_flushToken_append (pending : List Char) (own tokens : List String)
    (result : Except SyntaxError (List String)) :
    (result.map (tokens ++ ·)).map (fun rest => flushToken pending (own ++ rest)) =
      result.map (flushToken pending (own ++ tokens) ++ ·) := by
  cases result with
  | error fault => rfl
  | ok more => simp only [Except.map, ← List.append_assoc, flushToken_append]

/-- **A line behind a text** that can be cut is cut as if it stood alone. -/
theorem tokensFrom_append_newline {mode : TextMode} {pending chars : List Char}
    {tokens : List String} (h : tokensFrom mode pending chars = .ok tokens)
    (hpending : mode = .comment → pending = []) (rest : List Char) :
    tokensFrom mode pending (chars ++ '\n' :: rest) =
      (tokensFrom .plain [] rest).map (tokens ++ ·) := by
  induction chars generalizing mode pending tokens with
  | nil =>
    cases mode with
    | plain =>
      cases h
      -- the line end completes what is pending
      rw [List.nil_append, tokensFrom_cons_of_separator (by decide)]
      simp only [modeBehind, ownToken, ← flushToken_append, List.nil_append]
      rfl
    | quoted => cases h
    | comment =>
      obtain rfl := hpending rfl
      cases h
      rw [List.nil_append, tokensFrom, if_pos rfl]
      cases tokensFrom .plain [] rest <;> rfl
  | cons c chars ih =>
    rw [List.cons_append]
    cases mode with
    | comment =>
      rw [tokensFrom] at h ⊢
      exact ih h fun _ => hpending rfl
    | quoted =>
      rw [tokensFrom] at h ⊢
      refine ih h fun hmode => ?_
      split at hmode <;> cases hmode
    | plain =>
      by_cases hword : c = '"' ∨ (false || !isSeparator c) = true
      · have hstep := tokensFrom_cons_of_word hword pending
        refine (hstep (chars ++ '\n' :: rest)).trans (ih (hstep chars ▸ h) fun hmode => ?_)
        unfold TextMode.ofQuoted at hmode
        split at hmode <;> cases hmode
      · have hsep : isSeparator c = true := by
          rw [not_or] at hword
          simpa using hword.2
        rw [tokensFrom_cons_of_separator hsep] at h ⊢
        obtain ⟨tail, htail, rfl⟩ := Except.map_eq_ok_iff.mp h
        rw [ih htail fun _ => rfl, map_flushToken_append]

/-! ### Forms -/

/-- More tokens behind a form do not matter while it is read. -/
theorem readItems_append {room : Nat} {items : List Node} {outer : List (List Node)}
    {tokens left : List String} {form : Node}
    (h : readItems room items outer tokens = (.ok form, left)) (more : List String) :
    readItems room items outer (tokens ++ more) = (.ok form, left ++ more) := by
  induction room, items, outer, tokens using readItems_induction with
  | ended room items outer => cases h
  | close_nil room items rest =>
    rw [readItems_close_nil] at h
    cases h
    rfl
  | close_cons room items around outer rest ih =>
    rw [readItems_close_cons] at h
    rw [List.cons_append, readItems_close_cons, ih h]
  | open_zero items outer rest =>
    rw [readItems_open_zero] at h
    cases h
  | open_succ room items outer rest ih =>
    rw [readItems_open_succ] at h
    rw [List.cons_append, readItems_open_succ, ih h]
  | atom room items outer rest token node hclose hopen hatom ih =>
    rw [readItems_atom hclose hopen hatom] at h
    rw [List.cons_append, readItems_atom hclose hopen hatom, ih h]
  | fault room items outer rest token error hclose hopen hatom =>
    rw [readItems_fault hclose hopen hatom] at h
    cases h

theorem readForm_append [Stack] {tokens left : List String} {form : Node}
    (h : readForm tokens = (.ok form, left)) (more : List String) :
    readForm (tokens ++ more) = (.ok form, left ++ more) := by
  cases tokens with
  | nil => cases h
  | cons token rest =>
    rw [readForm] at h
    rw [List.cons_append, readForm]
    split at h
    · next hopen => rw [if_pos hopen, readItems_append h]
    · cases h

/-- **The forms of more tokens** follow the forms that are read in front of them. -/
theorem readForms_append [Stack] {tokens : List String} {forms : List Node}
    (h : readForms tokens = .ok forms) (more : List String) :
    readForms (tokens ++ more) = (readForms more).map (forms ++ ·) := by
  refine readForms_induction (motive := fun tokens forms =>
    readForms (tokens ++ more) = (readForms more).map (forms ++ ·)) ?_ ?_ h
  · cases hmore : readForms more <;> simp [hmore, Except.map]
  · intro tokens left form forms hne hread ih
    rw [readForms_cons (by simp [hne]) (readForm_append hread more), ih]
    cases readForms more <;> rfl

/-- **A program behind a text that can be read** is read as if it stood alone. -/
theorem readProgram_append_line [Stack] {first : String} {forms : List Node}
    (h : readProgram first = .ok forms) (second : String) :
    readProgram (first ++ "\n" ++ second) = (readProgram second).map (forms ++ ·) := by
  obtain ⟨tokens, htokens, hforms⟩ := Except.bind_eq_ok_iff.mp h
  have hchars : (first ++ "\n" ++ second).toList = first.toList ++ '\n' :: second.toList := by
    simp
  have hcut : tokenize (first ++ "\n" ++ second) = (tokenize second).map (tokens ++ ·) := by
    rw [tokenize, hchars, tokensFrom_append_newline htokens (by rintro ⟨⟩)]
    rfl
  rw [readProgram, hcut, readProgram]
  cases tokenize second with
  | error fault => rfl
  | ok more => exact readForms_append hforms more

/-! ### Evaluation -/

/-- The value of a sequence is that of its last node, so the one in front matters only if there is
none. -/
theorem evalSequence_eq_of_ne_nil (eval : Node → Run Node) (value value' : Node)
    {nodes : List Node} (h : nodes ≠ []) :
    evalSequence eval value nodes = evalSequence eval value' nodes := by
  cases nodes with
  | nil => exact absurd rfl h
  | cons node rest => rfl

/-- **A sequence goes on** in the state in which its first part has ended. -/
theorem evalSequence_append (eval : Node → Run Node) (value : Node) (first second : List Node) :
    evalSequence eval value (first ++ second) =
      evalSequence eval value first >>= (evalSequence eval · second) := by
  induction first generalizing value with
  | nil => rw [List.nil_append, evalSequence, pure_bind]
  | cons node rest ih =>
    rw [List.cons_append, evalSequence, evalSequence, bind_assoc]
    exact bind_congr fun between => ih between

/-- A text that cannot be read changes nothing and runs nothing. -/
theorem evaluateText_of_fault [Stack] {text : String} {fault : SyntaxError}
    (h : readProgram text = .error fault) (limit : Nat) (state : RunState) :
    evaluateText limit text state = .error (.ofFault fault) state := by
  rw [evaluateText, h]
  rfl

theorem evaluateText_of_forms [Stack] {text : String} {forms : List Node}
    (h : readProgram text = .ok forms) (limit : Nat) :
    evaluateText limit text = evaluateForms limit forms := by
  rw [evaluateText, h]

/-- Forms behind other forms: the value is theirs, or that of the others if there are none. -/
theorem evaluateForms_append [Stack] (limit : Nat) (first second : List Node) :
    evaluateForms limit (first ++ second) = (do
      let value ← evaluateForms limit first
      let value' ← evaluateForms limit second
      pure (if second.isEmpty then value else value')) := by
  rw [evaluateForms, evalSequence_append]
  refine bind_congr fun value => ?_
  cases second with
  | nil => rfl
  | cons form rest =>
    rw [evaluateForms, evalSequence_eq_of_ne_nil _ value .nil (List.cons_ne_nil form rest)]
    exact (bind_pure _).symm

/-- **Programs run one after the other, and are read before anything runs.** A program behind one
that can be read runs in the state in which the first one ends, unless that ends with an error; the
value is that of the second program if it has a form. If the second cannot be read, its fault is
the error, and nothing has run. -/
theorem evaluateText_append_line [Stack] (limit : Nat) :
    (∀ first second forms forms', readProgram first = .ok forms →
      readProgram second = .ok forms' →
      evaluateText limit (first ++ "\n" ++ second) = (do
        let value ← evaluateText limit first
        let value' ← evaluateText limit second
        pure (if forms'.isEmpty then value else value'))) ∧
    (∀ first second forms fault, readProgram first = .ok forms →
      readProgram second = .error fault → ∀ state,
        evaluateText limit (first ++ "\n" ++ second) state = .error (.ofFault fault) state ∧
          evaluateText limit second state = .error (.ofFault fault) state) ∧
    ∀ text fault, readProgram text = .error fault → ∀ state,
      evaluateText limit text state = .error (.ofFault fault) state := by
  refine ⟨fun first second forms forms' hfirst hsecond => ?_,
    fun first second forms fault hfirst hsecond state => ⟨?_, ?_⟩,
    fun text fault h state => evaluateText_of_fault h limit state⟩
  · have hboth := readProgram_append_line hfirst second
    rw [hsecond] at hboth
    rw [evaluateText_of_forms hboth, evaluateText_of_forms hfirst, evaluateText_of_forms hsecond,
      evaluateForms_append]
  · have hboth := readProgram_append_line hfirst second
    rw [hsecond] at hboth
    exact evaluateText_of_fault hboth limit state
  · exact evaluateText_of_fault hsecond limit state

/-- Behind a program that ends in an open comment: a program that runs, and a parenthesis that is
none. -/
theorem evaluateText_append_line_list :
    (readProgram "(list) ;(" = .ok [.form [.symbol "list"]] ∧
      readProgram "(eq x)" = .ok [.form [.symbol "eq", .symbol "x"]] ∧
      evaluateText 100 ("(list) ;(" ++ "\n" ++ "(eq x)") = (do
        let value ← evaluateText 100 "(list) ;("
        let value' ← evaluateText 100 "(eq x)"
        pure (if [Node.form [.symbol "eq", .symbol "x"]].isEmpty then value else value'))) ∧
    readProgram ")" = .error (.expectedOpen (some ")")) ∧
      ∀ state, evaluateText 100 ("(list) ;(" ++ "\n" ++ ")") state =
          .error (.malformed (.expectedOpen (some ")"))) state ∧
        evaluateText 100 ")" state = .error (.malformed (.expectedOpen (some ")"))) state := by
  have hlist : readProgram "(list) ;(" = .ok [.form [.symbol "list"]] :=
    readProgram_singleton
      (by decide +kernel : tokenize "(list) ;(" = .ok ["(", "list", ")"]) rfl
  have heq : readProgram "(eq x)" = .ok [.form [.symbol "eq", .symbol "x"]] :=
    readProgram_singleton
      (by decide +kernel : tokenize "(eq x)" = .ok ["(", "eq", "x", ")"]) rfl
  have hclose : readProgram ")" = .error (.expectedOpen (some ")")) := by
    have htokens : tokenize ")" = .ok [")"] := by decide +kernel
    rw [readProgram, htokens]
    exact readForms_fault (List.cons_ne_nil _ _) rfl
  obtain ⟨hruns, hfault, halone⟩ := evaluateText_append_line 100
  exact ⟨⟨hlist, heq, hruns _ _ _ _ hlist heq⟩, hclose,
    fun state => ⟨(hfault _ _ _ _ hlist hclose state).1, halone _ _ hclose state⟩⟩

end EntityLisp
