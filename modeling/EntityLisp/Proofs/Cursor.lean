import EntityLisp.Form.Stream
import EntityLisp.Proofs.Brackets
import EntityLisp.Proofs.Programs

/-!
# A stream is a cursor

A stream of tokens holds back the token that was looked at, and reads forms by looking at a token
before it takes it. It behaves like a list of which tokens are taken from the front, whatever is
asked of it, and also after faults.

* `TokenStream.readForm_eq`: a form is read from the tokens that remain, as from a list.
* `serve_onStream`: **the answers of a stream are those of a list.**
* `failsAt_of_readForm`: **where a form fails, all tokens are taken up to the first fault.**
* `TokenStream.readsAll_readForms`: the loop that reads form after form ends.
* `stream_is_cursor`: what each call gives and takes after any calls.
-/

namespace EntityLisp

namespace TokenStream

/-! ### Reading from a stream -/

/-- **Reading inside a form** takes the same tokens from a stream as from a list. -/
theorem readItems_eq (room : Nat) (items : List Node) (outer : List (List Node))
    (stream : TokenStream) :
    ((stream.readItems room items outer).1, (stream.readItems room items outer).2.remaining) =
      EntityLisp.readItems room items outer stream.remaining := by
  fun_induction TokenStream.readItems room items outer stream with
  | case1 room items outer stream looked hpeek =>
    obtain ⟨hnil, rfl⟩ := remaining_eq_nil hpeek
    rw [hnil]
    rfl
  | case2 room items stream looked after hpeek =>
    rw [remaining_eq_cons hpeek, readItems_close_nil]
  | case3 room items stream looked after form around outer hpeek ih =>
    rw [remaining_eq_cons hpeek, readItems_close_cons]
    simpa [form] using ih
  | case4 items outer stream looked hpeek =>
    -- the parenthesis was looked at, and stays in front of the others
    have hkept : looked.remaining = stream.remaining := by
      rw [← stream.remaining_peek, hpeek]
    rw [hkept, remaining_eq_cons hpeek, readItems_open_zero]
  | case5 items outer stream looked after room hpeek _ ih =>
    rw [remaining_eq_cons hpeek, readItems_open_succ]
    exact ih
  | case6 room items outer stream token looked hpeek after hclose hopen atom hatom ih =>
    rw [remaining_eq_cons hpeek, readItems_atom hclose hopen hatom]
    exact ih
  | case7 room items outer stream token looked hpeek after hclose hopen error hatom =>
    rw [remaining_eq_cons hpeek, readItems_fault hclose hopen hatom]

/-- No token waits behind the end of a form. -/
theorem readItems_none_waits {room : Nat} {items : List Node} {outer : List (List Node)}
    {stream after : TokenStream} {form : Node}
    (h : stream.readItems room items outer = (.ok form, after)) :
    after = ofList after.remaining := by
  fun_induction TokenStream.readItems room items outer stream with
  | case1 => cases h
  | case2 room items stream looked taken hpeek =>
    have hafter : looked.advance.2 = after := (Prod.mk.inj h).2
    rw [← hafter]
    exact advance_eq_ofList looked
  | case3 room items stream looked taken inner around outer hpeek ih =>
    exact ih (by simpa [inner] using h)
  | case4 => cases h
  | case5 items outer stream looked taken room hpeek _ ih => exact ih h
  | case6 room items outer stream token looked hpeek taken hclose hopen atom hatom ih =>
    exact ih h
  | case7 => cases h

/-- **Reading a form** takes the same tokens from a stream as from a list. -/
theorem readForm_eq [Stack] (stream : TokenStream) :
    (stream.readForm.1, stream.readForm.2.remaining) =
      EntityLisp.readForm stream.remaining := by
  rw [readForm]
  have hnext := stream.advance_eq_head?
  have hrest := stream.remaining_advance
  generalize stream.advance = taken at hnext hrest
  obtain ⟨token?, after⟩ := taken
  dsimp only at hnext hrest ⊢
  cases htokens : stream.remaining with
  | nil =>
    rw [htokens] at hnext hrest
    rw [hnext, if_neg nofun, hrest]
    rfl
  | cons token rest =>
    rw [htokens, List.head?_cons] at hnext
    rw [htokens, List.tail_cons] at hrest
    simp only [hnext, EntityLisp.readForm, Option.some.injEq]
    split
    · rw [readItems_eq, hrest]
    · rw [hrest]

/-- No token waits behind a form that was read. -/
theorem readForm_none_waits [Stack] {stream after : TokenStream} {form : Node}
    (h : stream.readForm = (.ok form, after)) : after = ofList after.remaining := by
  rw [readForm] at h
  dsimp only at h
  split at h
  · exact readItems_none_waits h
  · cases h

theorem readForm_eq_ok_iff [Stack] {stream after : TokenStream} {form : Node} :
    stream.readForm = (.ok form, after) ↔
      after = ofList after.remaining ∧
        EntityLisp.readForm stream.remaining = (.ok form, after.remaining) := by
  rw [← readForm_eq]
  constructor
  · intro h
    exact ⟨readForm_none_waits h, by rw [h]⟩
  · rintro ⟨hafter, h⟩
    obtain ⟨hform, hleft⟩ := Prod.mk.inj h
    have hwaits := readForm_none_waits (Prod.ext hform rfl : stream.readForm = (.ok form, _))
    exact Prod.ext hform (hwaits.trans (by rw [hleft, ← hafter]))

end TokenStream

/-! ### Calls -/

/-- **What can be asked of a stream.** -/
inductive StreamCall where
  | peek
  | advance
  | readForm
  deriving DecidableEq

/-- The answer to a call: the next token, if there is one, or a form or the fault of it. -/
inductive StreamAnswer where
  | token (next : Option String)
  | form (result : Except SyntaxError Node)

namespace StreamCall

/-- A call to a stream. -/
def onStream [Stack] (stream : TokenStream) : StreamCall → StreamAnswer × TokenStream
  | .peek => (.token stream.peek.1, stream.peek.2)
  | .advance => (.token stream.advance.1, stream.advance.2)
  | .readForm => (.form stream.readForm.1, stream.readForm.2)

/-- **The same call to a list,** of which tokens are taken from the front. -/
def onList [Stack] (tokens : List String) : StreamCall → StreamAnswer × List String
  | .peek => (.token tokens.head?, tokens)
  | .advance => (.token tokens.head?, tokens.tail)
  | .readForm => (.form (EntityLisp.readForm tokens).1, (EntityLisp.readForm tokens).2)

end StreamCall

/-- **The answers to calls one after the other,** and what is left of the source of tokens. -/
def serve {σ : Type} (answer : σ → StreamCall → StreamAnswer × σ) :
    List StreamCall → σ → List StreamAnswer × σ
  | [], source => ([], source)
  | call :: calls, source =>
    let (first, source) := answer source call
    let (others, source) := serve answer calls source
    (first :: others, source)

theorem StreamCall.onStream_eq [Stack] (stream : TokenStream) (call : StreamCall) :
    ((onStream stream call).1, (onStream stream call).2.remaining) =
      onList stream.remaining call := by
  cases call with
  | peek => rw [onStream, onList, TokenStream.peek_eq_head?, TokenStream.remaining_peek]
  | advance => rw [onStream, onList, TokenStream.advance_eq_head?, TokenStream.remaining_advance]
  | readForm => rw [onStream, onList, ← TokenStream.readForm_eq]

/-- **The answers of a stream are those of a list,** and what remains is the rest of the list. -/
theorem serve_onStream [Stack] (calls : List StreamCall) (stream : TokenStream) :
    ((serve StreamCall.onStream calls stream).1,
        (serve StreamCall.onStream calls stream).2.remaining) =
      serve StreamCall.onList calls stream.remaining := by
  induction calls generalizing stream with
  | nil => rfl
  | cons call calls ih =>
    have hanswer : (StreamCall.onStream stream call).1 =
        (StreamCall.onList stream.remaining call).1 := congrArg Prod.fst (call.onStream_eq stream)
    have hleft : (StreamCall.onStream stream call).2.remaining =
        (StreamCall.onList stream.remaining call).2 := congrArg Prod.snd (call.onStream_eq stream)
    simp only [serve]
    rw [← hanswer, ← hleft, ← ih]

/-- Each call leaves a suffix of the tokens. -/
theorem StreamCall.suffix_onList [Stack] (tokens : List String) (call : StreamCall) :
    (onList tokens call).2 <:+ tokens := by
  cases call with
  | peek => exact List.suffix_refl tokens
  | advance => exact List.tail_suffix tokens
  | readForm => exact suffix_readForm tokens

theorem suffix_serve_onList [Stack] (calls : List StreamCall) (tokens : List String) :
    (serve StreamCall.onList calls tokens).2 <:+ tokens := by
  induction calls generalizing tokens with
  | nil => exact List.suffix_refl tokens
  | cons call calls ih => exact (ih _).trans (call.suffix_onList tokens)

/-! ### The first fault of a form -/

/-- **What is wrong with a token of a form at a depth,** or with the end of the tokens there: the
form begins with `(`, which may stand at each depth below the limit, and ends before the
tokens do. -/
def formFaultAt [Stack] (depth : Nat) (next : Option String) : Option SyntaxError :=
  if depth = 0 then if next = some "(" then none else some (.expectedOpen next)
  else if depth = nestingLimit ∧ next = some "(" then some .nestedTooDeeply
  else faultAt depth next

/-- What is wrong with a form at a position of tokens that begin at a depth. -/
def formFault? [Stack] (depth : Nat) (tokens : List String) (position : Nat) : Option SyntaxError :=
  formFaultAt (depthAfter depth (tokens.take position)) tokens[position]?

/-- **The first fault of a form is at a position,** and the form has not ended there. -/
structure FailsAt [Stack] (depth : Nat) (tokens : List String) (position : Nat)
    (error : SyntaxError) : Prop where
  fault : formFault? depth tokens position = some error
  first : ∀ earlier < position, formFault? depth tokens earlier = none
  inside : ∀ earlier, 0 < earlier → earlier ≤ position →
    0 < depthAfter depth (tokens.take earlier)

theorem failsAt_zero [Stack] {depth : Nat} {tokens : List String} {error : SyntaxError}
    (h : formFaultAt depth tokens.head? = some error) : FailsAt depth tokens 0 error where
  fault := by
    rw [formFault?, ← List.head?_eq_getElem?]
    exact h
  first := fun _ hlt => absurd hlt (Nat.not_lt_zero _)
  inside := fun _ hpos hle => absurd (hpos.trans_le hle) (Nat.lt_irrefl 0)

/-- A token without a fault, behind which the form has not ended. -/
theorem FailsAt.cons [Stack] {depth inside : Nat} {token : String} {rest : List String}
    {position : Nat} {error : SyntaxError} (h : FailsAt (inside + 1) rest position error)
    (hnone : formFaultAt depth (some token) = none) (hstep : depthStep depth token = inside + 1) :
    FailsAt depth (token :: rest) (position + 1) error where
  fault := by
    rw [formFault?, List.take_succ_cons, depthAfter_cons, hstep]
    exact h.fault
  first := fun earlier hlt => by
    cases earlier with
    | zero => exact hnone
    | succ earlier =>
      rw [formFault?, List.take_succ_cons, depthAfter_cons, hstep]
      exact h.first earlier (Nat.lt_of_succ_lt_succ hlt)
  inside := fun earlier hearlier hle => by
    obtain ⟨earlier, rfl⟩ := Nat.exists_eq_add_one.mpr hearlier
    rw [List.take_succ_cons, depthAfter_cons, hstep]
    cases earlier with
    | zero => exact Nat.succ_pos inside
    | succ earlier => exact h.inside _ (Nat.succ_pos earlier) (Nat.le_of_succ_le_succ hle)

theorem formFaultAt_close [Stack] (depth : Nat) : formFaultAt (depth + 1) (some ")") = none := by
  simp [formFaultAt, faultAt]

theorem formFaultAt_open [Stack] {depth : Nat} (h : depth < nestingLimit) :
    formFaultAt depth (some "(") = none := by
  rw [formFaultAt]
  split
  · rfl
  · rw [if_neg (by omega), faultAt, if_neg (by assumption)]
    rfl

theorem formFaultAt_atom [Stack] {token : String} (hopen : token ≠ "(") (hclose : token ≠ ")")
    (depth : Nat) : formFaultAt (depth + 1) (some token) =
      match readAtom token with
        | .ok _ => none
        | .error error => some error := by
  have hinside : formFaultAt (depth + 1) (some token) = faultAt (depth + 1) (some token) := by
    rw [formFaultAt, if_neg (Nat.succ_ne_zero depth), if_neg (by simp [hopen])]
  exact hinside.trans (faultAt_inside hopen hclose depth)

/-- **How many tokens a form takes** that fails at a position: those up to the fault and the one at
fault, except for a parenthesis that would nest too deeply. -/
def takenAt (error : SyntaxError) (position : Nat) : Nat :=
  if error = .nestedTooDeeply then position else position + 1

theorem takenAt_succ (error : SyntaxError) (position : Nat) :
    takenAt error (position + 1) = takenAt error position + 1 := by
  unfold takenAt
  split <;> rfl

theorem drop_takenAt_cons (error : SyntaxError) (position : Nat) (token : String)
    (rest : List String) :
    (token :: rest).drop (takenAt error (position + 1)) = rest.drop (takenAt error position) := by
  rw [takenAt_succ, List.drop_succ_cons]

/-- A text in quotes has no fault but another quote. -/
theorem eq_misplacedQuote_of_readString {token : String} {chars : List Char} {error : SyntaxError}
    (h : readString token chars = .error error) : error = .misplacedQuote token := by
  unfold readString at h
  dsimp only at h
  generalize (if chars.getLast? = some '"' then chars.dropLast else chars) = text at h
  split at h
  · exact (Except.error.inj h).symm
  · cases h

/-- **No atom is at fault for the nesting of forms,** or for their end. -/
theorem ne_of_readAtom {token : String} {error : SyntaxError} (h : readAtom token = .error error) :
    error ≠ .unclosedForm ∧ error ≠ .nestedTooDeeply := by
  unfold readAtom at h
  iterate 3 split at h; · cases h
  split at h
  · rw [eq_misplacedQuote_of_readString h]
    exact ⟨nofun, nofun⟩
  split at h
  · cases h
    exact ⟨nofun, nofun⟩
  split at h
  · cases h
    exact ⟨nofun, nofun⟩
  unfold readBare at h
  split at h
  · cases h
    exact ⟨nofun, nofun⟩
  · cases h

/-- **A form that fails has taken the tokens up to its first fault.** The depth is the number of the
open forms. -/
theorem failsAt_of_readItems [Stack] {room : Nat} {items : List Node} {outer : List (List Node)}
    {tokens left : List String} {error : SyntaxError}
    (hroom : room + (outer.length + 1) = nestingLimit)
    (h : readItems room items outer tokens = (.error error, left)) :
    ∃ position, FailsAt (outer.length + 1) tokens position error ∧
      left = tokens.drop (takenAt error position) := by
  induction room, items, outer, tokens using readItems_induction with
  | ended room items outer =>
    cases h
    exact ⟨0, failsAt_zero (by simp [formFaultAt, faultAt]), rfl⟩
  | close_nil room items rest => cases h
  | close_cons room items around outer rest ih =>
    rw [readItems_close_cons] at h
    rw [List.length_cons] at hroom ⊢
    obtain ⟨position, hfails, rfl⟩ := ih (by omega) h
    exact ⟨position + 1, hfails.cons (formFaultAt_close _) rfl,
      (drop_takenAt_cons _ _ _ _).symm⟩
  | open_zero items outer rest =>
    cases h
    rw [Nat.zero_add] at hroom
    exact ⟨0, failsAt_zero (by simp [formFaultAt, ← hroom]), rfl⟩
  | open_succ room items outer rest ih =>
    rw [readItems_open_succ] at h
    obtain ⟨position, hfails, rfl⟩ := ih (by rw [List.length_cons]; omega) h
    exact ⟨position + 1, hfails.cons (formFaultAt_open (by omega)) rfl,
      (drop_takenAt_cons _ _ _ _).symm⟩
  | atom room items outer rest token node hclose hopen hatom ih =>
    rw [readItems_atom hclose hopen hatom] at h
    obtain ⟨position, hfails, rfl⟩ := ih hroom h
    refine ⟨position + 1, hfails.cons ?_ (depthStep_of_ne hopen hclose _),
      (drop_takenAt_cons _ _ _ _).symm⟩
    rw [formFaultAt_atom hopen hclose, hatom]
  | fault room items outer rest token fault hclose hopen hatom =>
    rw [readItems_fault hclose hopen hatom] at h
    cases h
    refine ⟨0, failsAt_zero ?_, by rw [takenAt, if_neg (ne_of_readAtom hatom).2]; rfl⟩
    rw [List.head?_cons, formFaultAt_atom hopen hclose, hatom]

theorem failsAt_of_readForm [Stack] {tokens left : List String} {error : SyntaxError}
    (h : readForm tokens = (.error error, left)) :
    ∃ position, FailsAt 0 tokens position error ∧
      left = tokens.drop (takenAt error position) := by
  cases tokens with
  | nil =>
    cases h
    exact ⟨0, failsAt_zero rfl, rfl⟩
  | cons token rest =>
    rw [readForm] at h
    split at h
    · next hopen =>
      subst hopen
      have hroom : nestingLimit - 1 + 1 = nestingLimit := Nat.sub_add_cancel Stack.nestingLimit_pos
      obtain ⟨position, hfails, rfl⟩ := failsAt_of_readItems hroom h
      exact ⟨position + 1, hfails.cons rfl rfl, (drop_takenAt_cons _ _ _ _).symm⟩
    · next hopen =>
      cases h
      exact ⟨0, failsAt_zero (by simp [formFaultAt, hopen]), rfl⟩

/-- A form is unclosed at the end of the tokens only. -/
theorem eq_none_of_unclosedForm [Stack] {depth : Nat} {next : Option String}
    (h : formFaultAt depth next = some .unclosedForm) : next = none := by
  cases next with
  | none => rfl
  | some token =>
    exfalso
    by_cases hopen : token = "("
    · subst hopen
      simp [formFaultAt, faultAt] at h
    cases depth with
    | zero => simp [formFaultAt, hopen] at h
    | succ depth =>
      by_cases hclose : token = ")"
      · rw [hclose, formFaultAt_close] at h
        cases h
      · rw [formFaultAt_atom hopen hclose] at h
        cases hatom : readAtom token with
        | ok node =>
          rw [hatom] at h
          cases h
        | error error =>
          rw [hatom] at h
          cases h
          exact (ne_of_readAtom hatom).1 rfl

theorem FailsAt.drop_eq_nil [Stack] {depth : Nat} {tokens : List String} {position : Nat}
    (h : FailsAt depth tokens position .unclosedForm) :
    tokens.drop (takenAt .unclosedForm position) = [] := by
  have hend := List.getElem?_eq_none_iff.mp (eq_none_of_unclosedForm h.fault)
  exact List.drop_eq_nil_of_le (Nat.le_succ_of_le hend)

/-! ### The group of a form -/

/-- **There is one group at most** at the front of a list of tokens. -/
theorem IsGroup.eq_of_prefix {group other tokens : List String} (h : IsGroup group)
    (hother : IsGroup other) (hleft : group <+: tokens) (hother' : other <+: tokens) :
    group = other := by
  -- a group inside another one would bring the depth back to zero before its end
  have hshorter : ∀ {first second : List String}, IsGroup first → IsGroup second →
      first <+: second → first = second := by
    intro first second hfirst hsecond hle
    refine hle.eq_of_length (le_antisymm hle.length_le (not_lt.mp fun hlt => ?_))
    have hinside := hsecond.inside first.length (List.length_pos_iff.mpr hfirst.ne_nil) hlt
    rw [← List.prefix_iff_eq_take.mp hle, hfirst.closed] at hinside
    exact Nat.lt_irrefl 0 hinside
  rcases List.prefix_or_prefix_of_prefix hleft hother' with hle | hle
  · exact hshorter h hother hle
  · exact (hshorter hother h hle).symm

/-- What is read inside a form does not depend on what stands behind it. -/
theorem taken_of_readItems {room : Nat} {items : List Node} {outer : List (List Node)}
    {tokens left : List String} {form : Node}
    (h : readItems room items outer tokens = (.ok form, left)) :
    ∃ taken, tokens = taken ++ left ∧
      ∀ rest, readItems room items outer (taken ++ rest) = (.ok form, rest) := by
  induction room, items, outer, tokens using readItems_induction with
  | ended room items outer => cases h
  | close_nil room items rest =>
    cases h
    exact ⟨[")"], rfl, fun rest => readItems_close_nil room items rest⟩
  | close_cons room items around outer rest ih =>
    rw [readItems_close_cons] at h
    obtain ⟨taken, rfl, hrest⟩ := ih h
    exact ⟨")" :: taken, rfl, fun rest => (readItems_close_cons _ _ _ _ _).trans (hrest rest)⟩
  | open_zero items outer rest => cases h
  | open_succ room items outer rest ih =>
    rw [readItems_open_succ] at h
    obtain ⟨taken, rfl, hrest⟩ := ih h
    exact ⟨"(" :: taken, rfl, fun rest => (readItems_open_succ _ _ _ _).trans (hrest rest)⟩
  | atom room items outer rest token node hclose hopen hatom ih =>
    rw [readItems_atom hclose hopen hatom] at h
    obtain ⟨taken, rfl, hrest⟩ := ih h
    exact ⟨token :: taken, rfl,
      fun rest => (readItems_atom hclose hopen hatom _ _ _ _).trans (hrest rest)⟩
  | fault room items outer rest token error hclose hopen hatom =>
    rw [readItems_fault hclose hopen hatom] at h
    cases h

/-- **A form that is read takes the group at the front,** whatever stands behind it. -/
theorem group_of_readForm [Stack] {tokens left : List String} {form : Node}
    (h : readForm tokens = (.ok form, left)) :
    ∃ tree group, SpellsForm tree group ∧ tokens = group ++ left ∧ form = tree.normal ∧
      ∀ rest, readForm (group ++ rest) = (.ok form, rest) := by
  obtain ⟨tree, group, hspells, hgroup, hform⟩ := spellsForm_of_readForm h
  refine ⟨tree, group, hspells, hgroup, hform, fun rest => ?_⟩
  obtain ⟨hinside⟩ := hspells
  rw [hgroup, List.cons_append, readForm, if_pos rfl] at h
  obtain ⟨taken, htaken, hrest⟩ := taken_of_readItems h
  rw [List.append_cancel_right htaken, List.cons_append, readForm, if_pos rfl]
  exact hrest rest

/-! ### The loop over the forms -/

namespace TokenStream

/-- **The loop that reads form after form** as long as a token is seen, with the number of its
iterations. It ends with the forms, or with the fault of the first form that fails. -/
inductive ReadsAll [Stack] :
    Nat → TokenStream → Except SyntaxError (List Node) → TokenStream → Prop where
  | done {stream looked : TokenStream} (peek : stream.peek = (none, looked)) :
      ReadsAll 0 stream (.ok []) looked
  | fault {stream looked last : TokenStream} {token : String} {error : SyntaxError}
      (peek : stream.peek = (some token, looked)) (reads : looked.readForm = (.error error, last)) :
      ReadsAll 1 stream (.error error) last
  | form {stream looked after last : TokenStream} {token : String} {form : Node} {iterations : Nat}
      {others : Except SyntaxError (List Node)} (peek : stream.peek = (some token, looked))
      (reads : looked.readForm = (.ok form, after)) (loop : ReadsAll iterations after others last) :
      ReadsAll (iterations + 1) stream (others.map (form :: ·)) last

section Iteration

variable {stream looked : TokenStream} {token : String} (h : stream.peek = (some token, looked))

include h

theorem remaining_ne_nil : stream.remaining ≠ [] := by
  rw [remaining_eq_cons h]
  exact List.cons_ne_nil _ _

/-- One iteration reads the first form of the tokens that remain. -/
theorem readForm_of_peek [Stack] : (looked.readForm.1, looked.readForm.2.remaining) =
    EntityLisp.readForm stream.remaining := by
  have hkept : looked.remaining = stream.remaining := by
    rw [← stream.remaining_peek, h]
  rw [readForm_eq, hkept]

/-- **An iteration makes progress,** also if the form fails. -/
theorem length_readForm_lt [Stack] :
    looked.readForm.2.remaining.length < stream.remaining.length := by
  have hread := congrArg (·.2.length) (readForm_of_peek h)
  dsimp only at hread
  rw [hread, remaining_eq_cons h]
  exact EntityLisp.length_readForm_lt _ _

theorem readForms_of_fault [Stack] {error : SyntaxError} {after : TokenStream}
    (hreads : looked.readForm = (.error error, after)) :
    readForms stream.remaining = .error error := by
  have hread := readForm_of_peek h
  rw [hreads] at hread
  exact readForms_fault (remaining_ne_nil h) hread.symm

theorem readForms_of_form [Stack] {form : Node} {after : TokenStream}
    (hreads : looked.readForm = (.ok form, after)) :
    readForms stream.remaining = (readForms after.remaining).map (form :: ·) := by
  have hread := readForm_of_peek h
  rw [hreads] at hread
  exact readForms_cons (remaining_ne_nil h) hread.symm

end Iteration

/-- **The loop ends** with the forms of the tokens that remain, after at most as many iterations as
there are tokens. -/
theorem readsAll_readForms [Stack] (stream : TokenStream) :
    ∃ iterations last, ReadsAll iterations stream (readForms stream.remaining) last ∧
      iterations ≤ stream.remaining.length := by
  cases hpeek : stream.peek with
  | mk next looked =>
    cases next with
    | none =>
      rw [(remaining_eq_nil hpeek).1, readForms]
      exact ⟨0, looked, .done hpeek, Nat.le_refl 0⟩
    | some token =>
      have hlt := length_readForm_lt hpeek
      cases hreads : looked.readForm with
      | mk result after =>
        rw [hreads] at hlt
        cases result with
        | error error =>
          rw [readForms_of_fault hpeek hreads]
          exact ⟨1, after, .fault hpeek hreads, Nat.one_le_of_lt hlt⟩
        | ok form =>
          obtain ⟨iterations, last, hloop, hle⟩ := readsAll_readForms after
          rw [readForms_of_form hpeek hreads]
          exact ⟨iterations + 1, last, .form hpeek hreads hloop, Nat.lt_of_le_of_lt hle hlt⟩
termination_by stream.remaining.length

/-- The loop has no other end. -/
theorem ReadsAll.result_eq [Stack] {iterations : Nat} {stream last : TokenStream}
    {result : Except SyntaxError (List Node)} (h : ReadsAll iterations stream result last) :
    result = readForms stream.remaining := by
  induction h with
  | done hpeek => rw [(remaining_eq_nil hpeek).1, readForms]
  | fault hpeek hreads => rw [readForms_of_fault hpeek hreads]
  | form hpeek hreads _ ih => rw [readForms_of_form hpeek hreads, ih]

end TokenStream

/-! ### The laws of a cursor -/

/-- **What each call to a stream gives and takes.** -/
structure TokenStream.IsCursor [Stack] (stream : TokenStream) : Prop where
  /-- To look at a token takes none. -/
  peek_keeps : stream.peek.2.remaining = stream.remaining
  /-- The token that is seen is the one that is taken next. -/
  peek_agrees : stream.peek.1 = stream.peek.2.advance.1
  /-- The next token is given, or none at the end. -/
  advance_gives : stream.advance.1 = stream.remaining.head?
  /-- That token is taken, and no other. -/
  advance_takes : stream.remaining = stream.advance.1.toList ++ stream.advance.2.remaining
  /-- A form takes the only group of tokens at the front. The same form is read wherever these
  tokens are at the front. -/
  form_takes : ∀ form after, stream.readForm = (.ok form, after) → ∃ tree group,
    SpellsForm tree group ∧ form = tree.normal ∧ stream.remaining = group ++ after.remaining ∧
    IsGroup group ∧ (∀ other, IsGroup other → other <+: stream.remaining → other = group) ∧
    ∀ (another : TokenStream) (rest : List String), another.remaining = group ++ rest →
      another.readForm = (.ok form, ofList rest)
  /-- A form that fails takes the tokens up to and including the first one at fault and no others,
  but a parenthesis that would nest too deeply is not taken. If the form is not closed, all tokens
  are taken. -/
  fault_takes : ∀ error after, stream.readForm = (.error error, after) →
    (∃ position, FailsAt 0 stream.remaining position error ∧
      after.remaining = stream.remaining.drop (takenAt error position)) ∧
    (error = .unclosedForm → after.remaining = [])
  /-- Every iteration of the loop takes a token. -/
  loop_progress : ∀ token looked, stream.peek = (some token, looked) →
    looked.readForm.2.remaining.length < stream.remaining.length
  /-- The loop ends, and it ends with the forms of the tokens that remain. -/
  loop_ends : (∃ iterations last, ReadsAll iterations stream (readForms stream.remaining) last ∧
      iterations ≤ stream.remaining.length) ∧
    ∀ iterations result last, ReadsAll iterations stream result last →
      result = readForms stream.remaining

namespace TokenStream

theorem isCursor [Stack] (stream : TokenStream) : stream.IsCursor where
  peek_keeps := stream.remaining_peek
  peek_agrees := by
    rw [advance_eq_head?, remaining_peek, peek_eq_head?]
  advance_gives := stream.advance_eq_head?
  advance_takes := by
    rw [advance_eq_head?, remaining_advance]
    cases stream.remaining <;> rfl
  form_takes := fun form after h => by
    obtain ⟨tree, group, hspells, hgroup, hnormal, hrest⟩ :=
      group_of_readForm (readForm_eq_ok_iff.mp h).2
    refine ⟨tree, group, hspells, hnormal, hgroup, hspells.isGroup, fun other hother hle => ?_,
      fun another rest hanother => ?_⟩
    · exact hother.eq_of_prefix hspells.isGroup hle ⟨_, hgroup.symm⟩
    · exact readForm_eq_ok_iff.mpr ⟨rfl, by rw [hanother, hrest]; rfl⟩
  fault_takes := fun error after h => by
    have hread := stream.readForm_eq
    rw [h] at hread
    obtain ⟨position, hfails, hleft⟩ := failsAt_of_readForm hread.symm
    refine ⟨⟨position, hfails, hleft⟩, ?_⟩
    rintro rfl
    exact hleft.trans hfails.drop_eq_nil
  loop_progress := fun _ _ h => length_readForm_lt h
  loop_ends := ⟨stream.readsAll_readForms, fun _ _ _ h => h.result_eq⟩

end TokenStream

/-- **A stream is a cursor.** Whatever is asked of a stream of tokens, also after faults, the
answers are those of a list of which tokens are taken from the front. The tokens that remain are
always the rest of the list, and a suffix of what there was. And whatever has been asked before,
the next call gives and takes what the laws of a cursor say, and the loop that reads all forms
makes progress with each of them and ends. -/
theorem stream_is_cursor [Stack] (tokens : List String) (calls : List StreamCall) :
    serve StreamCall.onList calls tokens =
        ((serve StreamCall.onStream calls (.ofList tokens)).1,
          (serve StreamCall.onStream calls (.ofList tokens)).2.remaining) ∧
      (serve StreamCall.onStream calls (.ofList tokens)).2.remaining <:+ tokens ∧
      (serve StreamCall.onStream calls (.ofList tokens)).2.IsCursor := by
  have hserve := serve_onStream calls (.ofList tokens)
  rw [TokenStream.remaining_ofList] at hserve
  refine ⟨hserve.symm, ?_, TokenStream.isCursor _⟩
  have hsuffix := suffix_serve_onList calls tokens
  rwa [← hserve] at hsuffix

/-- Tokens with a fault inside a form, and two outside. -/
def faultyTokens : List String := ["(", "a", "(", "'b", ")", "(", "c", ")", "d"]

/-- Four forms are asked for, the first after a look at the next token. The first one fails at its
fourth token, so the second begins with the parenthesis behind it. -/
def fourForms : List StreamCall := [.peek, .readForm, .readForm, .readForm, .readForm, .advance]

theorem stream_is_cursor_faultyTokens :
    (serve StreamCall.onStream fourForms (.ofList faultyTokens)).1 =
        [.token (some "("), .form (.error (.singleQuote "'b")),
          .form (.error (.expectedOpen (some ")"))), .form (.ok (.form [.symbol "c"])),
          .form (.error (.expectedOpen (some "d"))), .token none] ∧
      (serve StreamCall.onStream (fourForms.take 2) (.ofList faultyTokens)).2.remaining =
        [")", "(", "c", ")", "d"] ∧
      (serve StreamCall.onStream (fourForms.take 2) (.ofList faultyTokens)).2.IsCursor := by
  obtain ⟨hanswers, -, -⟩ := stream_is_cursor faultyTokens fourForms
  obtain ⟨hfirst, -, hcursor⟩ := stream_is_cursor faultyTokens (fourForms.take 2)
  exact ⟨(congrArg Prod.fst hanswers).symm, (congrArg Prod.snd hfirst).symm, hcursor⟩

end EntityLisp
