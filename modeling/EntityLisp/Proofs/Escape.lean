import EntityLisp.Proofs.LoopVisits

/-!
# Errors that applications do not contain

Applications contain every error of evaluation but those of arithmetic. `Run.Escapes error action`
says that an action ends with such an error, and the lemmas say for each way to build actions
which part of it that error comes from.

A loop over nodes escapes at one of its visits. The lemmas on loops (`escapes_evalOperands_iff` and
the like) go through the visits step by step, as the loop does.
-/

namespace EntityLisp

open Run

/-! ### Actions in general -/

namespace Run

variable {α β : Type} {error : ArithmeticError}

/-- **An action escapes:** it ends with an error of arithmetic. -/
def Escapes (error : ArithmeticError) (action : Run α) (state : RunState) : Prop :=
  ∃ after, action state = .error (.arithmetic error) after

theorem not_escapes_of_ok {action : Run α} {state after : RunState} {value : α}
    (h : action state = .ok value after) : ¬Escapes error action state := by
  rintro ⟨last, hlast⟩
  rw [h] at hlast
  cases hlast

theorem not_escapes_pure (value : α) (state : RunState) :
    ¬Escapes error (pure value : Run α) state := not_escapes_of_ok rfl

theorem not_escapes_throw {stop : EvalError} (h : stop.isContained = true) (state : RunState) :
    ¬Escapes error (throw stop : Run α) state := by
  rintro ⟨last, hlast⟩
  cases hlast
  cases h

theorem not_escapes_lookup (name : String) (state : RunState) :
    ¬Escapes error (lookup name) state := by
  unfold lookup
  rintro ⟨after, h⟩
  rw [scope_bind_apply] at h
  cases hlookup : state.scope.lookup? name with
  | some value =>
    rw [hlookup] at h
    cases h
  | none =>
    rw [hlookup] at h
    cases h

theorem escapes_bind_iff {action : Run α} {next : α → Run β} {state : RunState} :
    Escapes error (action >>= next) state ↔ Escapes error action state ∨
      ∃ value between, action state = .ok value between ∧
        Escapes error (next value) between := by
  unfold Escapes
  simp only [bind_eq_error_iff]
  constructor
  · rintro ⟨after, h | ⟨value, between, haction, h⟩⟩
    · exact Or.inl ⟨after, h⟩
    · exact Or.inr ⟨value, between, haction, after, h⟩
  · rintro (⟨after, h⟩ | ⟨value, between, haction, after, h⟩)
    · exact ⟨after, Or.inl h⟩
    · exact ⟨after, Or.inr ⟨value, between, haction, h⟩⟩

/-- What cannot escape behind an action does not matter. -/
theorem escapes_bind_iff_of_not {action : Run α} {next : α → Run β} {state : RunState}
    (h : ∀ value between, ¬Escapes error (next value) between) :
    Escapes error (action >>= next) state ↔ Escapes error action state := by
  rw [escapes_bind_iff]
  constructor
  · rintro (haction | ⟨value, between, -, hnext⟩)
    · exact haction
    · exact absurd hnext (h value between)
  · exact Or.inl

theorem escapes_bind_pure_iff {action : Run α} {f : α → β} {state : RunState} :
    Escapes error (action >>= fun value => pure (f value)) state ↔ Escapes error action state :=
  escapes_bind_iff_of_not fun _ _ => not_escapes_pure _ _

/-- An action that has a value in front does not matter but for its value. -/
theorem escapes_bind_iff_of_ok {action : Run α} {next : α → Run β} {state between : RunState}
    {value : α} (h : action state = .ok value between) :
    Escapes error (action >>= next) state ↔ Escapes error (next value) between := by
  unfold Escapes
  rw [bind_of_ok h]

theorem escapes_within_iff {inner : Scope Node} {action : Run α} {state : RunState} :
    Escapes error (within inner action) state ↔ Escapes error action (state.inScope inner) := by
  unfold Escapes within
  show (∃ after, _) ↔ ∃ after, action { state with scope := inner } = _
  cases action { state with scope := inner } with
  | ok value after => simp
  | error stop after => simp

theorem within_eq_ok_iff {inner : Scope Node} {action : Run α} {state last : RunState}
    {value : α} : within inner action state = .ok value last ↔
      ∃ after, action (state.inScope inner) = .ok value after ∧
        last = after.inScope state.scope := by
  unfold within
  constructor
  · intro h
    split at h
    · next result after hrun =>
      cases h
      exact ⟨after, hrun, rfl⟩
    · cases h
  · rintro ⟨after, hrun, rfl⟩
    replace hrun : action { state with scope := inner } = .ok value after := hrun
    rw [hrun]
    rfl

/-- A handler that does not escape leaves the escapes of the action as they are. -/
theorem escapes_contain_iff {action : Run α} {handle : EvalError → Run α} {state : RunState}
    (h : ∀ stop between, ¬Escapes error (handle stop) between) :
    Escapes error (contain action handle) state ↔ Escapes error action state := by
  unfold Escapes contain
  cases action state with
  | ok value after => simp
  | error stop after =>
    -- the handler has no error of arithmetic, and never sees one
    cases hcontained : stop.isContained with
    | true =>
      simp only [hcontained, ↓reduceIte]
      constructor
      · exact fun hescapes => absurd hescapes (h stop after)
      · rintro ⟨last, hlast⟩
        cases hlast
        cases hcontained
    | false => simp [hcontained]

theorem escapes_ofResult_iff {result : Except EvalError α} {state : RunState} :
    Escapes error (ofResult result) state ↔ result = .error (.arithmetic error) := by
  cases result with
  | ok value => simp [ofResult, not_escapes_pure]
  | error stop =>
    show (∃ after, (throw stop : Run α) state = _) ↔ _
    simp [throw_apply]

end Run

/-! ### Loops -/

section Loops

variable {eval : Node → Run Node} {error : ArithmeticError} {state : RunState}

/-- Either the first operand escapes, or it is accepted and the rest escapes. -/
theorem escapes_evalOperands_cons_iff {β : Type} {accept : Nat → Node → Except Failure β}
    {position : Nat} {argument : Node} {rest : List Node} :
    Escapes error (evalOperands eval accept position (argument :: rest)) state ↔
      Escapes error (eval argument) state ∨ ∃ value between kept,
        eval argument state = .ok value between ∧ accept position value = .ok kept ∧
          Escapes error (evalOperands eval accept (position + 1) rest) between := by
  rw [evalOperands_cons, escapes_bind_iff]
  refine or_congr Iff.rfl ?_
  constructor
  · rintro ⟨value, between, hvalue, h⟩
    cases hkept : accept position value with
    | error failure =>
      rw [hkept] at h
      exact absurd h (not_escapes_pure _ _)
    | ok kept =>
      rw [hkept] at h
      exact ⟨value, between, kept, hvalue, hkept, escapes_bind_pure_iff.mp h⟩
  · rintro ⟨value, between, kept, hvalue, hkept, h⟩
    refine ⟨value, between, hvalue, ?_⟩
    simp only [hkept]
    exact escapes_bind_pure_iff.mpr h

/-- Evaluating operands escapes at the first visit that does. -/
theorem escapes_evalOperands_iff {accept : Nat → Node → Except Failure (Entity Node)}
    {position : Nat} {arguments : List Node} :
    Escapes error (evalOperands eval accept position arguments) state ↔
      ∃ v, OperandVisit eval accept position arguments state v ∧
        Escapes error (eval v.node) v.state := by
  induction arguments generalizing position state with
  | nil => exact iff_of_false (not_escapes_pure _ _) fun ⟨v, hv, _⟩ => not_operandVisit_nil hv
  | cons first others ih =>
    rw [escapes_evalOperands_cons_iff]
    constructor
    · rintro (hfirst | ⟨value, between, kept, hvalue, hkept, h⟩)
      · exact ⟨_, operandVisit_cons_iff.mpr (Or.inl rfl), hfirst⟩
      · obtain ⟨v, hv, h⟩ := ih.mp h
        exact ⟨v, operandVisit_cons_iff.mpr (Or.inr ⟨value, between, hvalue, kept, hkept, hv⟩), h⟩
    · rintro ⟨v, hv, h⟩
      rcases operandVisit_cons_iff.mp hv with rfl | ⟨value, between, hvalue, kept, hkept, hv⟩
      · exact Or.inl h
      · exact Or.inr ⟨value, between, kept, hvalue, hkept, ih.mpr ⟨v, hv, h⟩⟩

/-- Evaluating the values among keys and values escapes at the first visit that does. -/
theorem escapes_evalValues_iff {pairs : List Node} :
    Escapes error (evalValues eval pairs) state ↔
      ∃ v, ValueVisit eval pairs state v ∧ Escapes error (eval v.node) v.state := by
  induction pairs using evalValues.induct generalizing state with
  | case1 key item rest ih =>
    rw [evalValues_cons, escapes_bind_iff]
    constructor
    · rintro (hitem | ⟨value, between, hvalue, h⟩)
      · exact ⟨_, valueVisit_cons_iff.mpr (Or.inl rfl), hitem⟩
      · obtain ⟨v, hv, h⟩ := ih.mp (escapes_bind_pure_iff.mp h)
        exact ⟨v, valueVisit_cons_iff.mpr (Or.inr ⟨value, between, hvalue, hv⟩), h⟩
    · rintro ⟨v, hv, h⟩
      rcases valueVisit_cons_iff.mp hv with rfl | ⟨value, between, hvalue, hv⟩
      · exact Or.inl h
      · exact Or.inr ⟨value, between, hvalue, escapes_bind_pure_iff.mpr (ih.mpr ⟨v, hv, h⟩)⟩
  | case2 pairs hshort =>
    rw [evalValues_of_short hshort]
    exact iff_of_false (not_escapes_pure _ _) fun ⟨v, hv, _⟩ => not_valueVisit_of_short hshort hv

/-- The value of an attribute escapes if it is an adjective whose evaluation does. -/
theorem escapes_attributeValue_iff {key : String} {value : Node} :
    Escapes error (attributeValue eval key value) state ↔
      key = adjectiveKey ∧ Escapes error (eval value) state := by
  unfold attributeValue
  split
  · next hkey =>
    rw [escapes_bind_iff_of_not]
    · exact ⟨fun h => ⟨hkey, h⟩, fun h => h.2⟩
    · intro value between
      split
      · split <;> exact not_escapes_pure _ _
      · exact not_escapes_pure _ _
  · next hkey =>
    refine iff_of_false (not_escapes_pure _ _) ?_
    exact fun h => absurd h.1 hkey

/-- Entering attributes escapes at the first adjective that does. -/
theorem escapes_enterAttributes_iff {attrs : Table String Node} {pairs : List Node} :
    Escapes error (enterAttributes eval attrs pairs) state ↔
      ∃ v, AdjectiveVisit eval attrs pairs state v ∧ Escapes error (eval v.node) v.state := by
  -- a node that is no key ends the loop, and only an adjective is evaluated
  induction attrs, pairs using enterAttributes.induct generalizing state with
  | case1 attrs key item rest hkey =>
    rw [enterAttributes_of_not_key hkey]
    exact iff_of_false (not_escapes_pure _ _) fun ⟨v, hv, _⟩ =>
      not_adjectiveVisit_of_not_key hkey hv
  | case2 attrs key item rest name hkey ih =>
    rw [enterAttributes_cons hkey, escapes_bind_iff, escapes_attributeValue_iff]
    constructor
    · rintro (⟨hname, hitem⟩ | ⟨result, between, hresult, h⟩)
      · exact ⟨_, (adjectiveVisit_cons_iff hkey).mpr (Or.inl ⟨hname, rfl⟩), hitem⟩
      · cases result with
        | error failure => exact absurd h (not_escapes_pure _ _)
        | ok value =>
          obtain ⟨v, hv, h⟩ := (ih value).mp h
          exact ⟨v, (adjectiveVisit_cons_iff hkey).mpr
            (Or.inr ⟨_, between, hresult, value, rfl, hv⟩), h⟩
    · rintro ⟨v, hv, h⟩
      rcases (adjectiveVisit_cons_iff hkey).mp hv with
        ⟨hname, rfl⟩ | ⟨_, between, hresult, value, rfl, hv⟩
      · exact Or.inl ⟨hname, h⟩
      · exact Or.inr ⟨_, between, hresult, (ih value).mpr ⟨v, hv, h⟩⟩
  | case3 pairs attrs hshort =>
    rw [enterAttributes_of_short hshort]
    exact iff_of_false (not_escapes_pure _ _) fun ⟨v, hv, _⟩ =>
      not_adjectiveVisit_of_short hshort hv

/-- Binding names in order escapes at the first visit that does. -/
theorem escapes_bindInOrder_iff {bindings : List (String × Node)} :
    Escapes error (bindInOrder eval bindings) state ↔
      ∃ v, BindingVisit eval bindings state v ∧ Escapes error (eval v.node) v.state := by
  induction bindings generalizing state with
  | nil => exact iff_of_false (not_escapes_pure _ _) fun ⟨v, hv, _⟩ => not_bindingVisit_nil hv
  | cons binding others ih =>
    obtain ⟨name, value⟩ := binding
    rw [bindInOrder_cons, escapes_bind_iff]
    constructor
    · rintro (hvalue | ⟨bound, between, hbound, h⟩)
      · exact ⟨_, bindingVisit_cons_iff.mpr (Or.inl rfl), hvalue⟩
      · obtain ⟨v, hv, h⟩ := ih.mp h
        exact ⟨v, bindingVisit_cons_iff.mpr (Or.inr ⟨bound, between, hbound, hv⟩), h⟩
    · rintro ⟨v, hv, h⟩
      rcases bindingVisit_cons_iff.mp hv with rfl | ⟨bound, between, hbound, hv⟩
      · exact Or.inl h
      · exact Or.inr ⟨bound, between, hbound, ih.mpr ⟨v, hv, h⟩⟩

/-- Evaluating nodes in order escapes at the first visit that does. -/
theorem escapes_evalSequence_iff {value : Node} {nodes : List Node} :
    Escapes error (evalSequence eval value nodes) state ↔
      ∃ v, SequenceVisit eval value nodes state v ∧ Escapes error (eval v.node) v.state := by
  induction nodes generalizing value state with
  | nil => exact iff_of_false (not_escapes_pure _ _) fun ⟨v, hv, _⟩ => not_sequenceVisit_nil hv
  | cons first others ih =>
    rw [evalSequence_cons, escapes_bind_iff]
    constructor
    · rintro (hfirst | ⟨next, between, hnext, h⟩)
      · exact ⟨_, sequenceVisit_cons_iff.mpr (Or.inl rfl), hfirst⟩
      · obtain ⟨v, hv, h⟩ := ih.mp h
        exact ⟨v, sequenceVisit_cons_iff.mpr (Or.inr ⟨next, between, hnext, hv⟩), h⟩
    · rintro ⟨v, hv, h⟩
      rcases sequenceVisit_cons_iff.mp hv with rfl | ⟨next, between, hnext, hv⟩
      · exact Or.inl h
      · exact Or.inr ⟨next, between, hnext, ih.mpr ⟨v, hv, h⟩⟩

/-- Either the first argument escapes, or it cannot be coerced to the type of its parameter, or it
is bound and the rest escapes. -/
theorem escapes_evalArguments_cons_iff {name : String} {type : TypeTag}
    {params : List (String × TypeTag)} {argument : Node} {arguments : List Node} :
    Escapes error (evalArguments eval ((name, type) :: params) (argument :: arguments)) state ↔
      (Escapes error (eval argument) state ∨ error = .integerTooLarge ∧ type = .float ∧
        ∃ n last, eval argument state = .ok (.int n) last ∧ Binary64.overflow ≤ n.natAbs) ∨
      ∃ value between bound, eval argument state = .ok value between ∧
        bindArgument name type value = .ok (.ok bound) ∧
          Escapes error (evalArguments eval params arguments) between := by
  rw [evalArguments_cons, escapes_bind_iff, or_assoc]
  refine or_congr Iff.rfl ?_
  constructor
  · rintro ⟨value, between, hvalue, h⟩
    rcases escapes_bind_iff.mp h with h | ⟨result, between', hresult, h⟩
    · obtain ⟨herror, htype, n, rfl, hlarge⟩ :=
        bindArgument_eq_error_iff.mp (escapes_ofResult_iff.mp h)
      cases herror
      exact Or.inl ⟨rfl, htype, n, between, hvalue, hlarge⟩
    · obtain ⟨hbound, rfl⟩ := ofResult_eq_ok_iff.mp hresult
      cases result with
      | error failure => exact absurd h (not_escapes_pure _ _)
      | ok bound =>
        exact Or.inr ⟨value, _, bound, hvalue, hbound, escapes_bind_pure_iff.mp h⟩
  · rintro (⟨rfl, rfl, n, between, hvalue, hlarge⟩ | ⟨value, between, bound, hvalue, hbound, h⟩)
    · refine ⟨.int n, between, hvalue, escapes_bind_iff.mpr (Or.inl ?_)⟩
      rw [escapes_ofResult_iff, bindArgument_eq_error_iff]
      exact ⟨rfl, rfl, n, rfl, hlarge⟩
    · refine ⟨value, between, hvalue, ?_⟩
      rw [escapes_bind_iff_of_ok (ofResult_eq_ok_iff.mpr ⟨hbound, rfl⟩)]
      exact escapes_bind_pure_iff.mpr h

/-- Evaluating arguments escapes at the first one that does, or that cannot be coerced to the type
of its parameter. -/
theorem escapes_evalArguments_iff {params : List (String × TypeTag)} {arguments : List Node} :
    Escapes error (evalArguments eval params arguments) state ↔
      ∃ earlier name type later before argument rest bindings reached,
        params = earlier ++ (name, type) :: later ∧ arguments = before ++ argument :: rest ∧
          earlier.length = before.length ∧
            evalArguments eval earlier before state = .ok (.ok bindings) reached ∧
              (Escapes error (eval argument) reached ∨ error = .integerTooLarge ∧
                type = .float ∧ ∃ n last, eval argument reached = .ok (.int n) last ∧
                  Binary64.overflow ≤ n.natAbs) := by
  induction params generalizing arguments state with
  | nil =>
    refine iff_of_false (not_escapes_pure _ _) ?_
    rintro ⟨earlier, name, type, later, before, argument, rest, bindings, reached, heq, -⟩
    simp at heq
  | cons param params ih =>
    obtain ⟨name, type⟩ := param
    cases arguments with
    | nil =>
      refine iff_of_false (not_escapes_pure _ _) ?_
      rintro ⟨earlier, name, type, later, before, argument, rest, bindings, reached, -, heq, -⟩
      simp at heq
    | cons argument arguments =>
      rw [escapes_evalArguments_cons_iff]
      constructor
      · rintro (hfirst | ⟨value, between, bound, hvalue, hbound, h⟩)
        · exact ⟨[], name, type, params, [], argument, arguments, [], state, rfl, rfl, rfl, rfl,
            hfirst⟩
        · obtain ⟨earlier, name', type', later, before, argument', rest, bindings, reached, rfl,
            rfl, hlength, hbefore, hargument⟩ := ih.mp h
          exact ⟨(name, type) :: earlier, name', type', later, argument :: before, argument', rest,
            (name, bound) :: bindings, reached, rfl, rfl, congrArg (· + 1) hlength,
            evalArguments_cons_eq_ok_iff.mpr
              ⟨value, between, bound, bindings, hvalue, hbound, hbefore, rfl⟩, hargument⟩
      · rintro ⟨earlier, name', type', later, before, argument', rest, bindings, reached, hparams,
          harguments, hlength, hbefore, hargument⟩
        -- parameters and arguments are used up together
        match earlier, before with
        | [], [] =>
          cases hparams
          cases harguments
          cases hbefore
          exact Or.inl hargument
        | _ :: earlier, _ :: before =>
          cases hparams
          cases harguments
          obtain ⟨value, between, bound, bindings', hvalue, hbound, htail, rfl⟩ :=
            evalArguments_cons_eq_ok_iff.mp hbefore
          exact Or.inr ⟨value, between, bound, hvalue, hbound,
            ih.mpr ⟨earlier, name', type', later, before, argument', rest, bindings', reached, rfl,
              rfl, Nat.succ.inj hlength, htail, hargument⟩⟩

end Loops

end EntityLisp
