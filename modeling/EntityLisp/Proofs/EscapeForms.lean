import EntityLisp.Proofs.Calls
import EntityLisp.Proofs.Escape

/-!
# Errors of arithmetic in the forms

For each form, which part of it an error of arithmetic comes from. It comes from a node that the
form evaluates, from the fold over the operands of arithmetic (`escapes_runNumeric_iff`), or, in an
application, from an argument that cannot be coerced to the type of its parameter
(`escapes_callClosure_iff`); the forms `impl` and `lambda` make no such error.
-/

namespace EntityLisp

open Run

/-! ### Core forms -/

section Forms

variable {eval : Node → Run Node} {error : ArithmeticError} {state : RunState}

theorem escapes_runList_iff {arguments : List Node} :
    Escapes error (runList eval arguments) state ↔
      Escapes error (evalOperands eval listElement 1 arguments) state := by
  unfold runList
  refine escapes_bind_iff_of_not fun result between => ?_
  cases result <;> exact not_escapes_pure _ _

/-- Arithmetic escapes while its operands are evaluated, or in the fold over them. -/
theorem escapes_runNumeric_iff {op : NumericOp} {arguments : List Node} :
    Escapes error (runNumeric op eval arguments) state ↔
      Escapes error (evalOperands eval (numericOperand op) 1 arguments) state ∨
        ∃ first rest reached, evalOperands eval (numericOperand op) 1 arguments state =
          .ok (.ok (first :: rest)) reached ∧ foldPayloads op first rest = .error error := by
  unfold runNumeric
  rw [escapes_bind_iff]
  refine or_congr Iff.rfl ?_
  constructor
  · rintro ⟨result, reached, hresult, h⟩
    match result with
    | .error failure => exact absurd h (not_escapes_pure _ _)
    | .ok [] => exact absurd h (not_escapes_pure _ _)
    | .ok (first :: rest) =>
      obtain ⟨cause, hcause, heq⟩ := Except.mapError_eq_error_iff.mp (escapes_ofResult_iff.mp h)
      cases heq
      exact ⟨first, rest, reached, hresult, hcause⟩
  · rintro ⟨first, rest, reached, hresult, h⟩
    refine ⟨_, reached, hresult, escapes_ofResult_iff.mpr ?_⟩
    exact Except.mapError_eq_error_iff.mpr ⟨error, h, rfl⟩

theorem escapes_runEq_iff {arguments : List Node} :
    Escapes error (runEq eval arguments) state ↔ ∃ left right, arguments = [left, right] ∧
      (Escapes error (eval left) state ∨ ∃ value reached, eval left state = .ok value reached ∧
        Escapes error (eval right) reached) := by
  unfold runEq
  split
  · next left right =>
    constructor
    · intro h
      refine ⟨left, right, rfl, ?_⟩
      rcases escapes_bind_iff.mp h with hleft | ⟨value, reached, hvalue, h⟩
      · exact Or.inl hleft
      · -- the comparison itself gives a value, whatever the two sides are
        rw [escapes_bind_iff_of_not] at h
        · exact Or.inr ⟨value, reached, hvalue, h⟩
        · intro other after
          split <;> exact not_escapes_pure _ _
    · rintro ⟨left', right', heq, h⟩
      cases heq
      refine escapes_bind_iff.mpr ?_
      rcases h with hleft | ⟨value, reached, hvalue, hright⟩
      · exact Or.inl hleft
      · exact Or.inr ⟨value, reached, hvalue, escapes_bind_iff.mpr (Or.inl hright)⟩
  · next hcount =>
    refine iff_of_false (not_escapes_pure _ _) ?_
    rintro ⟨left, right, rfl, -⟩
    exact absurd rfl (hcount left right)

/-! ### The `entity` form -/

theorem escapes_buildAttributes_iff {pairs : List Node} :
    Escapes error (buildAttributes eval pairs) state ↔
      unpairedKey? pairs = none ∧ Escapes error (enterAttributes eval [] pairs) state := by
  unfold buildAttributes
  split
  · next key hkey =>
    refine iff_of_false (not_escapes_pure _ _) ?_
    rintro ⟨hnone, -⟩
    rw [hkey] at hnone
    cases hnone
  · next hnone => exact ⟨fun h => ⟨hnone, h⟩, fun h => h.2⟩

theorem escapes_payloadOf_iff {node : Node} : Escapes error (payloadOf eval node) state ↔
    node.isEvaluatedPayload = true ∧ Escapes error (eval node) state := by
  unfold payloadOf
  split
  · next hevaluated =>
    rw [escapes_bind_pure_iff]
    exact ⟨fun h => ⟨hevaluated, h⟩, fun h => h.2⟩
  · next hplain =>
    refine iff_of_false (not_escapes_pure _ _) ?_
    exact fun h => absurd h.1 hplain

theorem not_escapes_refuseEntity (e : Entity Node) (state : RunState) :
    ¬Escapes error (refuseEntity e) state := not_escapes_of_ok rfl

theorem attributePairs?_eq_some_iff {attrs? : Option Node} {pairs : List Node} :
    attributePairs? attrs? = some pairs ↔ attrs? = some (.form (.symbol mapHead :: pairs)) := by
  unfold attributePairs?
  split
  · next head pairs' =>
    split
    · next hhead => simp [hhead]
    · next hhead => simp [hhead]
  · next hother =>
    constructor
    · rintro ⟨⟩
    · exact fun h => absurd h (hother mapHead pairs)

/-- Finishing an entity that is usable escapes while its attributes are built. -/
theorem escapes_finishEntity_iff {typeName : String} {payload : Node} {attrs? : Option Node} :
    Escapes error (finishEntity eval typeName payload attrs?) state ↔
      ∃ e pairs, makeEntity typeName payload [] = .ok e ∧ e.isError = false ∧
        attrs? = some (.form (.symbol mapHead :: pairs)) ∧
          Escapes error (buildAttributes eval pairs) state := by
  unfold finishEntity
  split
  · next failure hfailure =>
    refine iff_of_false (not_escapes_refuseEntity _ _) ?_
    rintro ⟨e, pairs, he, -⟩
    rw [hfailure] at he
    cases he
  · next e he =>
    rw [he]
    split
    · next hunusable =>
      refine iff_of_false (not_escapes_refuseEntity _ _) ?_
      rintro ⟨e', pairs, ⟨⟩, husable, -⟩
      rw [hunusable] at husable
      cases husable
    · next husable =>
      split
      · next hnone =>
        refine iff_of_false (not_escapes_pure _ _) ?_
        rintro ⟨e', pairs, -, -, hattrs, -⟩
        rw [attributePairs?_eq_some_iff.mpr hattrs] at hnone
        cases hnone
      · next pairs hpairs =>
        rw [attributePairs?_eq_some_iff] at hpairs
        rw [escapes_bind_iff_of_not]
        · constructor
          · exact fun h => ⟨e, pairs, rfl, eq_false_of_ne_true husable, hpairs, h⟩
          · rintro ⟨e', pairs', -, -, hattrs, h⟩
            rw [hpairs] at hattrs
            cases hattrs
            exact h
        · intro result between
          split <;> exact not_escapes_pure _ _

/-- No entity has an entity as its payload. -/
theorem makeEntity_entity_ne_ok (typeName : String) (e e' : Entity Node) :
    makeEntity typeName (.entity e) [] ≠ .ok e' := by
  intro h
  have haccepts := (isFit_of_makeEntity h).accepts
  rw [(kind_of_makeEntity h).2.1] at haccepts
  cases hkind : e'.kind <;> rw [hkind] at haccepts <;> cases haccepts

/-- Building an entity escapes while its payload is evaluated, or after that while its attributes
are built. -/
theorem escapes_buildEntity_iff {kind value : Node} {attrs? : Option Node} :
    Escapes error (buildEntity eval kind value attrs?) state ↔
      Escapes error (payloadOf eval value) state ∨
        ∃ payload between, payloadOf eval value state = .ok payload between ∧
          Escapes error (finishEntity eval (typeNameOf kind) payload attrs?) between := by
  unfold buildEntity
  rw [escapes_bind_iff]
  refine or_congr Iff.rfl (exists_congr fun payload => exists_congr fun between =>
    and_congr Iff.rfl ?_)
  split
  · next e =>
    split
    -- an error entity is handed on, and could not be a payload anyway
    · refine iff_of_false (not_escapes_pure _ _) ?_
      intro h
      obtain ⟨e', pairs, he', -⟩ := escapes_finishEntity_iff.mp h
      exact absurd he' (makeEntity_entity_ne_ok _ _ _)
    · exact Iff.rfl
  · exact Iff.rfl

theorem escapes_runEntity_iff {arguments : List Node} :
    Escapes error (runEntity eval arguments) state ↔
      ∃ kind value attrs, arguments = kind :: value :: attrs ∧ attrs.length ≤ 1 ∧
        Escapes error (buildEntity eval kind value attrs.head?) state := by
  unfold runEntity
  split
  · next kind value =>
    constructor
    · exact fun h => ⟨kind, value, [], rfl, by simp, h⟩
    · rintro ⟨kind', value', attrs, heq, -, h⟩
      cases heq
      exact h
  · next kind value attrs =>
    constructor
    · exact fun h => ⟨kind, value, [attrs], rfl, by simp, h⟩
    · rintro ⟨kind', value', attrs', heq, -, h⟩
      cases heq
      exact h
  · next htwo hthree =>
    refine iff_of_false (not_escapes_pure _ _) ?_
    rintro ⟨kind, value, attrs, rfl, hshort, -⟩
    match attrs with
    | [] => exact absurd rfl (htwo kind value)
    | [attrs] => exact absurd rfl (hthree kind value attrs)
    | _ :: _ :: rest => simp at hshort

/-! ### The `let`, `impl` and `lambda` forms -/

theorem not_escapes_forM_report (names : List String) (state : RunState) :
    ¬Escapes error (names.forM fun name => report (.closureFixed name)) state := by
  induction names generalizing state with
  | nil => exact not_escapes_pure _ _
  | cons name rest ih => exact ih _

theorem not_escapes_fixCurrent (state : RunState) : ¬Escapes error fixCurrent state :=
  not_escapes_forM_report _ _

/-- A `let` escapes while a name is bound, or in its body. -/
theorem escapes_runBody_iff {bindings : List (String × Node)} {body : List Node} :
    Escapes error (runBody eval bindings body) state ↔
      Escapes error (bindInOrder eval bindings)
        (state.reporting (.letScope bindings.length)) ∨
      ∃ before item rest value reached, body = before ++ item :: rest ∧
        runBody eval bindings before state = .ok value reached ∧
          Escapes error (eval item) reached := by
  -- fixing the closures of the scope stands between the bindings and the body
  unfold runBody
  rw [escapes_bind_iff_of_ok (report_apply _ _), escapes_bind_iff]
  refine or_congr Iff.rfl ?_
  constructor
  · rintro ⟨_, bound, hbound, h⟩
    rw [escapes_bind_iff] at h
    rcases h with h | ⟨_, fixed, hfixed, h⟩
    · exact absurd h (not_escapes_fixCurrent _)
    · obtain ⟨_, ⟨before, item, rest, rfl, value, reached, hbefore, rfl⟩, hitem⟩ :=
        escapes_evalSequence_iff.mp h
      refine ⟨before, item, rest, value, reached, rfl, ?_, hitem⟩
      rw [bind_of_ok (report_apply _ _), bind_of_ok hbound, bind_of_ok hfixed]
      exact hbefore
  · rintro ⟨before, item, rest, value, reached, rfl, hbefore, hitem⟩
    rw [bind_of_ok (report_apply _ _), bind_eq_ok_iff] at hbefore
    obtain ⟨done, bound, hbound, hbefore⟩ := hbefore
    obtain ⟨done', fixed, hfixed, hbefore⟩ := bind_eq_ok_iff.mp hbefore
    refine ⟨done, bound, hbound, ?_⟩
    rw [escapes_bind_iff_of_ok hfixed]
    exact escapes_evalSequence_iff.mpr
      ⟨_, ⟨before, item, rest, rfl, value, reached, hbefore, rfl⟩, hitem⟩

theorem escapes_runLet_iff {arguments : List Node} :
    Escapes error (runLet eval arguments) state ↔
      ∃ nodes body bindings, arguments = .form nodes :: body ∧
        readBindings nodes = .ok bindings ∧ Escapes error (runBody eval bindings body) state := by
  unfold runLet
  split
  · next nodes body =>
    split
    · next node hnode =>
      refine iff_of_false (not_escapes_pure _ _) ?_
      rintro ⟨nodes', body', bindings, heq, hread, -⟩
      cases heq
      rw [hnode] at hread
      cases hread
    · next bindings hread =>
      rw [escapes_bind_iff_of_ok (scope_apply _), escapes_within_iff]
      constructor
      · exact fun h => ⟨nodes, body, bindings, rfl, hread, h⟩
      · rintro ⟨nodes', body', bindings', heq, hread', h⟩
        cases heq
        rw [hread] at hread'
        cases hread'
        exact h
  · next hform =>
    refine iff_of_false (not_escapes_pure _ _) ?_
    rintro ⟨nodes, body, bindings, rfl, -⟩
    exact absurd rfl (hform nodes body)

theorem not_escapes_runImpl (arguments : List Node) (state : RunState) :
    ¬Escapes error (runImpl arguments) state := by
  unfold runImpl
  split
  · split
    · split
      · next t k _ _ =>
        have hdeclare : ∃ after, declareTrait k t state = .ok () after := by
          unfold declareTrait
          rw [scope_bind_apply]
          split
          · exact ⟨_, rfl⟩
          · exact ⟨_, rfl⟩
        obtain ⟨after, hafter⟩ := hdeclare
        rw [escapes_bind_iff_of_ok hafter]
        exact not_escapes_pure _ _
      · exact not_escapes_pure _ _
    · exact not_escapes_pure _ _
  · exact not_escapes_pure _ _

theorem not_escapes_runLambda (arguments : List Node) (state : RunState) :
    ¬Escapes error (runLambda arguments) state := by
  unfold runLambda
  split
  · split
    · exact not_escapes_pure _ _
    · split
      · exact not_escapes_throw rfl _
      · exact not_escapes_of_ok rfl
  · exact not_escapes_pure _ _

/-! ### Applications -/

theorem escapes_runCall_iff {c : Closure Node} {scope : Scope Node} :
    Escapes error (runCall eval c scope) state ↔
      Escapes error (eval c.body) (state.inScope (bodyScope c scope)) := by
  unfold runCall bodyScope
  split
  · exact escapes_within_iff
  · rw [escapes_bind_pure_iff]
    exact escapes_within_iff

/-- **An argument cannot be coerced** in an application that has started: it is an integer that is
too large, for a parameter of type `Float`. -/
def CoercionOverflows (argEval : Node → Run Node) (c : Closure Node) (arguments : List Node)
    (start : RunState) : Prop :=
  ∃ earlier name later before argument rest bindings reached n last,
    c.params = earlier ++ (name, .float) :: later ∧ arguments = before ++ argument :: rest ∧
      earlier.length = before.length ∧
        evalArguments argEval earlier before (start.inScope (c.scope.mergedWith start.scope)) =
          .ok (.ok bindings) reached ∧
            argEval argument reached = .ok (.int n) last ∧ Binary64.overflow ≤ n.natAbs

/-- An application that has started escapes at a coercion or in one of its calls. -/
theorem escapes_callClosure_iff {c : Closure Node} {arguments : List Node} :
    Escapes error (callClosure eval c arguments) state ↔ arguments.length = c.arity ∧
      ((error = .integerTooLarge ∧ CoercionOverflows eval c arguments state) ∨
        ∃ child reached, CallsInside eval c arguments state child reached ∧
          Escapes error (eval child) reached) := by
  unfold callClosure
  split
  · next hcount =>
    rw [escapes_bind_iff_of_ok (scope_apply _), escapes_bind_iff, escapes_within_iff,
      escapes_evalArguments_iff]
    constructor
    · rintro (⟨earlier, name, type, later, before, argument, rest, bindings, reached, hparams,
        hsplit, haligned, hbound, h | ⟨herror, rfl, n, last, hvalue, hlarge⟩⟩ |
        ⟨result, between, hresult, h⟩)
      · exact ⟨hcount, Or.inr ⟨argument, reached, .argument hparams hsplit haligned hbound, h⟩⟩
      · exact ⟨hcount, Or.inl ⟨herror, earlier, name, later, before, argument, rest, bindings,
          reached, n, last, hparams, hsplit, haligned, hbound, hvalue, hlarge⟩⟩
      · obtain ⟨bound, hbound, rfl⟩ := within_eq_ok_iff.mp hresult
        cases result with
        | error failure => exact absurd h (not_escapes_pure _ _)
        | ok bindings =>
          have hbody : Escapes error (runCall eval c
              ((c.scope.mergedWith state.scope).defineAll bindings)) (bound.inScope state.scope) :=
            h
          -- the scope of the caller has been put back, and does not matter in the body
          rw [escapes_runCall_iff] at hbody
          exact ⟨hcount, Or.inr ⟨c.body, _, .body hbound, hbody⟩⟩
    · rintro ⟨-, ⟨herror, earlier, name, later, before, argument, rest, bindings, reached, n, last,
        hparams, hsplit, haligned, hbound, hvalue, hlarge⟩ | ⟨child, reached, hcalls, h⟩⟩
      · exact Or.inl ⟨earlier, name, .float, later, before, argument, rest, bindings, reached,
          hparams, hsplit, haligned, hbound, Or.inr ⟨herror, rfl, n, last, hvalue, hlarge⟩⟩
      · cases hcalls with
        | @argument earlier later name type before rest _ bindings _ hparams hsplit haligned
            hbound =>
          exact Or.inl ⟨earlier, name, type, later, before, child, rest, bindings, reached,
            hparams, hsplit, haligned, hbound, Or.inl h⟩
        | @body bindings bound hbound =>
          refine Or.inr ⟨.ok bindings, _, within_eq_ok_iff.mpr ⟨bound, hbound, rfl⟩, ?_⟩
          exact escapes_runCall_iff.mpr h
  · next hcount =>
    refine iff_of_false (not_escapes_pure _ _) ?_
    exact fun h => absurd h.1 hcount

theorem not_escapes_reportStopped (c : Closure Node) (stop : EvalError) (state : RunState) :
    ¬Escapes error (reportStopped c stop) state := not_escapes_of_ok rfl

theorem escapes_applyClosure_iff {c : Closure Node} {arguments : List Node} :
    Escapes error (applyClosure eval c arguments) state ↔
      Escapes error (callClosure eval c arguments)
        (state.reporting (.applied c.signature arguments.length)) := by
  unfold applyClosure
  rw [escapes_bind_iff_of_ok (report_apply _ _),
    escapes_contain_iff (not_escapes_reportStopped c)]

/-! ### Forms in general -/

theorem sugar?_eq_role_iff {head : Node} {role : Role} :
    head.sugar? = some (.role role) ↔ head = .symbol role.head := by
  constructor
  · intro h
    cases head with
    | symbol name =>
      replace h : Sugar.ofName? name = some (.role role) := h
      unfold Sugar.ofName? at h
      split at h
      · split at h <;> cases h
      · obtain ⟨role', hrole, heq⟩ := Option.map_eq_some_iff.mp h
        cases heq
        rw [Role.head_of_ofHead? hrole]
    | _ => cases h
  · rintro rfl
    cases role <;> decide

/-- Freeing a form of sugar escapes at an attribute of a noun in a role. -/
theorem escapes_desugar_iff {head : Node} {arguments : List Node} :
    Escapes error (desugar eval head arguments) state ↔
      ∃ (role : Role) (value : Node) (pairs : List Node), head = .symbol role.head ∧
        arguments = value :: pairs ∧ unpairedKey? pairs = none ∧
          Escapes error (evalValues eval pairs) state := by
  unfold desugar
  split
  · next hsugar =>
    refine iff_of_false (not_escapes_pure _ _) ?_
    rintro ⟨role, value, pairs, hhead, -⟩
    rw [sugar?_eq_role_iff.mpr hhead] at hsugar
    cases hsugar
  · next tag hsugar =>
    refine iff_of_false (not_escapes_pure _ _) ?_
    rintro ⟨role, value, pairs, hhead, -⟩
    rw [sugar?_eq_role_iff.mpr hhead] at hsugar
    cases hsugar
  · next role hsugar =>
    have hhead := sugar?_eq_role_iff.mp hsugar
    split
    · refine iff_of_false (not_escapes_pure _ _) ?_
      rintro ⟨role', value, pairs, -, ⟨⟩, -⟩
    · next value pairs =>
      split
      · next key hkey =>
        refine iff_of_false (not_escapes_pure _ _) ?_
        rintro ⟨role', value', pairs', -, ⟨⟩, hnone, -⟩
        rw [hkey] at hnone
        cases hnone
      · next hnone =>
        rw [escapes_bind_pure_iff]
        constructor
        · exact fun h => ⟨role, value, pairs, hhead, rfl, hnone, h⟩
        · rintro ⟨role', value', pairs', -, ⟨⟩, -, h⟩
          exact h

theorem escapes_headValue_iff {head : Node} : Escapes error (headValue eval head) state ↔
    ∃ items, head = .form items ∧ Escapes error (eval (.form items)) state := by
  unfold headValue
  split
  · next name =>
    refine iff_of_false (not_escapes_lookup _ _) ?_
    rintro ⟨items, ⟨⟩, -⟩
  · next items =>
    constructor
    · exact fun h => ⟨items, rfl, h⟩
    · rintro ⟨items', ⟨⟩, h⟩
      exact h
  · next hform =>
    refine iff_of_false (not_escapes_pure _ _) ?_
    rintro ⟨items, rfl, -⟩
    exact absurd rfl (hform items)

theorem escapes_applyHead_iff {head value : Node} {arguments : List Node} :
    Escapes error (applyHead eval head value arguments) state ↔
      ∃ c, value = .closure c ∧ Escapes error (applyClosure eval c arguments) state := by
  unfold applyHead
  split
  · next c =>
    constructor
    · exact fun h => ⟨c, rfl, h⟩
    · rintro ⟨c', ⟨⟩, h⟩
      exact h
  · next e =>
    constructor
    · intro h
      split at h
      · exact absurd h (not_escapes_pure _ _)
      · exact absurd h (not_escapes_throw rfl _)
    · rintro ⟨c, ⟨⟩, -⟩
  · next hclosure _ =>
    refine iff_of_false (not_escapes_throw rfl _) ?_
    rintro ⟨c, rfl, -⟩
    exact absurd rfl (hclosure c)

end Forms

end EntityLisp
