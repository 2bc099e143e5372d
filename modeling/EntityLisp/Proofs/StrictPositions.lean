import EntityLisp.Proofs.CallScopes
import EntityLisp.Proofs.RoleForms

/-!
# Strict positions

A position of a form is strict if an error entity in it is never the end of the matter: the form
gives an error entity as well, or stops.

* `StrictPosition`: the strict positions of a form, each with the states in which its node is
  evaluated.
* `StrictPosition.fails`: **a form fails with any of its strict positions,** whatever its other
  operands, keys and arguments do.
* `errors_reach_the_form`: so does a form with an error in a strict position of a strict position,
  nested as deep as may be.
-/

namespace EntityLisp

open Node Run

/-! ### Failing -/

/-- **An outcome that is no proper value:** evaluation has stopped, or has given an entity that
reports an error. -/
def Fails (outcome : EStateM.Result EvalError RunState Node) : Prop :=
  ∀ value after, outcome = .ok value after → ∃ e, value = .entity e ∧ e.isError = true

theorem fails_entity {e : Entity Node} (h : e.isError = true) (state : RunState) :
    Fails (.ok (.entity e) state) := by
  rintro value after ⟨⟩
  exact ⟨e, rfl, h⟩

theorem fails_failure (failure : Failure) (state : RunState) :
    Fails (.ok failure.toNode state) := fails_entity failure.isError_toEntity state

theorem fails_error (error : EvalError) (state : RunState) : Fails (.error error state) := by
  rintro value after ⟨⟩

/-- An action fails if what comes behind its first step does. -/
theorem fails_bind {α : Type} {action : Run α} {next : α → Run Node} {state : RunState}
    (h : ∀ value between, action state = .ok value between → Fails (next value between)) :
    Fails ((action >>= next) state) := by
  cases hrun : action state with
  | ok value between =>
    rw [bind_of_ok hrun]
    exact h value between hrun
  | error error between =>
    rw [bind_of_error hrun]
    exact fails_error error between

/-- Where evaluation fails, a value is an entity of type `Error`. -/
theorem Fails.kind_eq {value : Node} {after : RunState} {e : Entity Node}
    (h : Fails (.ok value after)) (he : value = .entity e) : e.kind = .error := by
  obtain ⟨e', rfl, herror⟩ := h value after rfl
  cases he
  exact beq_iff_eq.mp herror

/-- An error entity evaluates to itself. -/
theorem fails_eval_entity (limit levels : Nat) {e : Entity Node} (h : e.isError = true)
    (state : RunState) : Fails (eval limit levels (.entity e) state) := by
  cases levels with
  | zero => exact fails_error _ _
  | succ levels =>
    rw [eval_succ]
    exact fails_entity h state

/-! ### Operands -/

section Evaluator

variable {eval argEval : Node → Run Node}

/-- Of nodes that evaluate in order, one in the middle does where those before it have left the
state. -/
theorem EvaluatesInOrder.exists_middle {before rest values : List Node} {item : Node}
    {state after : RunState}
    (h : EvaluatesInOrder eval (before ++ item :: rest) values state after) :
    ∃ earlier value reached next, EvaluatesInOrder eval before earlier state reached ∧
      eval item reached = .ok value next ∧ value ∈ values := by
  induction before generalizing values state with
  | nil =>
    cases h with
    | cons first others => exact ⟨[], _, state, _, .nil state, first, List.mem_cons_self⟩
  | cons node nodes ih =>
    cases h with
    | cons first others =>
      obtain ⟨earlier, value, reached, next, hearlier, hitem, hmem⟩ := ih others
      exact ⟨_ :: earlier, value, reached, next, .cons first hearlier, hitem,
        List.mem_cons_of_mem _ hmem⟩

/-- No form takes up an error entity. -/
theorem OperandForm.takes_error (form : OperandForm) : form.takes .error = false := by
  cases form <;> rfl

/-- **A form that takes up its operands** fails with any of them. -/
theorem fails_operands (form : OperandForm) {before rest : List Node} {item : Node}
    {start : RunState}
    (h : ∀ values reached, EvaluatesInOrder eval before values start reached →
      Fails (eval item reached)) :
    Fails (runCore eval form.core (before ++ item :: rest) start) := by
  obtain ⟨outcome, houtcome⟩ := exists_operandOutcome form eval (before ++ item :: rest) start
  rw [houtcome.runCore_eq]
  cases houtcome with
  | refused => exact fails_failure _ _
  | stopped => exact fails_error _ _
  | @taken es after evaluated all =>
    -- an error entity would be among those that are taken up
    obtain ⟨earlier, value, reached, next, hearlier, hitem, hmem⟩ := evaluated.exists_middle
    obtain ⟨e, he, heq⟩ := List.mem_map.mp hmem
    have hfails := h earlier reached hearlier
    rw [hitem] at hfails
    have htakes := all e he
    rw [hfails.kind_eq heq.symm, form.takes_error] at htakes
    cases htakes

theorem comparable_of_isError {e : Entity Node} (h : e.isError = true) :
    comparable (.entity e) = .error (.eqOperand (Node.entity e).describe) := if_pos h

/-- A comparison with an error entity is refused. -/
theorem compareValues_of_isError {left right : Node} {e : Entity Node}
    (h : left = .entity e ∨ right = .entity e) (herror : e.isError = true) :
    ∃ failure, compareValues left right = .error failure := by
  unfold compareValues
  rcases h with rfl | rfl
  · rw [comparable_of_isError herror]
    exact ⟨_, rfl⟩
  · rw [comparable_of_isError herror]
    cases comparable left with
    | error failure => exact ⟨failure, rfl⟩
    | ok a => exact ⟨_, rfl⟩

/-- A comparison fails if either side turns out to be an error entity: both sides are evaluated
before either is looked at. -/
theorem fails_sides {left right : Node} {start : RunState}
    (h : ∀ a b between last, eval left start = .ok a between → eval right between = .ok b last →
      ∃ e, (a = .entity e ∨ b = .entity e) ∧ e.isError = true) :
    Fails (runCore eval .eq [left, right] start) := by
  show Fails (runEq eval [left, right] start)
  unfold runEq
  refine fails_bind fun a between hleft => fails_bind fun b last hright => ?_
  obtain ⟨e, hside, herror⟩ := h a b between last hleft hright
  obtain ⟨failure, hfailure⟩ := compareValues_of_isError hside herror
  rw [hfailure]
  exact fails_failure failure last

/-- **A comparison** fails with either side, and with any other number of operands. -/
theorem fails_comparison {before rest : List Node} {item : Node} {start : RunState}
    (h : ∀ values reached, EvaluatesInOrder eval before values start reached →
      Fails (eval item reached)) :
    Fails (runCore eval .eq (before ++ item :: rest) start) := by
  match before, rest with
  | [], [right] =>
    refine fails_sides fun a b between last hleft _ => ?_
    obtain ⟨e, he, herror⟩ := h [] start (.nil start) a between hleft
    exact ⟨e, Or.inl he, herror⟩
  | [left], [] =>
    refine fails_sides fun a b between last hleft hright => ?_
    obtain ⟨e, he, herror⟩ := h [a] between (.cons hleft (.nil between)) b last hright
    exact ⟨e, Or.inr he, herror⟩
  | [], [] | [], _ :: _ :: _ | [_], _ :: _ | _ :: _ :: [], _ | _ :: _ :: _ :: _, _ =>
    exact fails_failure _ _

/-! ### Payloads and adjectives -/

/-- **Nodes that build an entity** from arguments: an `entity` form, or a type as a head. -/
inductive WritesEntity : Node → List Node → Prop where
  | entity (arguments : List Node) :
      WritesEntity (.form (.symbol CoreForm.entity.name :: arguments)) arguments
  | sugar {head : Node} {tag : TypeTag} (named : head.sugar? = some (.type tag))
      (arguments : List Node) :
      WritesEntity (.form (head :: arguments)) (foldAttributes (head :: arguments))

/-- The state in which an `entity` form starts. -/
def RunState.startEntity (state : RunState) : RunState :=
  state.reporting (.coreForm CoreForm.entity.name)

theorem WritesEntity.evalNode_eq {node : Node} {arguments : List Node}
    (h : WritesEntity node arguments) (state : RunState) :
    evalNode eval argEval node state = runEntity eval arguments state.startEntity := by
  cases h with
  | entity arguments =>
    rw [evalNode_core, bind_of_ok (report_apply _ state)]
    rfl
  | @sugar head tag named arguments =>
    have hfreed : desugar eval head arguments =
        pure (.ok (entityForm (foldAttributes (head :: arguments)))) := by
      unfold desugar
      rw [named]
    rw [evalNode_form, hfreed, pure_bind]
    exact congrFun (runForm_core .entity (foldAttributes (head :: arguments))) state

/-- **An `entity` form fails with its payload.** -/
theorem fails_payload {kind value : Node} {attrs : List Node} {state : RunState}
    (hevaluated : value.isEvaluatedPayload = true) (h : Fails (eval value state)) :
    Fails (runEntity eval (kind :: value :: attrs) state) := by
  have hbuild : ∀ attrs?, Fails (buildEntity eval kind value attrs? state) := by
    intro attrs?
    have hpayload : payloadOf eval value = eval value >>= fun found => pure found.lentPayload :=
      if_pos hevaluated
    show Fails ((payloadOf eval value >>= fun payload => _) state)
    rw [hpayload, bind_assoc]
    refine fails_bind fun found between hfound => ?_
    obtain ⟨e, rfl, herror⟩ := h found between hfound
    have hlent : lentPayload (.entity e) = .entity e := if_pos herror
    rw [pure_bind, hlent]
    simp only [herror, ↓reduceIte]
    exact fails_entity herror between
  match attrs with
  | [] => exact hbuild none
  | [attrs] => exact hbuild (some attrs)
  | _ :: _ :: _ => exact fails_failure _ _

/-- **Attributes among which an adjective fails** are not built. -/
theorem not_buildAttributes {before : List (Node × Node)} {key item : Node} {rest : List Node}
    {state : RunState} (hkey : key.mapKey? = some adjectiveKey)
    (h : ∀ kept reached, AttributesKept eval before kept state reached → Fails (eval item reached))
    (attrs : Table String Node) (after : RunState) :
    buildAttributes eval (alternate before ++ key :: item :: rest) state ≠
      .ok (.ok attrs) after := by
  intro hbuilt
  cases hunpaired : unpairedKey? (alternate before ++ key :: item :: rest) with
  | some last =>
    simp only [buildAttributes, hunpaired] at hbuilt
    cases hbuilt
  | none =>
    simp only [buildAttributes, hunpaired] at hbuilt
    obtain ⟨kept, reached, hkept, hothers⟩ := enterAttributes_append_eq_ok_iff.mp hbuilt
    obtain ⟨name, held, between, hname, hheld, -⟩ := enterAttributes_cons_eq_ok_iff.mp hothers
    obtain rfl : adjectiveKey = name := Option.some.inj (hkey.symm.trans hname)
    obtain ⟨e, hfound, hkind, -⟩ := attributeValue_adjective_eq_ok_iff.mp hheld
    -- an adjective is not of type `Error`
    have hfails := h kept reached hkept
    rw [hfound] at hfails
    rw [hfails.kind_eq rfl] at hkind
    cases hkind

/-- An entity whose attributes are not built is not finished. -/
theorem fails_finishEntity {typeName : String} {payload : Node} {pairs : List Node}
    {state : RunState}
    (h : ∀ attrs after, buildAttributes eval pairs state ≠ .ok (.ok attrs) after) :
    Fails (finishEntity eval typeName payload (some (.form (.symbol mapHead :: pairs))) state) := by
  unfold finishEntity
  cases makeEntity typeName payload [] with
  | error failure => exact fails_failure failure _
  | ok e =>
    by_cases herror : e.isError = true
    · simp only [herror, ↓reduceIte]
      exact fails_entity herror _
    · simp only [herror, attributePairs?_eq_some_iff.mpr rfl]
      refine fails_bind fun built after hbuilt => ?_
      cases built with
      | error failure => exact fails_failure failure after
      | ok attrs => exact absurd hbuilt (h attrs after)

/-- **An `entity` form whose attributes are not built** fails, whatever its payload is. -/
theorem fails_attributes {kind value : Node} {pairs : List Node} {state : RunState}
    (h : ∀ payload between, payloadOf eval value state = .ok payload between →
      ∀ attrs after, buildAttributes eval pairs between ≠ .ok (.ok attrs) after) :
    Fails (runEntity eval [kind, value, .form (.symbol mapHead :: pairs)] state) := by
  show Fails (buildEntity eval kind value (some (.form (.symbol mapHead :: pairs))) state)
  unfold buildEntity
  refine fails_bind fun payload between hpayload => ?_
  have hfinish : Fails (finishEntity eval (typeNameOf kind) payload
      (some (.form (.symbol mapHead :: pairs))) between) :=
    fails_finishEntity (h payload between hpayload)
  cases payload with
  | entity e =>
    by_cases herror : e.isError = true
    · simp only [herror, ↓reduceIte]
      exact fails_entity herror between
    · simp only [herror]
      exact hfinish
  | _ => exact hfinish

/-! ### Nouns in a role -/

/-- A noun in a role is built, if at all, from its evaluated items. -/
theorem fails_roleForm {role : Role} {value : Node} {trailing : List Node} {state : RunState}
    (h : ∀ attrs between, evalValues eval trailing state = .ok attrs between →
      Fails (runEntity eval (roleArguments role value attrs) between.startEntity)) :
    Fails (evalNode eval argEval (roleForm role value trailing) state) := by
  cases hunpaired : unpairedKey? trailing with
  | some key =>
    rw [evalNode_roleForm_of_unpaired hunpaired]
    exact fails_failure _ _
  | none =>
    rw [roleForm, evalNode_form, desugar_role hunpaired, bind_assoc]
    refine fails_bind fun attrs between hattrs => ?_
    have hrun : runForm eval argEval (.symbol CoreForm.entity.name) (roleArguments role value attrs)
        between = runEntity eval (roleArguments role value attrs) between.startEntity :=
      congrFun (runForm_core .entity _) between
    rw [pure_bind]
    show Fails (runForm eval argEval (.symbol CoreForm.entity.name) (roleArguments role value attrs)
      between)
    rw [hrun]
    exact h attrs between hattrs

/-- Evaluated items are those of the keys and items in front, and then the others. -/
theorem exists_of_evalValues {before : List (Node × Node)} {key item : Node}
    {rest attrs : List Node} {state after : RunState}
    (h : evalValues eval (alternate before ++ key :: item :: rest) state = .ok attrs after) :
    ∃ values reached found next others, EvaluatesInOrder eval (before.map Prod.snd) values state
      reached ∧ eval item reached = .ok found next ∧
        attrs = alternate ((before.map Prod.fst).zip values) ++ key :: found :: others := by
  induction before generalizing attrs state with
  | nil =>
    rw [show alternate [] = [] from rfl, List.nil_append, evalValues_cons] at h
    obtain ⟨found, next, hfound, h⟩ := bind_eq_ok_iff.mp h
    obtain ⟨others, last, -, ⟨⟩⟩ := bind_eq_ok_iff.mp h
    exact ⟨[], state, found, next, others, .nil state, hfound, rfl⟩
  | cons pair pairs ih =>
    obtain ⟨first, node⟩ := pair
    rw [alternate_cons, List.cons_append, List.cons_append, evalValues_cons] at h
    obtain ⟨value, between, hvalue, h⟩ := bind_eq_ok_iff.mp h
    obtain ⟨evaluated, last, hevaluated, ⟨⟩⟩ := bind_eq_ok_iff.mp h
    obtain ⟨values, reached, found, next, others, hvalues, hfound, rfl⟩ := ih hevaluated
    exact ⟨value :: values, reached, found, next, others, .cons hvalue hvalues, hfound, rfl⟩

/-- **A noun in a role fails with an adjective.** What is evaluated for it stands in the form that
is built and is evaluated there once more. -/
theorem fails_roleAdjective (hself : ∀ {e : Entity Node}, e.isError = true →
      ∀ state, Fails (eval (.entity e) state)) {role : Role} {value key item : Node}
    {before : List (Node × Node)} {rest : List Node} {state : RunState}
    (hkey : key.mapKey? = some adjectiveKey)
    (h : ∀ values reached, EvaluatesInOrder eval (before.map Prod.snd) values state reached →
      Fails (eval item reached)) :
    Fails (evalNode eval argEval (roleForm role value (alternate before ++ key :: item :: rest))
      state) := by
  refine fails_roleForm fun attrs between hattrs => ?_
  obtain ⟨values, reached, found, next, others, hvalues, hfound, rfl⟩ := exists_of_evalValues hattrs
  obtain ⟨e, rfl, herror⟩ := h values reached hvalues found next hfound
  refine fails_attributes fun payload between _ attrs after => ?_
  show buildAttributes eval ((_ ++ key :: .entity e :: others) ++ _) between ≠ _
  rw [List.append_assoc, List.cons_append, List.cons_append]
  exact not_buildAttributes hkey (fun _ last _ => hself herror last) attrs after

/-! ### Applications -/

/-- **A form that applies a closure:** its head is neither sugar nor the name of a core form, and
comes to the closure. -/
def Applies (eval : Node → Run Node) (node : Node) (state : RunState) (c : Closure Node)
    (arguments : List Node) (found : RunState) : Prop :=
  ∃ head, node = .form (head :: arguments) ∧ head.sugar? = none ∧
    (∀ form : CoreForm, head ≠ .symbol form.name) ∧
      headValue eval head state = .ok (.closure c) found

theorem Applies.evalNode_eq {node : Node} {arguments : List Node} {c : Closure Node}
    {state found : RunState} (h : Applies eval node state c arguments found) :
    evalNode eval argEval node state = applyClosure argEval c arguments found := by
  obtain ⟨head, rfl, hsugar, hcore, hfound⟩ := h
  rw [evalNode_form, desugar_of_sugar?_eq_none hsugar, pure_bind]
  show runForm eval argEval head arguments state = _
  rw [runForm_of_not_core hcore, bind_of_ok hfound]
  rfl

/-- Of arguments that pass, one in the middle is accepted where those before it have left the
state. -/
theorem ArgumentsPass.exists_middle {earlier later : List (String × TypeTag)} {name : String}
    {type : TypeTag} {before rest : List Node} {item : Node} {state after : RunState}
    {bindings : List (String × Node)} (haligned : earlier.length = before.length)
    (h : ArgumentsPass argEval (earlier ++ (name, type) :: later) (before ++ item :: rest) state
      bindings after) :
    ∃ bound reached value next, ArgumentsPass argEval earlier before state bound reached ∧
      argEval item reached = .ok value next ∧ ∃ own, Accepts type value own := by
  induction earlier generalizing before state bindings with
  | nil =>
    obtain rfl := List.length_eq_zero_iff.mp haligned.symm
    cases h with
    | cons evaluated accepted _ =>
      exact ⟨[], state, _, _, .nil state, evaluated, _, accepted⟩
  | cons param params ih =>
    obtain ⟨node, nodes, rfl⟩ := List.exists_cons_of_length_eq_add_one haligned.symm
    cases h with
    | cons evaluated accepted others =>
      obtain ⟨bound, reached, value, next, hbound, hitem, haccepted⟩ :=
        ih (Nat.succ.inj haligned) others
      exact ⟨_, reached, value, next, .cons evaluated accepted hbound, hitem, haccepted⟩

/-- Only a parameter of type `Error` accepts an error entity. -/
theorem Accepts.type_eq {type : TypeTag} {e : Entity Node} {bound : Node}
    (h : Accepts type (.entity e) bound) : type = e.kind := by
  obtain rfl : Node.entity e = bound := Except.ok.inj h.wrapped
  have hargument := h.isArgument
  unfold IsArgument at hargument
  split at hargument
  · obtain ⟨c, ⟨⟩⟩ := hargument
  · obtain ⟨e', ⟨⟩, hkind⟩ := hargument
    exact hkind.symm

/-- **An application fails with an argument** for a parameter that is not of type `Error`. -/
theorem fails_argument {c : Closure Node} {earlier later : List (String × TypeTag)} {name : String}
    {type : TypeTag} {before rest : List Node} {item : Node} {found : RunState}
    (hparams : c.params = earlier ++ (name, type) :: later)
    (haligned : earlier.length = before.length) (htype : type ≠ .error)
    (h : ∀ bindings reached, ArgumentsPass argEval earlier before
      (found.startArguments c (before ++ item :: rest).length) bindings reached →
        Fails (argEval item reached)) :
    Fails (applyClosure argEval c (before ++ item :: rest) found) := by
  have hcall : Fails (callClosure argEval c (before ++ item :: rest)
      (found.reporting (.applied c.signature (before ++ item :: rest).length))) := by
    unfold callClosure
    split
    · next hcount =>
      rw [scope_bind_apply]
      refine fails_bind fun result between hresult => ?_
      cases result with
      | error failure => exact fails_failure failure between
      | ok bindings =>
        -- all arguments would pass, and so the one that fails
        obtain ⟨after, hpass, -⟩ := within_eq_ok_iff.mp hresult
        rw [evalArguments_eq_ok_iff hcount, hparams] at hpass
        obtain ⟨bound, reached, value, next, hbound, hitem, own, haccepts⟩ :=
          hpass.exists_middle haligned
        obtain ⟨e, rfl, herror⟩ := h bound reached hbound value next hitem
        exact absurd (haccepts.type_eq.trans (beq_iff_eq.mp herror)) htype
    · exact fails_failure _ _
  -- an error is contained, or passed on
  show Fails (contain (callClosure argEval c _) (reportStopped c) (found.reporting _))
  unfold contain
  cases hrun : callClosure argEval c (before ++ item :: rest)
      (found.reporting (.applied c.signature (before ++ item :: rest).length)) with
  | ok value after =>
    rw [hrun] at hcall
    exact hcall
  | error error after =>
    cases hcontained : error.isContained with
    | true =>
      simp only [hcontained, ↓reduceIte]
      exact fails_failure _ _
    | false =>
      simp only [hcontained]
      exact fails_error error after

/-! ### Strict positions -/

/-- The core forms that evaluate all their operands. -/
def CoreForm.isStrict : CoreForm → Bool
  | .list | .numeric _ | .eq => true
  | _ => false

/-- **The strict positions of a form,** each with its node and the states in which the node is
evaluated: those in which what is evaluated before it can end. `inside` tells the arguments of an
application, which `argEval` evaluates, from the others, which `eval` does. -/
inductive StrictPosition (eval argEval : Node → Run Node) (node : Node) (state : RunState) :
    (inside : Bool) → Node → (RunState → Prop) → Prop where
  /-- An operand of `list`, `add`, `sub`, `mul` or `eq`. -/
  | operand {form : CoreForm} {before rest : List Node} {item : Node}
      (isStrict : form.isStrict = true)
      (written : node = .form (.symbol form.name :: (before ++ item :: rest))) :
      StrictPosition eval argEval node state false item fun reached =>
        ∃ values,
          EvaluatesInOrder eval before values (state.reporting (.coreForm form.name)) reached
  /-- The payload of an entity. -/
  | payload {kind value : Node} {attrs : List Node}
      (writes : WritesEntity node (kind :: value :: attrs))
      (evaluated : value.isEvaluatedPayload = true) :
      StrictPosition eval argEval node state false value fun reached => reached = state.startEntity
  /-- An adjective of an entity, once those before it have been evaluated. -/
  | adjective {kind value key item : Node} {before : List (Node × Node)} {rest : List Node}
      (writes : WritesEntity node
        [kind, value, .form (.symbol mapHead :: (alternate before ++ key :: item :: rest))])
      (isAdjective : key.mapKey? = some adjectiveKey) :
      StrictPosition eval argEval node state false item fun reached =>
        ∃ payload between kept, payloadOf eval value state.startEntity = .ok payload between ∧
          AttributesKept eval before kept between reached
  /-- The payload of a noun in a role, behind its items. -/
  | rolePayload {role : Role} {value : Node} {trailing : List Node}
      (written : node = roleForm role value trailing)
      (evaluated : value.isEvaluatedPayload = true) :
      StrictPosition eval argEval node state false value fun reached =>
        ∃ attrs between, evalValues eval trailing state = .ok attrs between ∧
          reached = between.startEntity
  /-- An adjective of a noun in a role. -/
  | roleAdjective {role : Role} {value key item : Node} {before : List (Node × Node)}
      {rest : List Node}
      (written : node = roleForm role value (alternate before ++ key :: item :: rest))
      (isAdjective : key.mapKey? = some adjectiveKey) :
      StrictPosition eval argEval node state false item fun reached =>
        ∃ values, EvaluatesInOrder eval (before.map Prod.snd) values state reached
  /-- A form as the head of an application. -/
  | head {items arguments : List Node} (written : node = .form (.form items :: arguments)) :
      StrictPosition eval argEval node state false (.form items) fun reached => reached = state
  /-- An argument for a parameter that is not of type `Error`. -/
  | argument {c : Closure Node} {earlier later : List (String × TypeTag)} {name : String}
      {type : TypeTag} {before rest : List Node} {item : Node} {found : RunState}
      (applies : Applies eval node state c (before ++ item :: rest) found)
      (params : c.params = earlier ++ (name, type) :: later)
      (aligned : earlier.length = before.length) (notError : type ≠ .error) :
      StrictPosition eval argEval node state true item fun reached =>
        ∃ bindings, ArgumentsPass argEval earlier before
          (found.startArguments c (before ++ item :: rest).length) bindings reached

/-- The forms with strict operands are those that take them up, and the comparison. -/
theorem CoreForm.isStrict_cases {form : CoreForm} (h : form.isStrict = true) :
    form = .eq ∨ ∃ operands : OperandForm, form = operands.core := by
  cases form with
  | list => exact Or.inr ⟨.list, rfl⟩
  | numeric op => exact Or.inr ⟨.numeric op, rfl⟩
  | eq => exact Or.inl rfl
  | _ => cases h

/-- **A form fails with any of its strict positions.** It does not matter whether the position is
reached. -/
theorem StrictPosition.fails {node item : Node} {state : RunState} {inside : Bool}
    {At : RunState → Prop} (hself : ∀ {e : Entity Node}, e.isError = true →
      ∀ state, Fails (eval (.entity e) state))
    (h : StrictPosition eval argEval node state inside item At)
    (hitem : ∀ reached, At reached → Fails ((if inside then argEval else eval) item reached)) :
    Fails (evalNode eval argEval node state) := by
  cases h with
  | @operand form before rest _ isStrict written =>
    subst written
    rw [evalNode_core, bind_of_ok (report_apply _ state)]
    have hfails : ∀ values reached, EvaluatesInOrder eval before values
        (state.reporting (.coreForm form.name)) reached → Fails (eval item reached) :=
      fun values reached hreached => hitem reached ⟨values, hreached⟩
    rcases CoreForm.isStrict_cases isStrict with rfl | ⟨operands, rfl⟩
    · exact fails_comparison hfails
    · exact fails_operands operands hfails
  | payload writes evaluated =>
    rw [writes.evalNode_eq]
    exact fails_payload evaluated (hitem _ rfl)
  | adjective writes isAdjective =>
    rw [writes.evalNode_eq]
    refine fails_attributes fun payload between hpayload attrs after => ?_
    have hfails : ∀ kept reached, AttributesKept eval _ kept between reached →
        Fails (eval item reached) := fun kept reached hkept =>
      hitem reached ⟨payload, between, kept, hpayload, hkept⟩
    exact not_buildAttributes isAdjective hfails attrs after
  | rolePayload written evaluated =>
    subst written
    refine fails_roleForm fun attrs between hattrs => ?_
    exact fails_payload evaluated (hitem _ ⟨attrs, between, hattrs, rfl⟩)
  | roleAdjective written isAdjective =>
    subst written
    exact fails_roleAdjective hself isAdjective
      fun values reached hvalues => hitem reached ⟨values, hvalues⟩
  | @head items arguments written =>
    subst written
    have hcore : ∀ form : CoreForm, Node.form items ≠ .symbol form.name := by
      rintro form ⟨⟩
    rw [evalNode_form, desugar_of_sugar?_eq_none rfl, pure_bind]
    show Fails (runForm eval argEval (.form items) arguments state)
    rw [runForm_of_not_core hcore]
    refine fails_bind fun value between hvalue => ?_
    obtain ⟨e, rfl, herror⟩ := hitem state rfl value between hvalue
    simp only [applyHead, herror, ↓reduceIte]
    exact fails_entity herror between
  | argument applies params aligned notError =>
    rw [applies.evalNode_eq]
    exact fails_argument params aligned notError
      fun bindings reached hreached => hitem reached ⟨bindings, hreached⟩

end Evaluator

/-! ### Nested positions -/

/-- **A node with an error within it:** it evaluates to an error entity itself, or a node in one of
its strict positions has an error within it, in every state in which it is evaluated. -/
inductive ErrsWithin (limit : Nat) : (levels : Nat) → Node → RunState → Prop where
  | itself {levels : Nat} {node : Node} {state after : RunState} {e : Entity Node}
      (evaluated : eval limit levels node state = .ok (.entity e) after)
      (isError : e.isError = true) : ErrsWithin limit levels node state
  | position {levels : Nat} {node item : Node} {state : RunState} {inside : Bool}
      {At : RunState → Prop}
      (strict : StrictPosition (eval limit levels) (eval limit (levels - 1)) node state inside item
        At)
      (within : ∀ reached, At reached →
        ErrsWithin limit (if inside then levels - 1 else levels) item reached) :
      ErrsWithin limit (levels + 1) node state

/-- **Errors are passed on by strict positions.** A form with an error in a strict position, or in a
strict position of a node in a strict position and so on to any depth, never evaluates to anything
but an error entity. Nothing is asked of the other operands, keys and arguments: they may be of any
number, and give values, error entities or stop. -/
theorem errors_reach_the_form {limit levels : Nat} {node : Node} {state : RunState}
    (h : ErrsWithin limit levels node state) : Fails (eval limit levels node state) := by
  induction h with
  | itself evaluated isError =>
    rw [evaluated]
    exact fails_entity isError _
  | @position levels node item state inside At strict _ ih =>
    rw [eval_succ]
    refine strict.fails (fun herror last => fails_eval_entity limit levels herror last) ?_
    intro reached hreached
    have hitem := ih reached hreached
    cases inside <;> exact hitem

/-- A function that gives back its argument, an integer. -/
def integerFunction : Closure Node := ⟨[("x", .integer)], .integer, .symbol "x", .empty, true, 1⟩

/-- The state in which `f` is bound to the function. -/
def functionState : RunState := .initial ⟨[("f", .closure integerFunction)], []⟩

/-- The sum `(add (Noun "a"))`, which is refused. -/
def refusedSum : Node := .form [.symbol "add", .form [.symbol "Noun", .str "a"]]

/-- The node `(Noun (f (add (Noun "a"))))`. -/
def nounOfCall : Node := .form [.symbol "Noun", .form [.symbol "f", refusedSum]]

/-- The error of the sum passes the call, the noun and the list around it, although `f` is never
run, and the list gives an error entity. -/
theorem errors_reach_the_form_nested :
    ErrsWithin 200 9 (.form [.symbol "list", .form [.symbol "Noun", .str "b"], nounOfCall])
      functionState ∧
    ∃ e after, eval 200 9 (.form [.symbol "list", .form [.symbol "Noun", .str "b"], nounOfCall])
      functionState = .ok (.entity e) after ∧ e.isError = true := by
  have herrs : ErrsWithin 200 9
      (.form [.symbol "list", .form [.symbol "Noun", .str "b"], nounOfCall]) functionState := by
    refine .position (@StrictPosition.operand _ _ _ _ .list [.form [.symbol "Noun", .str "b"]] []
      nounOfCall rfl rfl) ?_
    rintro reached ⟨values, hearlier⟩
    -- the noun in front leaves a report behind
    obtain ⟨⟩ | ⟨hfirst, ⟨⟩⟩ := hearlier
    have hnoun : eval 200 8 (.form [.symbol "Noun", .str "b"])
        (functionState.reporting (.coreForm "list")) = .ok (.plain .noun (.str "b"))
          (functionState.reporting (.coreForm "list")).startEntity := rfl
    obtain ⟨-, rfl⟩ := EStateM.Result.ok.inj (hnoun.symm.trans hfirst)
    have hwrites : WritesEntity nounOfCall [.symbol "Noun", .form [.symbol "f", refusedSum]] :=
      @WritesEntity.sugar (.symbol "Noun") .noun (by decide) [.form [.symbol "f", refusedSum]]
    refine .position (.payload hwrites rfl) ?_
    rintro reached rfl
    have happlies : Applies (eval 200 6) (.form [.symbol "f", refusedSum])
        (functionState.reporting (.coreForm "list")).startEntity.startEntity integerFunction
        [refusedSum] (functionState.reporting (.coreForm "list")).startEntity.startEntity :=
      ⟨.symbol "f", rfl, by decide, symbol_ne_core (by decide), rfl⟩
    refine .position (@StrictPosition.argument _ _ _ _ _ [] [] "x" .integer [] [] _ _ happlies
      rfl rfl (by decide)) ?_
    rintro reached ⟨bindings, ⟨⟩⟩
    exact .itself rfl rfl
  refine ⟨herrs, ?_⟩
  have hrun : ∃ value after,
      eval 200 9 (.form [.symbol "list", .form [.symbol "Noun", .str "b"], nounOfCall])
        functionState = .ok value after := ⟨_, _, rfl⟩
  obtain ⟨value, after, hrun⟩ := hrun
  obtain ⟨e, rfl, herror⟩ := errors_reach_the_form herrs value after hrun
  exact ⟨e, after, hrun, herror⟩

end EntityLisp
