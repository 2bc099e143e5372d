import EntityLisp.Proofs.Arithmetic
import EntityLisp.Proofs.EscapeForms
import EntityLisp.Proofs.Evaluation
import EntityLisp.Proofs.ReadBack

/-!
# When an integer is too large

Of the errors of arithmetic, a well-formed program makes one: an integer that is too large to be
rounded, where a floating-point number takes part. `FailsHere` describes the two places where a
step of evaluation makes an error of arithmetic itself, the fold over the operands of arithmetic
and the coercion to a parameter of type `Float`.

* `escapes_evalNode_iff`: one step of evaluation escapes exactly if it fails itself or one of its
  calls escapes.
* `eval_escapes_iff`: an evaluation escapes exactly if it reaches one that fails itself.
* `errorsContained_iff_not_overflows`: evaluation of a well-formed program, of a program text or of
  an application ends with an error that is not contained exactly if it reaches an overflow, or if a
  whole number in the text has too many digits.
-/

namespace EntityLisp

open Node Run

/-! ### One step of evaluation -/

/-- **A step of evaluation fails itself** with an error of arithmetic. -/
inductive FailsHere (eval argEval : Node → Run Node) (node : Node) (state : RunState) :
    ArithmeticError → Prop where
  /-- The operands of arithmetic have been evaluated, and the fold over them fails. -/
  | fold {op : NumericOp} {arguments : List Node} {first : Entity Node}
      {rest : List (Entity Node)} {start reached : RunState} {error : ArithmeticError}
      (starts : StartsCore eval node state (.numeric op) arguments start)
      (operands : evalOperands eval (numericOperand op) 1 arguments start =
        .ok (.ok (first :: rest)) reached)
      (fails : foldPayloads op first rest = .error error) :
      FailsHere eval argEval node state error
  /-- An application has started, and one of its arguments cannot be coerced. -/
  | coercion {c : Closure Node} {arguments : List Node} {start : RunState}
      (starts : StartsCall eval node state c arguments start)
      (overflows : CoercionOverflows argEval c arguments start) :
      FailsHere eval argEval node state .integerTooLarge

section Steps

variable {eval argEval : Node → Run Node} {node : Node} {state : RunState}
variable {error : ArithmeticError}

/-- Where a core form escapes, it fails itself or a call of it escapes. -/
theorem failsHere_or_calls_of_runCore {form : CoreForm} {arguments : List Node}
    {start : RunState} (hstarts : StartsCore eval node state form arguments start)
    (h : Escapes error (runCore eval form arguments) start) :
    FailsHere eval argEval node state error ∨ ∃ child reached,
      Calls eval argEval node state false child reached ∧ Escapes error (eval child) reached := by
  cases form with
  | entity =>
    obtain ⟨kind, value, attrs, rfl, hshort, h⟩ := escapes_runEntity_iff.mp h
    rcases escapes_buildEntity_iff.mp h with h | ⟨payload, between, hpayload, h⟩
    · obtain ⟨hevaluated, h⟩ := escapes_payloadOf_iff.mp h
      exact Or.inr ⟨value, start, .payload hstarts hshort hevaluated, h⟩
    · obtain ⟨e, pairs, hmade, husable, hattrs, h⟩ := escapes_finishEntity_iff.mp h
      obtain ⟨hpaired, h⟩ := escapes_buildAttributes_iff.mp h
      obtain ⟨_, ⟨before, key, item, rest, rfl, heven, entered, reached, hbefore, hadjective, rfl⟩,
        hitem⟩ := escapes_enterAttributes_iff.mp h
      match attrs with
      | [] => cases hattrs
      | [_] =>
        cases hattrs
        exact Or.inr ⟨item, reached, .adjective hstarts hpayload hmade husable hpaired heven
          hbefore hadjective, hitem⟩
      | _ :: _ :: rest => simp at hshort
  | list =>
    obtain ⟨_, ⟨before, argument, rest, rfl, es, reached, hbefore, rfl⟩, h⟩ :=
      escapes_evalOperands_iff.mp (escapes_runList_iff.mp h)
    exact Or.inr ⟨argument, reached, .element hstarts hbefore, h⟩
  | numeric op =>
    rcases escapes_runNumeric_iff.mp h with h | ⟨first, rest, reached, hoperands, hfold⟩
    · obtain ⟨_, ⟨before, argument, rest, rfl, es, reached, hbefore, rfl⟩, h⟩ :=
        escapes_evalOperands_iff.mp h
      exact Or.inr ⟨argument, reached, .operand hstarts hbefore, h⟩
    · exact Or.inl (.fold hstarts hoperands hfold)
  | eq =>
    obtain ⟨left, right, rfl, h | ⟨value, reached, hvalue, h⟩⟩ := escapes_runEq_iff.mp h
    · exact Or.inr ⟨left, start, .left hstarts, h⟩
    · exact Or.inr ⟨right, reached, .right hstarts hvalue, h⟩
  | letIn =>
    obtain ⟨nodes, body, bindings, rfl, hread, h⟩ := escapes_runLet_iff.mp h
    rcases escapes_runBody_iff.mp h with h | ⟨before, item, rest, value, reached, rfl, hbefore, h⟩
    · obtain ⟨_, ⟨before, binding, rest, rfl, reached, hbefore, rfl⟩, h⟩ :=
        escapes_bindInOrder_iff.mp h
      exact Or.inr ⟨binding.2, reached, .binding hstarts hread hbefore, h⟩
    · exact Or.inr ⟨item, reached, .sequel hstarts hread hbefore, h⟩
  | impl => exact absurd h (not_escapes_runImpl _ _)
  | lambda => exact absurd h (not_escapes_runLambda _ _)

/-- Where an application escapes, it fails itself or a call of it escapes. -/
theorem failsHere_or_calls_of_callClosure {c : Closure Node} {arguments : List Node}
    {head : Node} {freed found : RunState} (hfreed : Freed eval node state head arguments freed)
    (hhead : ∀ form : CoreForm, head ≠ .symbol form.name)
    (hfound : headValue eval head freed = .ok (.closure c) found)
    (h : Escapes error (applyClosure argEval c arguments) found) :
    FailsHere eval argEval node state error ∨ ∃ child reached,
      Calls eval argEval node state true child reached ∧
        Escapes error (argEval child) reached := by
  rw [escapes_applyClosure_iff, escapes_callClosure_iff] at h
  obtain ⟨hcount, h⟩ := h
  have hstarts : StartsCall eval node state c arguments
      (found.reporting (.applied c.signature arguments.length)) :=
    ⟨head, freed, found, hfreed, hhead, hfound, hcount, rfl⟩
  rcases h with ⟨rfl, hcoercion⟩ | ⟨child, reached, hcalls, h⟩
  · exact Or.inl (.coercion hstarts hcoercion)
  · exact Or.inr ⟨child, reached, .inside hstarts hcalls, h⟩

/-- Where a core form has started, only that form is left to look at. -/
theorem escapes_evalNode_iff_of_startsCore {form : CoreForm} {arguments : List Node}
    {start : RunState} (h : StartsCore eval node state form arguments start) :
    Escapes error (evalNode eval argEval node) state ↔
      Escapes error (runCore eval form arguments) start := by
  unfold Escapes
  rw [evalNode_of_startsCore h]

/-- Where an application has started, only that application is left to look at. -/
theorem escapes_evalNode_iff_of_startsCall {c : Closure Node} {arguments : List Node}
    {start : RunState} (h : StartsCall eval node state c arguments start) :
    Escapes error (evalNode eval argEval node) state ↔
      Escapes error (callClosure argEval c arguments) start := by
  have hcontain : Escapes error (contain (callClosure argEval c arguments) (reportStopped c))
      start ↔ Escapes error (callClosure argEval c arguments) start :=
    escapes_contain_iff (not_escapes_reportStopped c)
  rw [← hcontain]
  unfold Escapes
  rw [evalNode_of_startsCall h]

/-- A step of evaluation that fails itself escapes. -/
theorem escapes_of_failsHere (h : FailsHere eval argEval node state error) :
    Escapes error (evalNode eval argEval node) state := by
  cases h with
  | fold starts operands fails =>
    rw [escapes_evalNode_iff_of_startsCore starts]
    exact escapes_runNumeric_iff.mpr (Or.inr ⟨_, _, _, operands, fails⟩)
  | coercion starts overflows =>
    rw [escapes_evalNode_iff_of_startsCall starts]
    exact escapes_callClosure_iff.mpr ⟨starts.length_eq, Or.inl ⟨rfl, overflows⟩⟩

/-- A step of evaluation escapes if one of its calls does. -/
theorem escapes_of_calls {inside : Bool} {child : Node} {reached : RunState}
    (hcalls : Calls eval argEval node state inside child reached)
    (h : Escapes error ((if inside then argEval else eval) child) reached) :
    Escapes error (evalNode eval argEval node) state := by
  cases hcalls with
  | roleValue written paired even earlier =>
    subst written
    rw [evalNode_form, escapes_bind_iff]
    refine Or.inl (escapes_desugar_iff.mpr ⟨_, _, _, rfl, rfl, paired, ?_⟩)
    exact escapes_evalValues_iff.mpr ⟨_, ⟨_, _, _, _, rfl, even, _, _, earlier, rfl⟩, h⟩
  | payload starts short evaluated =>
    rw [escapes_evalNode_iff_of_startsCore starts]
    refine escapes_runEntity_iff.mpr ⟨_, _, _, rfl, short, ?_⟩
    exact escapes_buildEntity_iff.mpr (Or.inl (escapes_payloadOf_iff.mpr ⟨evaluated, h⟩))
  | adjective starts hasPayload made usable paired even earlier isAdjective =>
    rw [escapes_evalNode_iff_of_startsCore starts]
    refine escapes_runEntity_iff.mpr ⟨_, _, [_], rfl, by simp, ?_⟩
    refine escapes_buildEntity_iff.mpr (Or.inr ⟨_, _, hasPayload, ?_⟩)
    refine escapes_finishEntity_iff.mpr ⟨_, _, made, usable, rfl, ?_⟩
    refine escapes_buildAttributes_iff.mpr ⟨paired, ?_⟩
    exact escapes_enterAttributes_iff.mpr
      ⟨_, ⟨_, _, _, _, rfl, even, _, _, earlier, isAdjective, rfl⟩, h⟩
  | element starts earlier =>
    rw [escapes_evalNode_iff_of_startsCore starts]
    refine escapes_runList_iff.mpr ?_
    exact escapes_evalOperands_iff.mpr ⟨_, ⟨_, _, _, rfl, _, _, earlier, rfl⟩, h⟩
  | operand starts earlier =>
    rw [escapes_evalNode_iff_of_startsCore starts]
    refine escapes_runNumeric_iff.mpr (Or.inl ?_)
    exact escapes_evalOperands_iff.mpr ⟨_, ⟨_, _, _, rfl, _, _, earlier, rfl⟩, h⟩
  | left starts =>
    rw [escapes_evalNode_iff_of_startsCore starts]
    exact escapes_runEq_iff.mpr ⟨_, _, rfl, Or.inl h⟩
  | right starts earlier =>
    rw [escapes_evalNode_iff_of_startsCore starts]
    exact escapes_runEq_iff.mpr ⟨_, _, rfl, Or.inr ⟨_, _, earlier, h⟩⟩
  | binding starts read earlier =>
    rw [escapes_evalNode_iff_of_startsCore starts]
    refine escapes_runLet_iff.mpr ⟨_, _, _, rfl, read, ?_⟩
    refine escapes_runBody_iff.mpr (Or.inl ?_)
    exact escapes_bindInOrder_iff.mpr ⟨_, ⟨_, _, _, rfl, _, earlier, rfl⟩, h⟩
  | sequel starts read earlier =>
    rw [escapes_evalNode_iff_of_startsCore starts]
    refine escapes_runLet_iff.mpr ⟨_, _, _, rfl, read, ?_⟩
    exact escapes_runBody_iff.mpr (Or.inr ⟨_, _, _, _, _, rfl, earlier, h⟩)
  | @head items arguments _ freed =>
    unfold Escapes
    rw [evalNode_of_freed freed, runForm_of_not_core (by simp)]
    exact escapes_bind_iff.mpr (Or.inl (escapes_headValue_iff.mpr ⟨_, rfl, h⟩))
  | inside starts calls =>
    rw [escapes_evalNode_iff_of_startsCall starts]
    exact escapes_callClosure_iff.mpr ⟨starts.length_eq, Or.inr ⟨_, _, calls, h⟩⟩

/-- **One step of evaluation escapes** exactly if it fails itself or one of its calls escapes. -/
theorem escapes_evalNode_iff : Escapes error (evalNode eval argEval node) state ↔
    FailsHere eval argEval node state error ∨
      ∃ inside child reached, Calls eval argEval node state inside child reached ∧
        Escapes error ((if inside then argEval else eval) child) reached := by
  constructor
  · intro h
    cases node with
    | form items =>
      cases items with
      | nil => exact absurd h (not_escapes_throw rfl _)
      | cons written rest =>
        rw [evalNode_form, escapes_bind_iff] at h
        rcases h with h | ⟨result, freed, hresult, h⟩
        · obtain ⟨role, value, pairs, rfl, rfl, hpaired, h⟩ := escapes_desugar_iff.mp h
          obtain ⟨_, ⟨before, key, item, rest, rfl, heven, keyed, reached, hbefore, rfl⟩, h⟩ :=
            escapes_evalValues_iff.mp h
          exact Or.inr ⟨false, item, reached, .roleValue rfl hpaired heven hbefore, h⟩
        · match result with
          | .error failure => exact absurd h (not_escapes_pure _ _)
          | .ok (head, arguments) =>
            have hfreed : Freed eval (.form (written :: rest)) state head arguments freed :=
              ⟨written, rest, rfl, hresult⟩
            replace h : Escapes error (runForm eval argEval head arguments) freed := h
            by_cases hhead : ∃ form : CoreForm, head = .symbol form.name
            · obtain ⟨form, rfl⟩ := hhead
              rw [runForm_core, escapes_bind_iff_of_ok (report_apply _ _)] at h
              rcases failsHere_or_calls_of_runCore ⟨freed, hfreed, rfl⟩ h with
                h | ⟨child, reached, hcalls, h⟩
              · exact Or.inl h
              · exact Or.inr ⟨false, child, reached, hcalls, h⟩
            · rw [not_exists] at hhead
              rw [runForm_of_not_core hhead, escapes_bind_iff] at h
              rcases h with h | ⟨value, found, hfound, h⟩
              · obtain ⟨items, rfl, h⟩ := escapes_headValue_iff.mp h
                exact Or.inr ⟨false, .form items, freed, .head hfreed, h⟩
              · obtain ⟨c, rfl, h⟩ := escapes_applyHead_iff.mp h
                rcases failsHere_or_calls_of_callClosure hfreed hhead hfound h with
                  h | ⟨child, reached, hcalls, h⟩
                · exact Or.inl h
                · exact Or.inr ⟨true, child, reached, hcalls, h⟩
    | symbol name => exact absurd h (not_escapes_lookup _ _)
    | _ => exact absurd h (not_escapes_pure _ _)
  · rintro (h | ⟨inside, child, reached, hcalls, h⟩)
    · exact escapes_of_failsHere h
    · exact escapes_of_calls hcalls h

end Steps

/-! ### Evaluation -/

/-- **An evaluation fails itself** with an error of arithmetic, where a level is left. -/
def Evaluation.Fails (limit : Nat) (error : ArithmeticError) : Evaluation → Prop
  | ⟨0, _, _⟩ => False
  | ⟨levels + 1, node, state⟩ =>
    FailsHere (eval limit levels) (eval limit (levels - 1)) node state error

/-- The evaluator of a call, inside an application or not. -/
theorem eval_ite (limit levels : Nat) (inside : Bool) :
    (if inside then eval limit (levels - 1) else eval limit levels) =
      eval limit (if inside then levels - 1 else levels) := by
  cases inside <;> rfl

/-- An evaluation that reaches one that fails itself escapes. -/
theorem Reaches.escapes {limit : Nat} {error : ArithmeticError} {first last : Evaluation}
    (h : Reaches limit first last) (hfails : last.Fails limit error) :
    Escapes error (eval limit first.levels first.node) first.state := by
  induction h with
  | refl e =>
    obtain ⟨levels, node, state⟩ := e
    cases levels with
    | zero => exact absurd hfails id
    | succ levels =>
      rw [eval_succ]
      exact escapes_evalNode_iff.mpr (Or.inl hfails)
  | @call levels node child state reached inside e calls _ ih =>
    rw [eval_succ]
    refine escapes_evalNode_iff.mpr (Or.inr ⟨inside, child, reached, calls, ?_⟩)
    rw [eval_ite]
    exact ih hfails

/-- **An evaluation escapes** exactly if it reaches one that fails itself. -/
theorem eval_escapes_iff {limit levels : Nat} {node : Node} {state : RunState}
    {error : ArithmeticError} : Escapes error (eval limit levels node) state ↔
      ∃ e, Reaches limit ⟨levels, node, state⟩ e ∧ e.Fails limit error := by
  constructor
  · intro h
    -- a call has fewer levels left, whether it is inside an application or not
    induction levels using Nat.strongRecOn generalizing node state with
    | ind levels ih =>
      cases levels with
      | zero => exact absurd h (not_escapes_throw rfl _)
      | succ levels =>
        rw [eval_succ] at h
        rcases escapes_evalNode_iff.mp h with h | ⟨inside, child, reached, hcalls, h⟩
        · exact ⟨_, .refl _, h⟩
        · rw [eval_ite] at h
          have hlevels : (if inside then levels - 1 else levels) < levels + 1 := by
            cases inside with
            | false => exact Nat.lt_succ_self levels
            | true =>
              show levels - 1 < levels + 1
              omega
          obtain ⟨e, hreaches, hfails⟩ := ih _ hlevels h
          exact ⟨e, .call hcalls hreaches, hfails⟩
  · rintro ⟨e, hreaches, hfails⟩
    exact hreaches.escapes hfails

/-! ### Overflows -/

/-- **An evaluation overflows itself:** the fold over the operands of arithmetic overflows, or the
coercion of an argument does. -/
inductive OverflowsHere (eval argEval : Node → Run Node) (node : Node) (state : RunState) :
    Prop where
  | fold {op : NumericOp} {arguments : List Node} {first : Entity Node}
      {rest : List (Entity Node)} {start reached : RunState}
      (starts : StartsCore eval node state (.numeric op) arguments start)
      (operands : evalOperands eval (numericOperand op) 1 arguments start =
        .ok (.ok (first :: rest)) reached)
      (overflows : FoldOverflows op first rest) : OverflowsHere eval argEval node state
  | coercion {c : Closure Node} {arguments : List Node} {start : RunState}
      (starts : StartsCall eval node state c arguments start)
      (overflows : CoercionOverflows argEval c arguments start) :
      OverflowsHere eval argEval node state

theorem failsHere_integerTooLarge_iff {eval argEval : Node → Run Node} {node : Node}
    {state : RunState} : FailsHere eval argEval node state .integerTooLarge ↔
      OverflowsHere eval argEval node state := by
  constructor
  · intro h
    cases h with
    | fold starts operands fails =>
      exact .fold starts operands (foldPayloads_eq_integerTooLarge_iff.mp fails)
    | coercion starts overflows => exact .coercion starts overflows
  · intro h
    cases h with
    | fold starts operands overflows =>
      exact .fold starts operands (foldPayloads_eq_integerTooLarge_iff.mpr overflows)
    | coercion starts overflows => exact .coercion starts overflows

/-- **An evaluation overflows** if it reaches one that overflows itself. -/
def Overflows (limit levels : Nat) (node : Node) (state : RunState) : Prop :=
  ∃ left child reached, Reaches limit ⟨levels, node, state⟩ ⟨left + 1, child, reached⟩ ∧
    OverflowsHere (eval limit left) (eval limit (left - 1)) child reached

theorem eval_escapes_integerTooLarge_iff {limit levels : Nat} {node : Node} {state : RunState} :
    Escapes .integerTooLarge (eval limit levels node) state ↔
      Overflows limit levels node state := by
  rw [eval_escapes_iff]
  constructor
  · rintro ⟨⟨levels', child, reached⟩, hreaches, hfails⟩
    cases levels' with
    | zero => exact absurd hfails id
    | succ left => exact ⟨left, child, reached, hreaches, failsHere_integerTooLarge_iff.mp hfails⟩
  · rintro ⟨left, child, reached, hreaches, hoverflows⟩
    exact ⟨_, hreaches, failsHere_integerTooLarge_iff.mpr hoverflows⟩

/-- **An application overflows** at the coercion of an argument, or in one of its calls. -/
def CallOverflows (limit levels : Nat) (c : Closure Node) (arguments : List Node)
    (start : RunState) : Prop :=
  arguments.length = c.arity ∧ (CoercionOverflows (eval limit levels) c arguments start ∨
    ∃ child reached, CallsInside (eval limit levels) c arguments start child reached ∧
      Overflows limit levels child reached)

theorem applyClosure_escapes_iff {limit levels : Nat} {c : Closure Node} {arguments : List Node}
    {state : RunState} :
    Escapes .integerTooLarge (applyClosure (eval limit levels) c arguments) state ↔
      CallOverflows limit levels c arguments
        (state.reporting (.applied c.signature arguments.length)) := by
  rw [escapes_applyClosure_iff, escapes_callClosure_iff]
  simp only [eval_escapes_integerTooLarge_iff, true_and]
  rfl

/-! ### The law of errors -/

/-- **The errors of an action are contained** by applications. -/
def Run.ErrorsContained {α : Type} (action : Run α) (state : RunState) : Prop :=
  ∀ error after, action state = .error error after → error.isContained = true

instance {α : Type} (action : Run α) (state : RunState) :
    Decidable (ErrorsContained action state) :=
  match h : action state with
  | .ok _ _ => .isTrue (by
      intro error after herror
      rw [h] at herror
      cases herror)
  | .error error after => decidable_of_iff (error.isContained = true) (by
      constructor
      · intro hcontained error' after' herror
        rw [h] at herror
        cases herror
        exact hcontained
      · exact fun hall => hall error after h)

/-- Where the errors of an action are foreseen, they are contained unless it escapes. -/
theorem errorsContained_iff {α : Type} {action : Run α} {state : RunState} {Q : α → Prop}
    (haction : Ensures Scope.IsFit Q EvalError.Foreseen action) (hscope : state.scope.IsFit) :
    ErrorsContained action state ↔ ¬Escapes .integerTooLarge action state := by
  constructor
  · rintro h ⟨after, hafter⟩
    cases h _ after hafter
  · intro h error after herror
    rcases (haction.of_error hscope herror).1 with hcontained | rfl
    · exact hcontained
    · exact absurd ⟨after, herror⟩ h

/-- A tree whose leaves can be written is well formed. -/
theorem Node.Leaves.isProgram {node : Node} (h : node.Leaves IsWritable) : node.IsProgram := by
  induction h with
  | @leaf node _ hwritable =>
    rcases hwritable with hreadable | ⟨negative, rfl⟩
    · cases node with
      | nil => exact IsProgram.value IsValue.nil
      | bool value => exact IsProgram.value (IsValue.bool value)
      | int n => exact IsProgram.value (IsValue.int n)
      | float x => exact IsProgram.value (IsValue.float x)
      | str text => exact IsProgram.value (IsValue.str text)
      | keyword name => exact IsProgram.value (IsValue.keyword name)
      | symbol name => exact IsProgram.symbol name
      | _ => exact absurd hreadable id
    · exact IsProgram.value (IsValue.float _)
  | form _ ih => exact IsProgram.form ih

/-- What is read from a program text is well formed. -/
theorem isProgram_of_mem_readProgram [Stack] {text : String} {forms : List Node}
    (h : readProgram text = .ok forms) : ∀ form ∈ forms, form.IsProgram :=
  fun _ hmem => (writable_of_mem_readProgram h hmem).2.2.isProgram

/-- A fault of a program text is contained if it lies in the text, and not in the length of a
number. -/
theorem isContained_ofFault {fault : SyntaxError} (h : ∀ count, fault ≠ .tooManyDigits count) :
    (EvalError.ofFault fault).isContained = true := by
  cases fault with
  | tooManyDigits count => exact absurd rfl (h count)
  | _ => rfl

/-- The errors of a program text are those of its forms, and that of reading it. -/
theorem ensures_evaluateText [Stack] (limit : Nat) {text : String}
    (h : ∀ count, readProgram text ≠ .error (.tooManyDigits count)) :
    Ensures Scope.IsFit IsValue EvalError.Foreseen (evaluateText limit text) := by
  unfold evaluateText
  split
  · next fault hfault =>
    exact ensures_throw (Or.inl (isContained_ofFault fun count heq => h count (heq ▸ hfault)))
  · next forms hforms =>
    exact ensures_evalSequence (givesValues_eval _ _) (isProgram_of_mem_readProgram hforms)
      IsValue.nil

theorem evaluateText_escapes_iff [Stack] {limit : Nat} {text : String} {state : RunState} :
    Escapes .integerTooLarge (evaluateText limit text) state ↔
      ∃ before form rest value reached, readProgram text = .ok (before ++ form :: rest) ∧
        evaluateForms limit before state = .ok value reached ∧
          Overflows limit (min limit stackDepth + 1) form reached := by
  unfold evaluateText
  split
  · next fault hfault =>
    refine iff_of_false ?_ ?_
    · rintro ⟨after, hafter⟩
      cases fault <;> cases hafter
    rintro ⟨before, form, rest, value, reached, hread, -⟩
    rw [hfault] at hread
    cases hread
  · next forms hforms =>
    rw [evaluateForms, escapes_evalSequence_iff, hforms]
    constructor
    · rintro ⟨_, ⟨before, form, rest, rfl, value, reached, hbefore, rfl⟩, h⟩
      exact ⟨before, form, rest, value, reached, rfl, hbefore,
        eval_escapes_integerTooLarge_iff.mp h⟩
    · rintro ⟨before, form, rest, value, reached, ⟨⟩, hbefore, h⟩
      exact ⟨_, ⟨before, form, rest, rfl, value, reached, hbefore, rfl⟩,
        eval_escapes_integerTooLarge_iff.mpr h⟩

/-- **When errors are contained.** The evaluation of a well-formed program, in a well-formed scope
and under any limit, ends with a value or a contained error unless it overflows, and so does that
of a program text in which no whole number has too many digits. An application of a closure has a
value unless it overflows. -/
theorem errorsContained_iff_not_overflows [Stack] {limit : Nat} {state : RunState}
    (hscope : state.scope.IsFit) :
    (∀ node : Node, node.IsProgram → (ErrorsContained (evaluate limit node) state ↔
      ¬Overflows limit (min limit stackDepth + 1) node state)) ∧
    (∀ text, ErrorsContained (evaluateText limit text) state ↔
      (∀ count, readProgram text ≠ .error (.tooManyDigits count)) ∧
        ∀ before form rest value reached, readProgram text = .ok (before ++ form :: rest) →
          evaluateForms limit before state = .ok value reached →
            ¬Overflows limit (min limit stackDepth + 1) form reached) ∧
    (∀ levels (c : Closure Node) arguments, (Node.closure c).IsValue →
      (∀ argument ∈ arguments, IsProgram argument) →
        ((∃ value after, applyClosure (eval limit levels) c arguments state = .ok value after) ↔
          ¬CallOverflows limit levels c arguments
            (state.reporting (.applied c.signature arguments.length)))) := by
  refine ⟨fun node hnode => ?_, fun text => ?_, fun levels c arguments hc harguments => ?_⟩
  · have hgives : Ensures Scope.IsFit IsValue EvalError.Foreseen (evaluate limit node) :=
      givesValues_eval limit _ node hnode
    rw [errorsContained_iff hgives hscope]
    exact not_congr eval_escapes_integerTooLarge_iff
  · have hforms : (∀ count, readProgram text ≠ .error (.tooManyDigits count)) →
        (ErrorsContained (evaluateText limit text) state ↔
          ¬Escapes .integerTooLarge (evaluateText limit text) state) :=
      fun hdigits => errorsContained_iff (ensures_evaluateText limit hdigits) hscope
    rw [evaluateText_escapes_iff] at hforms
    constructor
    · intro h
      have hdigits : ∀ count, readProgram text ≠ .error (.tooManyDigits count) := by
        intro count hfault
        have hstop : evaluateText limit text state =
            .error (.arithmetic (.tooManyDigits count)) state := by
          rw [evaluateText, hfault]
          rfl
        cases h _ _ hstop
      refine ⟨hdigits, fun before form rest value reached hread hbefore hoverflows => ?_⟩
      exact (hforms hdigits).mp h ⟨before, form, rest, value, reached, hread, hbefore, hoverflows⟩
    · rintro ⟨hdigits, h⟩
      refine (hforms hdigits).mpr ?_
      rintro ⟨before, form, rest, value, reached, hread, hbefore, hoverflows⟩
      exact h before form rest value reached hread hbefore hoverflows
  · rw [← applyClosure_escapes_iff]
    have hensures := ensures_applyClosure (givesValues_eval limit levels) hc harguments
    constructor
    · rintro ⟨value, after, hvalue⟩
      exact not_escapes_of_ok hvalue
    · intro h
      cases hrun : applyClosure (eval limit levels) c arguments state with
      | ok value after => exact ⟨value, after, rfl⟩
      | error error after =>
        obtain ⟨rfl, -⟩ := hensures.of_error hscope hrun
        exact absurd ⟨after, hrun⟩ h

/-- The function `(lambda ((x as Float)) returns Float x)`. -/
def floatIdentity : Closure Node := ⟨[("x", .float)], .float, .symbol "x", .empty, true, 1⟩

theorem isValue_floatIdentity : (Node.closure floatIdentity).IsValue :=
  IsValue.closure (by decide) Scope.isFit_empty (IsProgram.symbol "x")

/-- The law at a program and at an application that do not overflow. -/
theorem not_overflows_incrementProgram :
    (RunState.initial .empty).scope.IsFit ∧
      ¬Overflows 200 201 incrementProgram (.initial .empty) ∧
        ¬CallOverflows 200 1 floatIdentity [.float (.zero false)]
          ((RunState.initial .empty).reporting (.applied floatIdentity.signature 1)) := by
  obtain ⟨hprogram, -, hcall⟩ :=
    @errorsContained_iff_not_overflows _ 200 (.initial .empty) Scope.isFit_empty
  refine ⟨Scope.isFit_empty, ?_, ?_⟩
  · exact (hprogram incrementProgram isProgram_incrementProgram).mp (by decide +kernel)
  · have hargument : ∀ argument ∈ [Node.float (.zero false)], argument.IsProgram := by
      simp [IsProgram.value, IsValue.float]
    exact (hcall 1 floatIdentity _ isValue_floatIdentity hargument).mp ⟨_, _, rfl⟩

/-- One with three hundred and nine zeros behind it, which is beyond the finite floating-point
numbers. -/
def largeInt : Int := 10 ^ 309

/-- The program `(let ((f be (lambda ((x as Float)) returns Float x))) (f n))`, where `n` is
this integer. -/
def overflowProgram : Node :=
  .form [.symbol "let",
    .form [.form [.symbol "f", .symbol "be", .form [.symbol "lambda",
      .form [.form [.symbol "x", .symbol "as", .symbol "Float"]],
      .symbol "returns", .symbol "Float", .symbol "x"]]],
    .form [.symbol "f", .int largeInt]]

theorem isProgram_overflowProgram : overflowProgram.IsProgram := by
  simp [overflowProgram, isProgram_form_iff, IsProgram.symbol, IsProgram.value, IsValue.int]

/-- **An error that is not contained:** an integer that is too large ends the evaluation of a
program, and an application as well. -/
theorem not_errorsContained_overflowProgram :
    overflowProgram.IsProgram ∧ (Scope.empty : Scope Node).IsFit ∧
      ¬ErrorsContained (evaluate 200 overflowProgram) (.initial .empty) ∧
        (Node.closure floatIdentity).IsValue ∧
          ¬ErrorsContained (applyClosure (eval 200 1) floatIdentity [.int largeInt])
            (.initial .empty) := by
  refine ⟨isProgram_overflowProgram, Scope.isFit_empty, ?_, isValue_floatIdentity, ?_⟩
  · decide +kernel
  · decide +kernel

end EntityLisp
