import EntityLisp.Proofs.Calls

/-!
# What applications answer

An application turns every error that it contains into an error entity, and checks the value of
its body against the type that the closure returns. A body that is itself a `lambda` form is not
checked; its value is a closure or an error entity all the same.

* `answers_applyClosure`: one application, over any evaluator that gives a closure or an error
  entity for a `lambda` form.
* `applyClosure_answers`: the law for the evaluator itself, at every level and in every state, and
  for a form whose head is bound to a closure.
-/

namespace EntityLisp

open Run

/-- **What an application may answer:** a closure, an entity of the type to be returned, or an
entity that reports an error. -/
inductive Node.Answers (returns : TypeTag) : Node → Prop where
  | closure (c : Closure Node) : Answers returns (.closure c)
  | returned {e : Entity Node} (kind_eq : e.kind = returns) : Answers returns (.entity e)
  | failed {e : Entity Node} (isError : e.isError = true) : Answers returns (.entity e)

/-- **An error that applications pass on** is one of arithmetic. -/
def EvalError.IsArithmetic (error : EvalError) : Prop := ∃ cause, error = .arithmetic cause

theorem EvalError.isArithmetic_of_not_contained {error : EvalError}
    (h : error.isContained = false) : error.IsArithmetic := by
  cases error with
  | arithmetic cause => exact ⟨cause, rfl⟩
  | _ => cases h

theorem Failure.answers_toNode (returns : TypeTag) (failure : Failure) :
    failure.toNode.Answers returns :=
  .failed failure.isError_toEntity

theorem answers_checkResult (returns : TypeTag) (value : Node) :
    (checkResult returns value).Answers returns := by
  unfold checkResult
  split
  · next c => exact .closure c
  · split
    · next hkind => exact .returned hkind
    · exact Failure.answers_toNode _ _
  · exact Failure.answers_toNode _ _

/-! ### Functions -/

/-- Of any action it can be said that nothing is said. -/
theorem ensures_true {α : Type} (action : Run α) :
    Ensures (fun _ => True) (fun _ => True) (fun _ => True) action := by
  intro state _
  cases action state <;> exact ⟨trivial, trivial⟩

/-- A `lambda` form gives a closure or an error entity. -/
theorem answers_runLambda (returns : TypeTag) (arguments : List Node) :
    Ensures (fun _ => True) (Node.Answers returns) (fun _ => True) (runLambda arguments) := by
  unfold runLambda
  split
  · split
    · exact ensures_pure (Failure.answers_toNode _ _)
    · split
      · exact ensures_throw trivial
      · refine ensures_bind (ensures_true _) fun scope _ => ?_
        refine ensures_bind ensures_freshOrigin fun origin _ => ?_
        exact ensures_pure (.closure _)
  · exact ensures_pure (Failure.answers_toNode _ _)

/-- **An evaluator of functions** gives a closure or an error entity for every `lambda` form. -/
def EvaluatesFunctions (eval : Node → Run Node) : Prop :=
  ∀ returns node, node.isLambdaForm = true →
    Ensures (fun _ => True) (Node.Answers returns) (fun _ => True) (eval node)

theorem evaluatesFunctions_eval (limit levels : Nat) : EvaluatesFunctions (eval limit levels) := by
  intro returns node hnode
  cases levels with
  | zero => exact ensures_throw trivial
  | succ levels =>
    rw [eval_succ]
    -- the head is the word `lambda`, which is no sugar
    unfold Node.isLambdaForm at hnode
    split at hnode
    · next head arguments =>
      obtain rfl := beq_iff_eq.mp hnode
      refine ensures_bind (Q := fun freed => freed = .ok (.symbol CoreForm.lambda.name, arguments))
        (ensures_pure rfl) ?_
      rintro _ rfl
      exact ensures_bind (ensures_report _) fun _ _ => answers_runLambda returns arguments
    · cases hnode

/-! ### Applications -/

section Application

variable {eval : Node → Run Node}

theorem answers_runCall (heval : EvaluatesFunctions eval) (c : Closure Node)
    (scope : Scope Node) :
    Ensures (fun _ => True) (Node.Answers c.returns) (fun _ => True) (runCall eval c scope) := by
  unfold runCall
  split
  · next hbody => exact ensures_within trivial (heval c.returns c.body hbody)
  · exact ensures_bind (ensures_true _) fun value _ =>
      ensures_pure (answers_checkResult c.returns value)

theorem answers_callClosure (heval : EvaluatesFunctions eval) (c : Closure Node)
    (arguments : List Node) :
    Ensures (fun _ => True) (Node.Answers c.returns) (fun _ => True)
      (callClosure eval c arguments) := by
  unfold callClosure
  split
  · refine ensures_bind (ensures_true _) fun scope _ => ?_
    refine ensures_bind (ensures_true _) fun result _ => ?_
    split
    · exact ensures_pure (Failure.answers_toNode _ _)
    · exact answers_runCall heval c _
  · exact ensures_pure (Failure.answers_toNode _ _)

/-- **What one application answers,** and the errors that it passes on. -/
theorem answers_applyClosure (heval : EvaluatesFunctions eval) (c : Closure Node)
    (arguments : List Node) :
    Ensures (fun _ => True) (Node.Answers c.returns) EvalError.IsArithmetic
      (applyClosure eval c arguments) := by
  unfold applyClosure
  refine ensures_bind (ensures_report _) fun _ _ => ?_
  refine ensures_contain (answers_callClosure heval c arguments) ?_ fun error _ => ?_
  · exact fun error _ hescapes => EvalError.isArithmetic_of_not_contained hescapes
  · exact ensures_bind (ensures_report _) fun _ _ =>
      ensures_pure (Failure.answers_toNode _ _)

end Application

/-! ### Forms that apply a name -/

theorem desugar_of_sugar?_eq_none {eval : Node → Run Node} {head : Node} (h : head.sugar? = none)
    (arguments : List Node) : desugar eval head arguments = pure (.ok (head, arguments)) := by
  unfold desugar
  rw [h]

/-- A name without a meaning of its own is no core form. -/
theorem symbol_ne_core {name : String} (h : CoreForm.ofName? name = none) (form : CoreForm) :
    Node.symbol name ≠ .symbol form.name := by
  rintro ⟨⟩
  rw [CoreForm.ofName?_name] at h
  cases h

/-- A form whose head is a name without a meaning of its own looks the name up. -/
theorem evalNode_name {eval argEval : Node → Run Node} {name : String}
    (hcore : CoreForm.ofName? name = none) (hsugar : Sugar.ofName? name = none)
    (arguments : List Node) : evalNode eval argEval (.form (.symbol name :: arguments)) =
      Run.lookup name >>= fun value => applyHead argEval (.symbol name) value arguments := by
  have hplain : (Node.symbol name).sugar? = none := hsugar
  rw [evalNode_form, desugar_of_sugar?_eq_none hplain]
  exact runForm_of_not_core (symbol_ne_core hcore) arguments

/-- A form whose head is bound to a closure applies it. -/
theorem evalNode_bound {eval argEval : Node → Run Node} {name : String} {c : Closure Node}
    {arguments : List Node} {state : RunState} (hcore : CoreForm.ofName? name = none)
    (hsugar : Sugar.ofName? name = none) (hbound : state.scope.lookup? name = some (.closure c)) :
    evalNode eval argEval (.form (.symbol name :: arguments)) state =
      applyClosure argEval c arguments state := by
  have hlookup : Run.lookup name state = .ok (.closure c) state := by
    unfold Run.lookup
    rw [scope_bind_apply, hbound]
    rfl
  rw [evalNode_name hcore hsugar, bind_of_ok hlookup]
  rfl

/-- **The contract of applications.** An application of a closure, whatever its arguments and
wherever it is made, gives a closure, an entity of the type that the closure returns or an error
entity, and ends with no error but one of arithmetic. So does a form whose head is a name that is
bound to a closure and means nothing else. -/
theorem applyClosure_answers [Stack] (limit levels : Nat) (c : Closure Node) (arguments : List Node)
    (state : RunState) :
    ((∀ value after, applyClosure (eval limit levels) c arguments state = .ok value after →
        value.Answers c.returns) ∧
      ∀ error after, applyClosure (eval limit levels) c arguments state = .error error after →
        error.IsArithmetic) ∧
    ∀ name, CoreForm.ofName? name = none → Sugar.ofName? name = none →
      state.scope.lookup? name = some (.closure c) →
        (∀ value after, evaluate limit (.form (.symbol name :: arguments)) state =
          .ok value after → value.Answers c.returns) ∧
        ∀ error after, evaluate limit (.form (.symbol name :: arguments)) state =
          .error error after → error.IsArithmetic := by
  -- the law at any level, for the application itself and for the form
  have hanswers : ∀ levels, Ensures (fun _ => True) (Node.Answers c.returns)
      EvalError.IsArithmetic (applyClosure (eval limit levels) c arguments) :=
    fun levels => answers_applyClosure (evaluatesFunctions_eval limit levels) c arguments
  refine ⟨⟨fun value after h => ((hanswers levels).of_ok trivial h).1,
    fun error after h => ((hanswers levels).of_error trivial h).1⟩, ?_⟩
  intro name hcore hsugar hbound
  have hform : evaluate limit (.form (.symbol name :: arguments)) state =
      applyClosure (eval limit (min limit stackDepth - 1)) c arguments state := by
    unfold evaluate
    rw [eval_succ]
    exact evalNode_bound hcore hsugar hbound
  rw [hform]
  exact ⟨fun value after h => ((hanswers _).of_ok trivial h).1,
    fun error after h => ((hanswers _).of_error trivial h).1⟩

/-- The function `(lambda () returns Integer (stray))`, whose body applies a name that nothing
binds. -/
def strayFunction : Closure Node := ⟨[], .integer, .form [.symbol "stray"], .empty, true, 1⟩

/-- The scope that binds it to `f`. -/
def strayScope : Scope Node := Scope.empty.define "f" (.closure strayFunction)

/-- The law where the body fails: what stops it becomes the error entity that is the answer. -/
theorem applyClosure_answers_stray :
    CoreForm.ofName? "f" = none ∧ Sugar.ofName? "f" = none ∧
      strayScope.lookup? "f" = some (.closure strayFunction) ∧
        ∃ after, evaluate 200 (.form [.symbol "f"]) (.initial strayScope) =
            .ok (Failure.stopped (.unbound "stray")).toNode after ∧
          (Failure.stopped (.unbound "stray")).toNode.Answers .integer := by
  have hrun : ∃ after, evaluate 200 (.form [.symbol "f"]) (.initial strayScope) =
      .ok (Failure.stopped (.unbound "stray")).toNode after := ⟨_, rfl⟩
  obtain ⟨after, hafter⟩ := hrun
  have hlaw := (applyClosure_answers 200 1 strayFunction [] (.initial strayScope)).2 "f"
    (by decide) (by decide) rfl
  exact ⟨by decide, by decide, rfl, after, hafter, hlaw.1 _ after hafter⟩

end EntityLisp
