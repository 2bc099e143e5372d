import EntityLisp.Proofs.Ensures
import EntityLisp.Run.Evaluate

/-!
# The calls of an evaluation

Evaluating a form evaluates other nodes in turn. `Calls` says which, and in which state: each case
is one place of a form, reached once what stands before it has been evaluated. `CallsInside` are
the calls of an application, of its arguments and of the body; they have one level less than the
others.

`Reaches` is the closure over all levels: the evaluations that are made, directly or not, by an
evaluation.

* `evalNode_of_startsCore`, `evalNode_of_startsCall`: where a core form or an application starts,
  one step of evaluation goes on with it.
-/

namespace EntityLisp

/-! ### The stages of a form -/

/-- **A form is free of sugar:** with this head and these arguments it goes on from `after`. -/
def Freed (eval : Node → Run Node) (node : Node) (state : RunState) (head : Node)
    (arguments : List Node) (after : RunState) : Prop :=
  ∃ written rest, node = .form (written :: rest) ∧
    desugar eval written rest state = .ok (.ok (head, arguments)) after

/-- **A core form starts** on its arguments. -/
def StartsCore (eval : Node → Run Node) (node : Node) (state : RunState) (form : CoreForm)
    (arguments : List Node) (after : RunState) : Prop :=
  ∃ freed, Freed eval node state (.symbol form.name) arguments freed ∧
    after = freed.reporting (.coreForm form.name)

/-- The value of a head that names no core form. -/
def headValue (eval : Node → Run Node) (head : Node) : Run Node :=
  match head with
  | .symbol name => Run.lookup name
  | .form items => eval (.form items)
  | value => pure value

/-- **An application starts:** the head has turned out to be a closure, and there are as many
arguments as it takes. -/
def StartsCall (eval : Node → Run Node) (node : Node) (state : RunState) (c : Closure Node)
    (arguments : List Node) (after : RunState) : Prop :=
  ∃ head freed found, Freed eval node state head arguments freed ∧
    (∀ form : CoreForm, head ≠ .symbol form.name) ∧
      headValue eval head freed = .ok (.closure c) found ∧ arguments.length = c.arity ∧
        after = found.reporting (.applied c.signature arguments.length)

section Steps

variable {eval argEval : Node → Run Node} {node : Node} {state after : RunState}

/-- The error of a form that is not free of sugar is its value. -/
theorem evalNode_form (head : Node) (arguments : List Node) :
    evalNode eval argEval (.form (head :: arguments)) =
      desugar eval head arguments >>= fun result =>
        match result with
        | .error failure => pure failure.toNode
        | .ok (head, arguments) => runForm eval argEval head arguments := rfl

theorem runForm_core (form : CoreForm) (arguments : List Node) :
    runForm eval argEval (.symbol form.name) arguments =
      Run.report (.coreForm form.name) >>= fun _ => runCore eval form arguments := by
  unfold runForm
  simp only [CoreForm.ofName?_name]

theorem runForm_of_not_core {head : Node} (h : ∀ form : CoreForm, head ≠ .symbol form.name)
    (arguments : List Node) : runForm eval argEval head arguments =
      headValue eval head >>= fun value => applyHead argEval head value arguments := by
  -- the head is looked up or evaluated first, and `applyHead` has the last word
  unfold runForm headValue
  cases head with
  | symbol name =>
    cases hname : CoreForm.ofName? name with
    | none => simp only [hname]
    | some form => exact absurd (by rw [CoreForm.name_of_ofName? hname]) (h form)
  | _ => rfl

theorem evalNode_of_freed {head : Node} {arguments : List Node}
    (h : Freed eval node state head arguments after) :
    evalNode eval argEval node state = runForm eval argEval head arguments after := by
  obtain ⟨written, rest, rfl, hfreed⟩ := h
  rw [evalNode_form, Run.bind_of_ok hfreed]

/-- **A core form runs** where it starts. -/
theorem evalNode_of_startsCore {form : CoreForm} {arguments : List Node}
    (h : StartsCore eval node state form arguments after) :
    evalNode eval argEval node state = runCore eval form arguments after := by
  obtain ⟨freed, hfreed, rfl⟩ := h
  rw [evalNode_of_freed hfreed, runForm_core]
  rfl

theorem StartsCall.length_eq {c : Closure Node} {arguments : List Node}
    (h : StartsCall eval node state c arguments after) : arguments.length = c.arity := by
  obtain ⟨-, -, -, -, -, -, hcount, -⟩ := h
  exact hcount

/-- **An application runs** where it starts. -/
theorem evalNode_of_startsCall {c : Closure Node} {arguments : List Node}
    (h : StartsCall eval node state c arguments after) :
    evalNode eval argEval node state =
      Run.contain (callClosure argEval c arguments) (reportStopped c) after := by
  obtain ⟨head, freed, found, hfreed, hhead, hfound, -, rfl⟩ := h
  rw [evalNode_of_freed hfreed, runForm_of_not_core hhead, Run.bind_of_ok hfound]
  rfl

end Steps

/-! ### Calls -/

/-- The scope in which the body of a closure is evaluated, from the one with the parameters
bound. -/
def bodyScope (c : Closure Node) (scope : Scope Node) : Scope Node :=
  if c.body.isLambdaForm then scope else scope.unbindOrigin c.origin

/-- **The calls of an application** that has started. -/
inductive CallsInside (argEval : Node → Run Node) (c : Closure Node) (arguments : List Node)
    (start : RunState) : Node → RunState → Prop where
  /-- An argument, once those before it have been evaluated and bound. -/
  | argument {earlier later : List (String × TypeTag)} {name : String} {type : TypeTag}
      {before rest : List Node} {argument : Node} {bindings : List (String × Node)}
      {reached : RunState}
      (params : c.params = earlier ++ (name, type) :: later)
      (split : arguments = before ++ argument :: rest) (aligned : earlier.length = before.length)
      (bound : evalArguments argEval earlier before
        (start.inScope (c.scope.mergedWith start.scope)) = .ok (.ok bindings) reached) :
      CallsInside argEval c arguments start argument reached
  /-- The body, once all arguments have been evaluated and bound. -/
  | body {bindings : List (String × Node)} {reached : RunState}
      (bound : evalArguments argEval c.params arguments
        (start.inScope (c.scope.mergedWith start.scope)) = .ok (.ok bindings) reached) :
      CallsInside argEval c arguments start c.body (reached.inScope
        (bodyScope c ((c.scope.mergedWith start.scope).defineAll bindings)))

/-- **The calls of one step of evaluation.** `inside` tells those that belong to an application,
which `argEval` evaluates, from the others, which `eval` does. -/
inductive Calls (eval argEval : Node → Run Node) (node : Node) (state : RunState) :
    (inside : Bool) → Node → RunState → Prop where
  /-- An attribute of a noun that is introduced in a role. -/
  | roleValue {role : Role} {value key item : Node} {before rest keyed : List Node}
      {reached : RunState}
      (written : node = .form (.symbol role.head :: value :: (before ++ key :: item :: rest)))
      (paired : unpairedKey? (before ++ key :: item :: rest) = none)
      (even : before.length % 2 = 0)
      (earlier : evalValues eval before state = .ok keyed reached) :
      Calls eval argEval node state false item reached
  /-- The payload of an entity. -/
  | payload {kind value : Node} {attrs : List Node} {reached : RunState}
      (starts : StartsCore eval node state .entity (kind :: value :: attrs) reached)
      (short : attrs.length ≤ 1) (evaluated : value.isEvaluatedPayload = true) :
      Calls eval argEval node state false value reached
  /-- The adjective of an entity. -/
  | adjective {kind value key item payload : Node} {before rest : List Node} {e : Entity Node}
      {attrs : Table String Node} {start between reached : RunState}
      (starts : StartsCore eval node state .entity
        [kind, value, .form (.symbol mapHead :: (before ++ key :: item :: rest))] start)
      (hasPayload : payloadOf eval value start = .ok payload between)
      (made : makeEntity (typeNameOf kind) payload [] = .ok e) (usable : e.isError = false)
      (paired : unpairedKey? (before ++ key :: item :: rest) = none)
      (even : before.length % 2 = 0)
      (earlier : enterAttributes eval [] before between = .ok (.ok attrs) reached)
      (isAdjective : key.mapKey? = some adjectiveKey) :
      Calls eval argEval node state false item reached
  /-- An element of a list. -/
  | element {argument : Node} {before rest : List Node} {es : List (Entity Node)}
      {start reached : RunState}
      (starts : StartsCore eval node state .list (before ++ argument :: rest) start)
      (earlier : evalOperands eval listElement 1 before start = .ok (.ok es) reached) :
      Calls eval argEval node state false argument reached
  /-- An operand of arithmetic. -/
  | operand {op : NumericOp} {argument : Node} {before rest : List Node}
      {es : List (Entity Node)} {start reached : RunState}
      (starts : StartsCore eval node state (.numeric op) (before ++ argument :: rest) start)
      (earlier : evalOperands eval (numericOperand op) 1 before start = .ok (.ok es) reached) :
      Calls eval argEval node state false argument reached
  /-- The left side of a comparison. -/
  | left {left right : Node} {reached : RunState}
      (starts : StartsCore eval node state .eq [left, right] reached) :
      Calls eval argEval node state false left reached
  /-- The right side of a comparison. -/
  | right {left right value : Node} {start reached : RunState}
      (starts : StartsCore eval node state .eq [left, right] start)
      (earlier : eval left start = .ok value reached) :
      Calls eval argEval node state false right reached
  /-- The value of a binding. -/
  | binding {nodes body : List Node} {before rest : List (String × Node)} {name : String}
      {value : Node} {start reached : RunState}
      (starts : StartsCore eval node state .letIn (.form nodes :: body) start)
      (read : readBindings nodes = .ok (before ++ (name, value) :: rest))
      (earlier : bindInOrder eval before
        (start.reporting (.letScope (before ++ (name, value) :: rest).length)) = .ok () reached) :
      Calls eval argEval node state false value reached
  /-- A node of the body of a `let`. -/
  | sequel {nodes before rest : List Node} {item value : Node}
      {bindings : List (String × Node)} {start reached : RunState}
      (starts : StartsCore eval node state .letIn (.form nodes :: (before ++ item :: rest)) start)
      (read : readBindings nodes = .ok bindings)
      (earlier : runBody eval bindings before start = .ok value reached) :
      Calls eval argEval node state false item reached
  /-- The head of an application. -/
  | head {items arguments : List Node} {reached : RunState}
      (freed : Freed eval node state (.form items) arguments reached) :
      Calls eval argEval node state false (.form items) reached
  /-- An argument of an application, or its body. -/
  | inside {c : Closure Node} {arguments : List Node} {child : Node} {start reached : RunState}
      (starts : StartsCall eval node state c arguments start)
      (calls : CallsInside argEval c arguments start child reached) :
      Calls eval argEval node state true child reached

/-! ### Evaluations -/

/-- **An evaluation:** how many levels are left, what is evaluated, and in which state. -/
structure Evaluation where
  levels : Nat
  node : Node
  state : RunState

/-- **The evaluations that an evaluation makes,** itself included. -/
inductive Reaches (limit : Nat) : Evaluation → Evaluation → Prop where
  | refl (e : Evaluation) : Reaches limit e e
  | call {levels : Nat} {node child : Node} {state reached : RunState} {inside : Bool}
      {e : Evaluation}
      (calls : Calls (eval limit levels) (eval limit (levels - 1)) node state inside child reached)
      (rest : Reaches limit ⟨if inside then levels - 1 else levels, child, reached⟩ e) :
      Reaches limit ⟨levels + 1, node, state⟩ e

end EntityLisp
