import EntityLisp.Form.Read
import EntityLisp.Run.Application
import EntityLisp.Run.Attributes
import EntityLisp.Run.Function
import EntityLisp.Run.Operands

/-!
# Evaluation

A symbol evaluates to what it is bound to, and every other atom and every value to itself. A form
is first freed of sugar: a type or a role at its head makes it an `entity` form. Then its head
decides: a core form runs, a closure is applied to the rest as it is written, an error entity is
the result, and nothing else can be a head.

`eval` counts down how much deeper evaluation may nest. An argument is one level deeper than its
form, and what an application evaluates is two levels deeper than the form that applies.
-/

namespace EntityLisp

/-! ### Sugar -/

/-- A name at the head of a form that stands for an `entity` form. -/
inductive Sugar where
  | type (tag : TypeTag)
  | role (role : Role)
  deriving DecidableEq

/-- The sugar that a name stands for. -/
def Sugar.ofName? (name : String) : Option Sugar :=
  match TypeTag.ofName? name with
  | some tag => if tag.isSugar then some (.type tag) else none
  | none => (Role.ofHead? name).map .role

/-- The sugar that the head of a form stands for. -/
def Node.sugar? : Node → Option Sugar
  | .symbol name => Sugar.ofName? name
  | _ => none

/-- Keys as they are and values evaluated, taken from the list in turn. -/
def evalValues (eval : Node → Run Node) : List Node → Run (List Node)
  | key :: value :: rest => do
    let value ← eval value
    return key :: value :: (← evalValues eval rest)
  | _ => pure []

/-- The head and the arguments of an `entity` form. -/
def entityForm (arguments : List Node) : Node × List Node :=
  (.symbol CoreForm.entity.name, arguments)

/-- The arguments of the `entity` form that introduces a noun in a role: its attributes are the
evaluated ones and, after them, the role. -/
def roleArguments (role : Role) (value : Node) (attrs : List Node) : List Node :=
  [.symbol TypeTag.noun.name, value,
    .form (.symbol mapHead :: attrs ++ [.keyword "role", .str role.value])]

/-- **A form freed of sugar,** as its head and its arguments. -/
def desugar (eval : Node → Run Node) (head : Node) (arguments : List Node) :
    Run (Except Failure (Node × List Node)) :=
  match head.sugar? with
  | none => pure (.ok (head, arguments))
  | some (.type _) => pure (.ok (entityForm (foldAttributes (head :: arguments))))
  | some (.role role) =>
    match arguments with
    | [] => pure (.error (.roleForm role.head))
    | value :: pairs =>
      match unpairedKey? pairs with
      | some key => pure (.error (.unpairedKey key.shown))
      | none => do
        let attrs ← evalValues eval pairs
        pure (.ok (entityForm (roleArguments role value attrs)))

/-! ### Forms -/

/-- Runs a core form. -/
def runCore (eval : Node → Run Node) (form : CoreForm) (arguments : List Node) : Run Node :=
  match form with
  | .entity => runEntity eval arguments
  | .list => runList eval arguments
  | .numeric op => runNumeric op eval arguments
  | .eq => runEq eval arguments
  | .letIn => runLet eval arguments
  | .impl => runImpl arguments
  | .lambda => runLambda arguments

/-- Goes on with the value of the head of a form. `argEval` evaluates inside an application. -/
def applyHead (argEval : Node → Run Node) (head value : Node) (arguments : List Node) :
    Run Node :=
  match value with
  | .closure c => applyClosure argEval c arguments
  | .entity e => if e.isError then pure value else throw (.unknownOperator head.shown)
  | _ => throw (.unknownOperator head.shown)

/-- Runs a form that is free of sugar. -/
def runForm (eval argEval : Node → Run Node) (head : Node) (arguments : List Node) : Run Node :=
  match head with
  | .symbol name =>
    match CoreForm.ofName? name with
    | some form => do
      Run.report (.coreForm name)
      runCore eval form arguments
    | none => do applyHead argEval head (← Run.lookup name) arguments
  | .form _ => do applyHead argEval head (← eval head) arguments
  | _ => applyHead argEval head head arguments

/-- Evaluates one node, where `eval` evaluates one level deeper and `argEval` two. -/
def evalNode (eval argEval : Node → Run Node) : Node → Run Node
  | .form [] => throw .emptyForm
  | .form (head :: arguments) => do
    match ← desugar eval head arguments with
    | .error failure => pure failure.toNode
    | .ok (head, arguments) => runForm eval argEval head arguments
  | .symbol name => Run.lookup name
  | node => pure node

/-- **Evaluates a node** where evaluation may go on for so many levels, this one included. The
limit is the one that is named when they are used up. -/
def eval (limit : Nat) : (levels : Nat) → Node → Run Node
  | 0, _ => throw (.tooDeep limit)
  | 1, node => evalNode (eval limit 0) (eval limit 0) node
  | levels + 2, node => evalNode (eval limit (levels + 1)) (eval limit levels) node

theorem eval_succ (limit levels : Nat) :
    eval limit (levels + 1) = evalNode (eval limit levels) (eval limit (levels - 1)) := by
  cases levels <;> rfl

/-! ### Programs -/

/-- **Evaluates a node at the top level** under a depth limit. The stack ends it as well, and the
limit is then the one that is named. -/
def evaluate [Stack] (limit : Nat) (node : Node) : Run Node :=
  eval limit (min limit stackDepth + 1) node

/-- Evaluates forms in order. -/
def evaluateForms [Stack] (limit : Nat) (forms : List Node) : Run Node :=
  evalSequence (evaluate limit) .nil forms

/-- **Runs a program text.** All of it is read before anything is evaluated; the value is that of
the last form, or nil if there is none. -/
def evaluateText [Stack] (limit : Nat) (text : String) : Run Node :=
  match readProgram text with
  | .error fault => throw (.ofFault fault)
  | .ok forms => evaluateForms limit forms

end EntityLisp
