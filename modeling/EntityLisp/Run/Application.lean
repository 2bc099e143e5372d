import EntityLisp.CoreForm
import EntityLisp.Run

/-!
# Applications

A closure is applied to arguments as they are written. They are evaluated in the scope that the
closure has captured with the scope of the caller folded in, where the captured bindings win, and
each must be an entity of the type of its parameter, or a closure for a parameter of type
`Lambda`. The body is evaluated in that scope with the parameters bound.

A body that is itself a `lambda` form gives a closure. Any other body runs without the names of
the closure itself, so it cannot call itself, and its value must be of the type that the closure
returns, or a closure.

What stops evaluation inside an application becomes an error entity, as far as it is contained.
-/

namespace EntityLisp

/-- Whether a value is good for a parameter of the type. -/
def TypeTag.takes (type : TypeTag) (value : Node) : Bool :=
  if type = .lambda then (match value with | .closure _ => true | _ => false)
  else (match value with | .entity e => e.kind == type | _ => false)

/-- A value as an argument for a parameter of the type; entities and closures stay as they
are. -/
def argumentFor (type : TypeTag) (value : Node) : Except EvalError Node :=
  match value with
  | .entity _ | .closure _ => .ok value
  | _ => (coerce type value).mapError .arithmetic

/-- The value to be bound to a parameter, or why it cannot be. -/
def bindArgument (name : String) (type : TypeTag) (value : Node) :
    Except EvalError (Except Failure Node) :=
  match value with
  | .nil => .ok (.error (.nilArgument name))
  | _ => (argumentFor type value).map fun value =>
      if type.takes value then .ok value
      else .error (.argumentType name type value.describe)

/-- Evaluates arguments in order, each against its parameter, up to the first that does not
fit. -/
def evalArguments (eval : Node → Run Node) :
    List (String × TypeTag) → List Node → Run (Except Failure (List (String × Node)))
  | (name, type) :: params, argument :: arguments => do
    let value ← eval argument
    match ← Run.ofResult (bindArgument name type value) with
    | .error failure => pure (.error failure)
    | .ok value => do
      let others ← evalArguments eval params arguments
      pure (others.map ((name, value) :: ·))
  | _, _ => pure (.ok [])

/-- The scope with several names bound, one after the other. -/
def Scope.defineAll (scope : Scope Node) (bindings : List (String × Node)) : Scope Node :=
  bindings.foldl (fun scope (name, value) => scope.define name value) scope

/-- The scope without the names that are bound to a state of the closure of that origin. -/
def Scope.unbindOrigin (scope : Scope Node) (origin : Nat) : Scope Node :=
  { scope with bindings := scope.bindings.filter fun binding => !binding.2.hasOrigin origin }

/-- Whether a node is a `lambda` form. -/
def Node.isLambdaForm : Node → Bool
  | .form (.symbol head :: _) => head == CoreForm.lambda.name
  | _ => false

/-- The result of an application whose body has the value: the value, if it is a closure or of
the type to be returned. -/
def checkResult (returns : TypeTag) (value : Node) : Node :=
  match value with
  | .closure _ => value
  | .entity e =>
    if e.kind = returns then value else (Failure.resultType returns value.describe).toNode
  | _ => (Failure.resultType returns value.describe).toNode

/-- Evaluates the body of a closure in the scope of a call. -/
def runCall (eval : Node → Run Node) (closure : Closure Node) (scope : Scope Node) : Run Node :=
  if closure.body.isLambdaForm then Run.within scope (eval closure.body)
  else do
    let value ← Run.within (scope.unbindOrigin closure.origin) (eval closure.body)
    pure (checkResult closure.returns value)

/-- Evaluates arguments and body of an application. -/
def callClosure (eval : Node → Run Node) (closure : Closure Node) (arguments : List Node) :
    Run Node := do
  if arguments.length = closure.arity then
    let scope := closure.scope.mergedWith (← Run.scope)
    match ← Run.within scope (evalArguments eval closure.params arguments) with
    | .error failure => pure failure.toNode
    | .ok bindings => runCall eval closure (scope.defineAll bindings)
  else pure (Failure.argumentCount closure.arity arguments.length).toNode

/-- The error entity that an application has for an error, which is reported. -/
def reportStopped (closure : Closure Node) (error : EvalError) : Run Node := do
  Run.report (.applicationFailed closure.signature error)
  pure (Failure.stopped error).toNode

/-- **Applies a closure.** A contained error is reported and becomes an error entity. -/
def applyClosure (eval : Node → Run Node) (closure : Closure Node) (arguments : List Node) :
    Run Node := do
  Run.report (.applied closure.signature arguments.length)
  Run.contain (callClosure eval closure arguments) (reportStopped closure)

end EntityLisp
