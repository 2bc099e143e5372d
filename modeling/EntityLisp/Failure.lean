import EntityLisp.ArithmeticError
import EntityLisp.Node.Source
import EntityLisp.SyntaxError

/-!
# What can go wrong when a program runs

An `EvalError` stops evaluation until the nearest application of a closure, which turns it into a
value; only a failure of arithmetic is passed on by applications too. A `Failure` is a
value from the start: an entity of type `Error` whose payload is the message.

Both are given by their cause; the wording is in `EvalError.message` and `Failure.message`.
-/

namespace EntityLisp

/-- **What stops evaluation.** -/
inductive EvalError where
  /-- Malformed program text, or a malformed function body. -/
  | malformed (fault : SyntaxError)
  /-- A symbol that is not bound. -/
  | unbound (name : String)
  /-- The empty form. -/
  | emptyForm
  /-- A form whose head, as shown, is neither a core form nor a closure. -/
  | unknownOperator (head : String)
  /-- Evaluation nested deeper than the limit. -/
  | tooDeep (limit : Nat)
  /-- Arithmetic that has no result. -/
  | arithmetic (error : ArithmeticError)
  deriving DecidableEq

namespace EvalError

/-- What stops the evaluation of a program text that has a fault. -/
def ofFault : SyntaxError → EvalError
  | .tooManyDigits count => .arithmetic (.tooManyDigits count)
  | fault => .malformed fault

/-- The message for what stopped evaluation. -/
def message : EvalError → String
  | .malformed fault => fault.message
  | .unbound name => "Unbound variable: " ++ name
  | .emptyForm => "Unknown operator: empty form"
  | .unknownOperator head => "Unknown operator: " ++ head
  | .tooDeep limit => "Maximum evaluation depth exceeded (" ++ toString limit ++ ")"
  | .arithmetic error => error.message

/-- Whether an application of a closure turns the error into a value. -/
def isContained : EvalError → Bool
  | .arithmetic _ => false
  | _ => true

end EvalError

/-- **Why a value is an error entity.** Nodes and values are given as they are shown. -/
inductive Failure where
  -- building entities
  | unknownType (name : String)
  | notConstructible (kind : TypeTag)
  | invalidPayload (kind : TypeTag) (expected : Shape) (found : String)
  | entityForm
  | roleForm (role : String)
  | unpairedKey (key : String)
  | invalidKey (key : String)
  | invalidAdjective (found : String)
  -- lists and numbers
  | notListable (position : Nat) (found : String)
  | noOperands (operator : String)
  | notNumeric (operator : String) (found : String)
  | eqCount (found : Nat)
  | eqOperand (found : String)
  -- traits, bindings and functions
  | implForm
  | implTags (trait type : String)
  | letForm
  | invalidBinding (found : String)
  | lambdaForm
  | parameterList (found : String)
  | missingReturns (found : String)
  | invalidParameter (found : String)
  | parameterType (name found : String)
  | duplicateParameter (name : String)
  | returnType (found : String)
  -- applications
  | argumentCount (expected found : Nat)
  | nilArgument (name : String)
  | argumentType (name : String) (expected : TypeTag) (found : String)
  | resultType (expected : TypeTag) (found : String)
  | stopped (error : EvalError)
  deriving DecidableEq

namespace Failure

/-- The message for a failure. -/
def message : Failure → String
  | .unknownType name => "Unknown type: " ++ name
  | .notConstructible kind => "Cannot construct a " ++ kind.name ++ " entity"
  | .invalidPayload kind expected found =>
    "Invalid value for " ++ kind.name ++ ": expected " ++ expected.name ++ ", got " ++ found
  | .entityForm => "invalid entity syntax: expected (entity Type value [(map ...)])"
  | .roleForm role =>
    "invalid " ++ role ++ " syntax: expected (" ++ role ++ " value key value ...)"
  | .unpairedKey key => "unpaired map key: " ++ key
  | .invalidKey key => "invalid map key: " ++ key
  | .invalidAdjective found => "invalid adjective: expected Adjective entity, got " ++ found
  | .notListable position found =>
    "cannot list element " ++ toString position ++ ": got " ++ found
  | .noOperands operator => operator ++ ": insufficient arguments (expected at least 1)"
  | .notNumeric operator found => operator ++ ": expected Numeric operand, got " ++ found
  | .eqCount found => "eq: argument count mismatch (expected 2, got " ++ toString found ++ ")"
  | .eqOperand found => "eq: expected entity operand, got " ++ found
  | .implForm => "invalid impl syntax: expected (impl Trait for Type)"
  | .implTags trait type => "invalid trait/type: " ++ trait ++ " for " ++ type
  | .letForm => "invalid let syntax: expected (let ((name be value) ...) body...)"
  | .invalidBinding found => "invalid binding: expected (name be value), got " ++ found
  | .lambdaForm => "invalid lambda syntax: expected (lambda (params) returns Type body)"
  | .parameterList found => "invalid lambda syntax: parameter list expected, got " ++ found
  | .missingReturns found => "invalid lambda syntax: expected `returns`, got " ++ found
  | .invalidParameter found => "invalid lambda syntax: expected (name as Type), got " ++ found
  | .parameterType name found => "invalid parameter type for `" ++ name ++ "`: " ++ found
  | .duplicateParameter name => "duplicate parameter name: " ++ name
  | .returnType found => "invalid return type: " ++ found
  | .argumentCount expected found =>
    "argument count mismatch: expected " ++ toString expected ++ ", got " ++ toString found
  | .nilArgument name => "nil argument not allowed for `" ++ name ++ "`"
  | .argumentType name expected found =>
    "type mismatch for `" ++ name ++ "`: expected " ++ expected.name ++ ", got " ++ found
  | .resultType expected found =>
    "return type mismatch: expected " ++ expected.name ++ ", got " ++ found
  | .stopped error => error.message

/-- **The error entity** that reports a failure. -/
def toEntity (failure : Failure) : Entity Node := ⟨.error, .str failure.message, []⟩

/-- The error entity as a node. -/
def toNode (failure : Failure) : Node := .entity failure.toEntity

theorem isError_toEntity (failure : Failure) : failure.toEntity.isError = true := rfl

end Failure

end EntityLisp
