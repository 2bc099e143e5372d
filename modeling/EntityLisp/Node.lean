import EntityLisp.Number.Shortest
import EntityLisp.Scope

/-!
# Nodes

One type of tree serves as program and as data. What the reader makes from text is built from
atoms and forms. What evaluation makes besides are entities, lists of entities and closures; they
may stand in a program as well, where they evaluate to themselves.

An entity pairs a type with a payload and attributes. A closure is a `lambda` together with the
scope it was made in. It is pending until the first `let` that binds it fixes it. Both states
share an origin, the number that tells the closures of a run apart.
-/

namespace EntityLisp

/-- **A typed value** with its payload and attributes. -/
structure Entity (α : Type) where
  kind : TypeTag
  payload : α
  attrs : List (String × α)

/-- **A typed function** with the scope it has captured. -/
structure Closure (α : Type) where
  params : List (String × TypeTag)
  returns : TypeTag
  body : α
  scope : Scope α
  fixed : Bool
  origin : Nat

/-- **A node:** an atom, a form, or a value. -/
inductive Node where
  | nil
  | bool (value : Bool)
  | int (value : Int)
  | float (value : Binary64)
  | str (text : String)
  | symbol (name : String)
  /-- A name that stands for itself, written with a colon in front. -/
  | keyword (name : String)
  | form (items : List Node)
  | entity (value : Entity Node)
  /-- A list of entities; it is `joined` if arithmetic has made it of others. -/
  | entities (values : List (Entity Node)) (joined : Bool)
  | closure (value : Closure Node)

/-- Whether an entity reports a failure. -/
def Entity.isError {α : Type} (entity : Entity α) : Bool := entity.kind == .error

namespace Closure

variable {α : Type}

/-- How many arguments a closure takes. -/
def arity (closure : Closure α) : Nat := closure.params.length

/-- **The fixed state** of a closure, which captures `scope`. A fixed closure stays as it is. -/
def fix (closure : Closure α) (scope : Scope α) : Closure α :=
  if closure.fixed then closure else { closure with scope := scope, fixed := true }

/-- Its signature in program text. -/
def signature (closure : Closure α) : String :=
  let params := closure.params.map fun (name, type) => "(" ++ name ++ " as " ++ type.name ++ ")"
  "(λ (" ++ " ".intercalate params ++ ") returns " ++ closure.returns.name ++ ")"

theorem origin_fix (closure : Closure α) (scope : Scope α) :
    (closure.fix scope).origin = closure.origin := by
  unfold fix
  split <;> rfl

theorem fixed_fix (closure : Closure α) (scope : Scope α) : (closure.fix scope).fixed = true := by
  unfold fix
  split
  · assumption
  · rfl

end Closure

namespace Node

/-- Whether a node is a state of the closure with the given origin. -/
def hasOrigin (origin : Nat) : Node → Bool
  | .closure c => c.origin == origin
  | _ => false

/-- Whether a node is the symbol of that name. -/
def isSymbol (name : String) : Node → Bool
  | .symbol n => n == name
  | _ => false

/-- The shape of a payload, if it has one that an entity can hold. -/
def shape? : Node → Option Shape
  | .str _ => some .string
  | .int _ => some .integer
  | .float _ => some .float
  | .bool _ => some .boolean
  | _ => none

/-- What a node is called when it is refused as a payload. -/
def sort : Node → String
  | .nil => "nil"
  | .bool _ => "boolean"
  | .int _ => "integer"
  | .float _ => "float"
  | .str _ => "string"
  | .symbol _ => "Symbol"
  | .keyword _ => "Keyword"
  | .form _ => "list"
  | .entity e => e.kind.name ++ " entity"
  | .entities _ false => "EntityList"
  | .entities _ true => "tuple"
  | .closure _ => "Closure"

end Node

end EntityLisp
