import EntityLisp.Form.Normal
import EntityLisp.Run

/-!
# The `entity` form and its attributes

`(entity Type value (map key value ...))` builds an entity. The value is taken as written, unless
it is a name or a form, which are evaluated; an entity that results lends its payload. Attribute
values are kept as written, except for an `adjective`, which must evaluate to an entity of that
type.
-/

namespace EntityLisp

/-- The name that a key stands for: that of a symbol or keyword, or a text. -/
def Node.mapKey? : Node → Option String
  | .symbol name => some name
  | .keyword name => some name
  | .str text => some text
  | _ => none

/-- The attribute whose value is evaluated. -/
def adjectiveKey : String := "adjective"

/-- An attribute value as it is kept under its key. -/
def attributeValue (eval : Node → Run Node) (key : String) (value : Node) :
    Run (Except Failure Node) := do
  if key = adjectiveKey then
    let value ← eval value
    match value with
    | .entity e =>
      if e.kind = .adjective then pure (.ok value)
      else pure (.error (.invalidAdjective value.describe))
    | _ => pure (.error (.invalidAdjective value.describe))
  else pure (.ok value)

/-- Enters keys and values, taken from the list in turn, into a table. -/
def enterAttributes (eval : Node → Run Node) :
    (attrs : Table String Node) → List Node → Run (Except Failure (Table String Node))
  | attrs, key :: value :: rest => do
    match key.mapKey? with
    | none => pure (.error (.invalidKey key.shown))
    | some name =>
      match ← attributeValue eval name value with
      | .error failure => pure (.error failure)
      | .ok value => enterAttributes eval (Table.put name value attrs) rest
  | attrs, _ => pure (.ok attrs)

/-- The key without a value in a list of odd length. -/
def unpairedKey? (pairs : List Node) : Option Node :=
  if pairs.length % 2 = 1 then pairs.getLast? else none

/-- **The attributes that a flat list of keys and values gives.** Nothing is evaluated if a value
is missing. -/
def buildAttributes (eval : Node → Run Node) (pairs : List Node) :
    Run (Except Failure (Table String Node)) :=
  match unpairedKey? pairs with
  | some key => pure (.error (.unpairedKey key.shown))
  | none => enterAttributes eval [] pairs

/-- Whether a node is evaluated before it can be a payload. -/
def Node.isEvaluatedPayload : Node → Bool
  | .symbol _ | .keyword _ | .form _ => true
  | _ => false

/-- The payload that an evaluated node gives: that of an entity, unless it reports an error. -/
def Node.lentPayload : Node → Node
  | .entity e => if e.isError then .entity e else e.payload
  | value => value

/-- The payload that a node stands for. -/
def payloadOf (eval : Node → Run Node) (node : Node) : Run Node :=
  if node.isEvaluatedPayload then do
    let value ← eval node
    pure value.lentPayload
  else pure node

/-- The name of the type that a node asks for. -/
def typeNameOf : Node → String
  | .symbol name => name
  | node => node.shown

/-- The flat list of keys and values of a `map` form. -/
def attributePairs? : Option Node → Option (List Node)
  | some (.form (.symbol head :: pairs)) => if head = mapHead then some pairs else none
  | _ => none

/-- Reports that no usable entity was built, and gives the error entity. -/
def refuseEntity (entity : Entity Node) : Run Node := do
  Run.report (.entityRefused entity.payload.text)
  pure (.entity entity)

/-- Builds the entity from a payload, and after that its attributes. -/
def finishEntity (eval : Node → Run Node) (typeName : String) (payload : Node)
    (attrs? : Option Node) : Run Node := do
  match makeEntity typeName payload [] with
  | .error failure => refuseEntity failure.toEntity
  | .ok entity =>
    if entity.isError then refuseEntity entity
    else
      match attributePairs? attrs? with
      | none => pure (.entity entity)
      | some pairs =>
        match ← buildAttributes eval pairs with
        | .error failure => pure failure.toNode
        | .ok attrs => pure (.entity { entity with attrs := attrs })

/-- Builds an entity from the nodes that give its type, its payload and its attributes. An error
entity in place of the payload is the result. -/
def buildEntity (eval : Node → Run Node) (kind value : Node) (attrs? : Option Node) :
    Run Node := do
  let payload ← payloadOf eval value
  match payload with
  | .entity e =>
    if e.isError then pure (.entity e) else finishEntity eval (typeNameOf kind) payload attrs?
  | _ => finishEntity eval (typeNameOf kind) payload attrs?

/-- **The `entity` form.** -/
def runEntity (eval : Node → Run Node) : List Node → Run Node
  | [kind, value] => buildEntity eval kind value none
  | [kind, value, attrs] => buildEntity eval kind value (some attrs)
  | _ => pure Failure.entityForm.toNode

end EntityLisp
