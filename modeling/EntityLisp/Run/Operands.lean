import EntityLisp.Payload
import EntityLisp.Run

/-!
# Lists, arithmetic and comparison

The forms whose arguments are all evaluated, from left to right. `list` and the folding
operations stop at the first argument that does not evaluate to an acceptable entity; `eq`
evaluates both of its arguments before it looks at either.

The folding operations combine payloads (`EntityLisp.Payload`), and their result is of type
`Float` if any operand is. For `eq` two payloads are equal if they are the same, and no NaN.
-/

namespace EntityLisp

/-- Evaluates arguments from left to right and keeps what `accept` makes of each, up to the first
that it refuses. Positions are counted from `position`. -/
def evalOperands {β : Type} (eval : Node → Run Node) (accept : Nat → Node → Except Failure β) :
    (position : Nat) → List Node → Run (Except Failure (List β))
  | _, [] => pure (.ok [])
  | position, argument :: rest => do
    let value ← eval argument
    match accept position value with
    | .error failure => pure (.error failure)
    | .ok accepted => do
      let others ← evalOperands eval accept (position + 1) rest
      pure (others.map (accepted :: ·))

/-! ### Lists -/

/-- The entity that a list takes up, if its type may be listed. -/
def listElement (position : Nat) : Node → Except Failure (Entity Node)
  | .entity e =>
    if e.kind.isListable then .ok e else .error (.notListable position (Node.entity e).describe)
  | value => .error (.notListable position value.describe)

/-- **The `list` form.** -/
def runList (eval : Node → Run Node) (arguments : List Node) : Run Node := do
  match ← evalOperands eval listElement 1 arguments with
  | .ok entities => pure (.entities entities false)
  | .error failure => pure failure.toNode

/-! ### Folds over payloads -/

/-- The entity that arithmetic takes up, if it is of a numeric type. -/
def numericOperand (op : NumericOp) (_position : Nat) : Node → Except Failure (Entity Node)
  | .entity e =>
    if e.kind.isNumeric then .ok e else .error (.notNumeric op.name (Node.entity e).describe)
  | value => .error (.notNumeric op.name value.describe)

/-- The entity of the folded payload: of type `Float` if any operand is, and else `Integer`. -/
def numericResult (operands : List (Entity Node)) (total : Node) : Except ArithmeticError Node :=
  if operands.any (·.kind == .float) then total.toFloat.map fun x => Node.plain .float (.float x)
  else .ok (Node.plain .integer total)

/-- The left fold over the payloads of operands. -/
def foldPayloads (op : NumericOp) (first : Entity Node) (rest : List (Entity Node)) :
    Except ArithmeticError Node :=
  (rest.foldlM (fun total operand => op.apply total operand.payload) first.payload).bind
    (numericResult (first :: rest))

/-- **The folding forms** `add`, `sub` and `mul`. -/
def runNumeric (op : NumericOp) (eval : Node → Run Node) (arguments : List Node) : Run Node := do
  match ← evalOperands eval (numericOperand op) 1 arguments with
  | .error failure => pure failure.toNode
  | .ok [] => pure (Failure.noOperands op.name).toNode
  | .ok (first :: rest) => Run.ofResult ((foldPayloads op first rest).mapError .arithmetic)

/-! ### Comparison -/

/-- The entity that can be compared; an error entity cannot. -/
def comparable : Node → Except Failure (Entity Node)
  | .entity e => if e.isError then .error (.eqOperand (Node.entity e).describe) else .ok e
  | value => .error (.eqOperand value.describe)

/-- Whether two payloads are equal on their own. -/
def equalPayloads (x y : Node) : Bool := x.same y && !x.isNaN

/-- Whether two entities are equal: numbers by value, and other entities if type and payload
agree. -/
def equalEntities (a b : Entity Node) : Bool :=
  if a.kind.isNumeric && b.kind.isNumeric then equalPayloads a.payload b.payload
  else a.kind == b.kind && equalPayloads a.payload b.payload

/-- The Boolean entity that tells whether two values are equal. -/
def compareValues (left right : Node) : Except Failure Node :=
  (comparable left).bind fun a => (comparable right).map fun b => Node.truth (equalEntities a b)

/-- **The `eq` form.** -/
def runEq (eval : Node → Run Node) : List Node → Run Node
  | [left, right] => do
    let a ← eval left
    let b ← eval right
    match compareValues a b with
    | .ok value => pure value
    | .error failure => pure failure.toNode
  | arguments => pure (Failure.eqCount arguments.length).toNode

end EntityLisp
