import EntityLisp.ArithmeticError
import EntityLisp.Node.Same
import EntityLisp.Number.Numeral

/-!
# Arithmetic on payloads

The folding operations combine the payloads of entities, whatever they are. Numbers are added,
subtracted and multiplied, where the truth values count as one and zero. The sequences, which are
texts, forms and lists of entities, are joined by `add` to a sequence of their class, and `mul`
repeats one as often as an integer says. Nothing else can be combined.

Integers are of any size. As soon as a floating-point number takes part, an operation goes on in
floating point.
-/

namespace EntityLisp

-- powers of whole numbers are those of the core library, whatever else is in scope
attribute [local instance (high)] instPowNat

/-- The name of the class of a payload. -/
def Node.className : Node → String
  | .nil => "NilType"
  | .bool _ => "bool"
  | .int _ => "int"
  | .float _ => "float"
  | .str _ => "str"
  | .entity _ => "Entity"
  | node => node.sort

/-! ### Numbers -/

namespace Number

/-- A number as a floating-point number, unless it is an integer that is too large. -/
def toFloat (x : Number) : Except ArithmeticError Binary64 :=
  match x.toFloat? with
  | some y => .ok y
  | none => .error .integerTooLarge

end Number

namespace NumericOp

/-- The operation on integers. -/
def onInts : NumericOp → Int → Int → Int
  | .add, m, n => m + n
  | .sub, m, n => m - n
  | .mul, m, n => m * n

/-- The operation on floating-point numbers. -/
def onFloats : NumericOp → Binary64 → Binary64 → Binary64
  | .add, x, y => x.add y
  | .sub, x, y => x.sub y
  | .mul, x, y => x.mul y

/-- The operation on numbers of either sort. -/
def onNumbers (op : NumericOp) : Number → Number → Except ArithmeticError Number
  | .int m, .int n => .ok (.int (op.onInts m n))
  | x, y => x.toFloat.bind fun a => y.toFloat.map fun b => .float (op.onFloats a b)

end NumericOp

/-! ### Sequences -/

namespace Node

/-- Whether a node is a sequence. -/
def isSequence : Node → Bool
  | .str _ | .form _ | .entities .. => true
  | _ => false

/-- A sequence with another of its class behind it. -/
def join : Node → Node → Except ArithmeticError Node
  | .str s, .str t => .ok (.str (s ++ t))
  | .form xs, .form ys => .ok (.form (xs ++ ys))
  | .entities xs _, .entities ys _ => .ok (.entities (xs ++ ys) true)
  | .str _, other => .error (.notJoinable "str" other.className)
  | .form _, other => .error (.notJoinable "list" other.className)
  | .entities .., other => .error (.notJoinable "tuple" other.className)
  | x, y => .error (.unsupported .add x.className y.className)

end Node

/-- Beyond this bound neither counts nor characters are numbered. -/
def indexBound : Nat := 2 ^ (63 : Nat)

/-- How many items a repeated sequence has room for. -/
def itemRoom : Nat := 10000000

/-- Items `count` times over. -/
def repeatItems {α : Type} (items : List α) (count : Nat) : Except ArithmeticError (List α) :=
  if items.isEmpty then .ok []
  else if itemRoom < items.length * count then .error .outOfRoom
  else .ok (List.replicate count items).flatten

namespace Node

/-- How often a node asks for a sequence. A negative integer asks for it not at all. -/
def repetitions : Node → Except ArithmeticError Nat
  | .int n =>
    if -(indexBound : Int) ≤ n ∧ n < indexBound then .ok n.toNat else .error .countTooLarge
  | .bool b => .ok (if b then 1 else 0)
  | other => .error (.notCount other.className)

/-- A sequence `count` times over; any other node stays. -/
def repeated (count : Nat) : Node → Except ArithmeticError Node
  | .str s =>
    if indexBound ≤ s.length * count then .error .textTooLong
    else (repeatItems s.toList count).map fun chars => .str (String.ofList chars)
  | .form items => (repeatItems items count).map .form
  | .entities values _ => (repeatItems values count).map (.entities · true)
  | other => .ok other

/-- A sequence repeated as often as the other node asks for. -/
def multiply (x y : Node) : Except ArithmeticError Node :=
  if x.isSequence then y.repetitions.bind (repeated · x)
  else if y.isSequence then x.repetitions.bind (repeated · y)
  else .error (.unsupported .mul x.className y.className)

end Node

/-! ### Any two payloads -/

/-- The operation on payloads that are not both numbers. -/
def NumericOp.onSequences : NumericOp → Node → Node → Except ArithmeticError Node
  | .add, x, y => x.join y
  | .sub, x, y => .error (.unsupported .sub x.className y.className)
  | .mul, x, y => x.multiply y

/-- **The operation on payloads.** -/
def NumericOp.apply (op : NumericOp) (x y : Node) : Except ArithmeticError Node :=
  match x.count?, y.count? with
  | some a, some b => (op.onNumbers a b).map Node.ofNumber
  | _, _ => op.onSequences x y

/-- **A payload as a floating-point number:** a number is rounded, and a text is read. -/
def Node.toFloat (node : Node) : Except ArithmeticError Binary64 :=
  match node.count?, node with
  | some number, _ => number.toFloat
  | none, .str text =>
    match Binary64.read? text with
    | some x => .ok x
    | none => .error (.notNumeral text)
  | none, other => .error (.notReal other.className)

/-! ### Small facts -/

/-- Integers are combined exactly. -/
@[simp] theorem apply_int (op : NumericOp) (m n : Int) :
    op.apply (.int m) (.int n) = .ok (.int (op.onInts m n)) := rfl

/-- A sequence that is repeated once has the items it had. -/
theorem repeatItems_one {α : Type} {items : List α} (h : items.length ≤ itemRoom) :
    repeatItems items 1 = .ok items := by
  cases items with
  | nil => rfl
  | cons item rest =>
    have hroom : ¬itemRoom < (item :: rest).length * 1 := by omega
    rw [repeatItems, if_neg (by simp), if_neg hroom]
    simp

end EntityLisp
