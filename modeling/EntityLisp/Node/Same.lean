import EntityLisp.Node
import EntityLisp.Number

/-!
# Equality of nodes

Two nodes are the same when they have the same value. Numbers and Booleans compare by exact
value, so `true`, `1` and `1.0` are the same, and a NaN is only the same as one of its own mark;
forms compare item by item. Entities have to agree in type, in the class of their payloads and in
the payloads, and hold the same attributes in any order. A list of entities is never the same as
a form.

A payload `isNaN` if it is a NaN or an entity with such a payload. Where payloads are compared on
their own, such a one is not even equal to itself.
-/

namespace EntityLisp

namespace Node

/-- The number that a node counts as: the truth values count as one and zero. -/
def count? : Node → Option Number
  | .bool b => some (.int (if b then 1 else 0))
  | .int n => some (.int n)
  | .float x => some (.float x)
  | _ => none

/-- The node that holds a number. -/
def ofNumber : Number → Node
  | .int n => .int n
  | .float x => .float x

/-- Whether two payloads are of one class. -/
def sameClass : Node → Node → Bool
  | .nil, .nil | .bool _, .bool _ | .int _, .int _ | .float _, .float _ | .str _, .str _
  | .symbol _, .symbol _ | .keyword _, .keyword _ | .form _, .form _ | .entity _, .entity _
  | .closure _, .closure _ => true
  | .entities _ a, .entities _ b => a == b
  | _, _ => false

/-- Equality of a number with a node. -/
def sameCount (a : Number) (other : Node) : Bool :=
  match other.count? with
  | some b => a.sameValue b
  | none => false

mutual

/-- **Equality of nodes by value.** -/
def same : Node → Node → Bool
  | .nil, .nil => true
  | .bool a, other => sameCount (.int (if a then 1 else 0)) other
  | .int a, other => sameCount (.int a) other
  | .float a, other => sameCount (.float a) other
  | .str a, .str b => a == b
  | .symbol a, .symbol b => a == b
  | .keyword a, .keyword b => a == b
  | .form xs, .form ys => sameItems xs ys
  | .entity a, .entity b => sameEntity a b
  | .entities xs _, .entities ys _ => sameEntities xs ys
  | .closure a, .closure b => a.origin == b.origin && a.fixed == b.fixed
  | _, _ => false

/-- Equality of forms, item by item. -/
def sameItems : List Node → List Node → Bool
  | [], [] => true
  | x :: xs, y :: ys => x.same y && sameItems xs ys
  | _, _ => false

/-- Equality of entities. -/
def sameEntity : Entity Node → Entity Node → Bool
  | ⟨kind, payload, attrs⟩, b =>
    kind == b.kind && payload.sameClass b.payload && payload.same b.payload &&
      attrs.length == b.attrs.length && sameAttrs attrs b.attrs

/-- Equality of lists of entities, one by one. -/
def sameEntities : List (Entity Node) → List (Entity Node) → Bool
  | [], [] => true
  | x :: xs, y :: ys => sameEntity x y && sameEntities xs ys
  | _, _ => false

/-- Whether each attribute is among `others` with the same value. -/
def sameAttrs : List (String × Node) → List (String × Node) → Bool
  | [], _ => true
  | (name, value) :: rest, others =>
    (match Table.get? name others with
     | some other => value.same other
     | none => false) && sameAttrs rest others

end

/-- **Whether a payload is a NaN,** or an entity with such a payload. -/
def isNaN : Node → Bool
  | .float (.nan _) => true
  | .entity ⟨_, payload, _⟩ => payload.isNaN
  | _ => false

end Node

end EntityLisp
