import EntityLisp.Failure
import EntityLisp.Number

/-!
# Building entities

An entity is built from the name of its type and a payload of the shape that the type asks for.
Where a value of a certain type is expected, a bare number, text or truth value is wrapped as an
entity of that type if its shape allows; an integer is also taken for a floating-point number,
provided it is not too large.
-/

namespace EntityLisp

/-- **The entity of a named type,** or why there is none. -/
def makeEntity (typeName : String) (payload : Node) (attrs : List (String × Node)) :
    Except Failure (Entity Node) :=
  match TypeTag.ofName? typeName with
  | none => .error (.unknownType typeName)
  | some kind =>
    match kind.shape? with
    | none => .error (.notConstructible kind)
    | some shape =>
      if payload.shape? = some shape then .ok ⟨kind, payload, attrs⟩
      else .error (.invalidPayload kind shape payload.sort)

/-- Whether a payload has the shape that a type asks for. -/
def TypeTag.accepts (kind : TypeTag) (payload : Node) : Bool :=
  match kind.shape? with
  | none => false
  | some shape => payload.shape? == some shape

/-- An entity without attributes. -/
def Node.plain (kind : TypeTag) (payload : Node) : Node := .entity ⟨kind, payload, []⟩

/-- The Boolean entity of a truth value. -/
def Node.truth (value : Bool) : Node := .plain .boolean (.bool value)

/-- **A bare value as an entity of the type** where its shape allows; any other value stays. -/
def coerce (kind : TypeTag) (value : Node) : Except ArithmeticError Node :=
  match kind, value with
  | .boolean, .bool b => .ok (.plain .boolean (.bool b))
  | .integer, .int n => .ok (.plain .integer (.int n))
  | .float, .int n =>
    match Binary64.ofInt? n with
    | some x => .ok (.plain .float (.float x))
    | none => .error .integerTooLarge
  | .float, .float x => .ok (.plain .float (.float x))
  | .string, .str s => .ok (.plain .string (.str s))
  | _, value => .ok value

theorem kind_of_makeEntity {typeName : String} {payload : Node} {attrs : List (String × Node)}
    {e : Entity Node} (h : makeEntity typeName payload attrs = .ok e) :
    e.kind.name = typeName ∧ e.payload = payload ∧ e.attrs = attrs := by
  unfold makeEntity at h
  split at h
  · cases h
  · next kind hkind =>
    split at h
    · cases h
    · split at h
      · cases h
        exact ⟨TypeTag.name_of_ofName? hkind, rfl, rfl⟩
      · cases h

end EntityLisp
