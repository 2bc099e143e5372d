import EntityLisp.CoreForm
import EntityLisp.Node

/-!
# Normal forms

Two rules change a form once its items are complete. A bare number among the arguments of a core
form other than `entity` is wrapped as an entity of its type. An `entity` form whose attributes
are written without parentheses has them folded into a `map` form.

`normalForm` applies the rules to one form, and `Node.normal` to every form of a tree, the inner
ones first. What the rules put in is normal already.
-/

namespace EntityLisp

/-- A bare number as the form that builds its entity; any other node as it is. -/
def wrapNumber : Node → Node
  | .int n => .form [.symbol CoreForm.entity.name, .symbol TypeTag.integer.name, .int n]
  | .float x => .form [.symbol CoreForm.entity.name, .symbol TypeTag.float.name, .float x]
  | node => node

/-- The head of a form of attributes. -/
def mapHead : String := "map"

/-- Whether a node is a form. -/
def Node.isForm : Node → Bool
  | .form _ => true
  | _ => false

/-- The arguments of an `entity` form, with attributes written without parentheses folded into a
`map` form. -/
def foldAttributes : List Node → List Node
  | kind :: value :: first :: rest =>
    if first.isForm then kind :: value :: first :: rest
    else [kind, value, .form (.symbol mapHead :: first :: rest)]
  | short => short

/-- **The items of one form in normal form.** Only a form headed by a core form's name is
changed. -/
def normalForm : List Node → List Node
  | .symbol head :: rest =>
    match CoreForm.ofName? head with
    | none => .symbol head :: rest
    | some .entity => .symbol head :: foldAttributes rest
    | some _ => .symbol head :: rest.map wrapNumber
  | items => items

mutual

/-- **A tree with every form in normal form,** the inner forms first. -/
def Node.normal : Node → Node
  | .form items => .form (normalForm (normalItems items))
  | node => node

/-- The items of a form, each with all its forms in normal form. -/
def normalItems : List Node → List Node
  | [] => []
  | item :: rest => item.normal :: normalItems rest

end

theorem normalItems_eq_map (items : List Node) : normalItems items = items.map Node.normal := by
  induction items with
  | nil => rfl
  | cons item rest ih => simp [normalItems, ih]

end EntityLisp
