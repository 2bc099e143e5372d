import EntityLisp.Table
import EntityLisp.Tag

/-!
# Scopes

A scope binds names to values and records for each type the traits declared for it. A scope has
no link to an outer one: entering a `let` or an application copies the scope, so nothing done
inside can be seen outside. Scopes are generic in the values they bind.

`mergedWith` folds the scope of a caller in: a name bound in both keeps its own value, and the
traits of both are united.
-/

namespace EntityLisp

/-- **A scope:** bindings and declared traits, each in order of entry. -/
structure Scope (α : Type) where
  bindings : List (String × α)
  traits : List (TypeTag × TraitSet)

namespace Scope

variable {α : Type}

/-- The scope without bindings and traits. -/
def empty : Scope α := ⟨[], []⟩

/-! ### Bindings -/

/-- The value bound to a name. -/
def lookup? (scope : Scope α) (name : String) : Option α := Table.get? name scope.bindings

/-- Whether a name is bound. -/
def binds (scope : Scope α) (name : String) : Bool := (scope.lookup? name).isSome

/-- The scope with `name` bound to `value`. -/
def define (scope : Scope α) (name : String) (value : α) : Scope α :=
  { scope with bindings := Table.put name value scope.bindings }

/-- The scope without a binding for `name`. -/
def remove (scope : Scope α) (name : String) : Scope α :=
  { scope with bindings := Table.remove name scope.bindings }

/-! ### Traits -/

/-- The traits declared for a type. -/
def traitsFor (scope : Scope α) (type : TypeTag) : TraitSet :=
  (Table.get? type scope.traits).getD .empty

/-- Whether a trait is declared for a type. -/
def hasTrait (scope : Scope α) (type : TypeTag) (trait : TraitTag) : Bool :=
  (scope.traitsFor type).has trait

/-- The scope with a trait declared for a type; a trait that is there already changes nothing. -/
def implement (scope : Scope α) (type : TypeTag) (trait : TraitTag) : Scope α :=
  if scope.hasTrait type trait then scope
  else { scope with traits := Table.put type ((scope.traitsFor type).insert trait) scope.traits }

/-! ### Merging -/

/-- The registry of both, with the traits of a type united. The types of `lower` come first. -/
def uniteTraits (upper lower : Table TypeTag TraitSet) : Table TypeTag TraitSet :=
  upper.foldl
    (fun table (type, set) =>
      Table.put type (((Table.get? type table).getD .empty).union set) table)
    lower

/-- **The scope with the bindings and traits of a caller folded in.** On a name bound in both,
the binding of this scope wins. -/
def mergedWith (scope caller : Scope α) : Scope α where
  bindings := Table.overlay scope.bindings caller.bindings
  traits := uniteTraits scope.traits caller.traits

/-! ### What the operations do to a look-up -/

@[simp] theorem lookup?_define (scope : Scope α) (name other : String) (value : α) :
    (scope.define name value).lookup? other =
      if other = name then some value else scope.lookup? other :=
  Table.get?_put name other value scope.bindings

@[simp] theorem lookup?_remove (scope : Scope α) (name other : String) :
    (scope.remove name).lookup? other = if other = name then none else scope.lookup? other := by
  split
  · next h => rw [h]; exact Table.get?_remove_self name scope.bindings
  · next h => exact Table.get?_remove_of_ne h scope.bindings

@[simp] theorem bindings_implement (scope : Scope α) (type : TypeTag) (trait : TraitTag) :
    (scope.implement type trait).bindings = scope.bindings := by
  unfold implement
  split <;> rfl

theorem hasTrait_implement_self (scope : Scope α) (type : TypeTag) (trait : TraitTag) :
    (scope.implement type trait).hasTrait type trait = true := by
  unfold implement
  split
  · assumption
  · simp [hasTrait, traitsFor, Table.get?_put_self]

end Scope

end EntityLisp
