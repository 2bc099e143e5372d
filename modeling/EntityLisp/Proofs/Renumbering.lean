import EntityLisp.Proofs.UnseenTraits

/-!
# Renumbering closures

Where one run has made more closures than another before the two go on alike, the closures made
from then on have other numbers, and nothing else is different. `Node.renumber` gives all closures
in a node their numbers in the other run, also those in captured scopes.

* `Node.Alike.eq_renumber`: nodes that are alike where neither names nor traits may differ are the
  same up to this renumbering.
-/

namespace EntityLisp

open Node

mutual

/-- **A node with other numbers** for the closures in it. -/
def Node.renumber (f : Nat → Nat) : Node → Node
  | .form items => .form (renumberItems f items)
  | .entity e => .entity (renumberEntity f e)
  | .entities es joined => .entities (renumberEntities f es) joined
  | .closure ⟨params, returns, body, ⟨bindings, traits⟩, fixed, origin⟩ =>
    .closure ⟨params, returns, body.renumber f, ⟨renumberBindings f bindings, traits⟩, fixed,
      f origin⟩
  | node => node

/-- The items of a form, with other numbers. -/
def renumberItems (f : Nat → Nat) : List Node → List Node
  | [] => []
  | item :: rest => item.renumber f :: renumberItems f rest

/-- An entity, with other numbers. -/
def renumberEntity (f : Nat → Nat) : Entity Node → Entity Node
  | ⟨kind, payload, attrs⟩ => ⟨kind, payload.renumber f, renumberBindings f attrs⟩

/-- The entities of a list, with other numbers. -/
def renumberEntities (f : Nat → Nat) : List (Entity Node) → List (Entity Node)
  | [] => []
  | first :: rest => renumberEntity f first :: renumberEntities f rest

/-- Names with their values, with other numbers. -/
def renumberBindings (f : Nat → Nat) : List (String × Node) → List (String × Node)
  | [] => []
  | (name, value) :: rest => (name, value.renumber f) :: renumberBindings f rest

end

theorem kind_renumberEntity (f : Nat → Nat) (e : Entity Node) :
    (renumberEntity f e).kind = e.kind := by
  obtain ⟨kind, payload, attrs⟩ := e
  rw [renumberEntity]

section Items

variable {f : Nat → Nat}

theorem eq_renumberItems {items items' : List Node}
    (h : List.Forall₂ (fun item item' => item' = item.renumber f) items items') :
    items' = renumberItems f items := by
  induction h with
  | nil => rfl
  | cons hitem _ ih => rw [renumberItems, hitem, ih]

theorem eq_renumberEntities {es es' : List (Entity Node)}
    (h : List.Forall₂ (fun e e' => e' = renumberEntity f e) es es') :
    es' = renumberEntities f es := by
  induction h with
  | nil => rfl
  | cons he _ ih => rw [renumberEntities, he, ih]

theorem eq_renumberBindings {table table' : Table String Node}
    (h : Table.Pointwise (fun value value' => value' = value.renumber f) table table') :
    table' = renumberBindings f table := by
  induction h with
  | nil => rfl
  | @cons entry entry' rest rest' hentry _ ih =>
    obtain ⟨name, value⟩ := entry
    obtain ⟨name', value'⟩ := entry'
    obtain ⟨rfl, rfl⟩ := hentry
    rw [renumberBindings, ih]

end Items

/-- A correspondence of two runs in which only the numbers of closures may differ. -/
structure Correspondence.Renumbers (r : Correspondence) (f : Nat → Nat) : Prop where
  origin : r.origin = f
  hidden : r.hidden = []
  traits : r.traits

section Alike

variable {r : Correspondence} {f : Nat → Nat}

/-- No name is hidden. -/
theorem Correspondence.Renumbers.visible_eq (hr : r.Renumbers f) (table : Table String Node) :
    Table.visible r.hidden table = table := by
  rw [Table.visible, List.filter_eq_self, hr.hidden]
  exact fun _ _ => rfl

/-- **What is alike up to numbers** is the same after renumbering. -/
theorem Node.Alike.eq_renumber (hr : r.Renumbers f) {node node' : Node} (h : Alike r node node') :
    node' = node.renumber f := by
  refine Alike.induction (motive := fun node node' => node' = node.renumber f)
    ?plain (fun _ _ => rfl) ?form ?entity ?entities ?closure h
  case plain =>
    intro node hplain
    cases node <;> first | rfl | cases hplain
  case form =>
    intro items items' _ ih
    rw [Node.renumber, eq_renumberItems ih]
  case entity =>
    rintro ⟨kind, payload, attrs⟩ ⟨kind', payload', attrs'⟩ h ihpayload ihattrs
    obtain rfl : kind = kind' := h.kind
    rw [Node.renumber, renumberEntity, ← eq_renumberBindings ihattrs, ← ihpayload]
  case entities =>
    intro es es' joined _ ih
    have heach : es' = renumberEntities f es :=
      eq_renumberEntities (List.Forall₂.imp (fun _ _ he => Node.entity.inj he) ih)
    rw [Node.renumber, heach]
  case closure =>
    rintro ⟨params, returns, body, ⟨bindings, traits⟩, fixed, number⟩
      ⟨params', returns', body', ⟨bindings', traits'⟩, fixed', number'⟩ h ihbody ihbindings
    rw [hr.visible_eq, hr.visible_eq] at ihbindings
    obtain ⟨rfl, rfl, rfl, -, rfl, hscope⟩ := h
    obtain rfl : traits = traits' := hscope.traits hr.traits
    rw [Node.renumber, ← eq_renumberBindings ihbindings, ← ihbody, hr.origin]

end Alike

end EntityLisp
