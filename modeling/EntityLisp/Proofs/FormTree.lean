import EntityLisp.Form.Normal
import EntityLisp.Node.Source
import Mathlib.Data.List.Basic

/-!
# Trees of forms

A tree is built from leaves, which are the atoms and the values, by forms. `Node.formInduction` is
the induction along the forms; what is inside a value is not looked at.

`Node.Leaves` says something of every leaf, and `Node.IsNormal` that every form is in normal form.

* `normalForm_normalForm`: one form in normal form is left alone.
* `leaves_normalForm_iff`: what holds of all leaves still holds of them in normal form.
* `isNormal_form_normalForm`: a form whose items are normal is normal once it is brought to normal
  form itself; hence `isNormal_normal`.
-/

namespace EntityLisp

namespace Node

/-! ### Induction along forms -/

theorem sizeOf_lt_of_mem {item : Node} {items : List Node} (h : item ∈ items) :
    sizeOf item < sizeOf (Node.form items) := by
  have hlt := List.sizeOf_lt_of_mem h
  rw [Node.form.sizeOf_spec]
  omega

/-- **Induction along forms.** -/
theorem formInduction {motive : Node → Prop}
    (leaf : ∀ node, node.isForm = false → motive node)
    (form : ∀ items, (∀ item ∈ items, motive item) → motive (.form items)) (node : Node) :
    motive node := by
  cases hform : node.isForm with
  | false => exact leaf node hform
  | true =>
    cases node with
    | form items => exact form items fun item hitem => formInduction leaf form item
    | _ => cases hform
termination_by sizeOf node
decreasing_by exact sizeOf_lt_of_mem hitem

/-! ### Leaves and height -/

/-- **Every leaf of a tree** has a property. -/
inductive Leaves (P : Node → Prop) : Node → Prop where
  | leaf {node : Node} (isLeaf : node.isForm = false) (holds : P node) : Leaves P node
  | form {items : List Node} (all : ∀ item ∈ items, Leaves P item) : Leaves P (.form items)

theorem leaves_form_iff {P : Node → Prop} {items : List Node} :
    Leaves P (.form items) ↔ ∀ item ∈ items, Leaves P item := by
  constructor
  · rintro (⟨hleaf, -⟩ | hall)
    · cases hleaf
    · exact hall
  · exact Leaves.form

theorem leaves_iff_of_not_form {P : Node → Prop} {node : Node} (h : node.isForm = false) :
    Leaves P node ↔ P node := by
  constructor
  · rintro (⟨-, hP⟩ | hall)
    · exact hP
    · cases h
  · exact Leaves.leaf h

theorem Leaves.mono {P Q : Node → Prop} (hPQ : ∀ node, P node → Q node) {node : Node}
    (h : Leaves P node) : Leaves Q node := by
  induction h with
  | leaf hleaf hP => exact Leaves.leaf hleaf (hPQ _ hP)
  | form _ ih => exact Leaves.form ih

theorem height_of_not_form {node : Node} (h : node.isForm = false) : node.height = 0 := by
  cases node with
  | form items => cases h
  | _ => rfl

theorem height_form (items : List Node) : (Node.form items).height = itemsHeight items + 1 := by
  rw [height]

theorem itemsHeight_le_iff {items : List Node} {n : Nat} :
    itemsHeight items ≤ n ↔ ∀ item ∈ items, item.height ≤ n := by
  induction items with
  | nil => simp [itemsHeight]
  | cons item rest ih =>
    rw [itemsHeight, Nat.max_le, ih]
    simp

end Node

/-! ### One form in normal form -/

theorem wrapNumber_wrapNumber (node : Node) : wrapNumber (wrapNumber node) = wrapNumber node := by
  cases node <;> rfl

theorem foldAttributes_of_isForm {first : Node} (h : first.isForm = true) (kind value : Node)
    (rest : List Node) :
    foldAttributes (kind :: value :: first :: rest) = kind :: value :: first :: rest := by
  rw [foldAttributes, if_pos h]

theorem foldAttributes_of_not_isForm {first : Node} (h : first.isForm = false)
    (kind value : Node) (rest : List Node) :
    foldAttributes (kind :: value :: first :: rest) =
      [kind, value, .form (.symbol mapHead :: first :: rest)] := by
  rw [foldAttributes, if_neg (by simp [h])]

theorem foldAttributes_foldAttributes (arguments : List Node) :
    foldAttributes (foldAttributes arguments) = foldAttributes arguments := by
  -- the rule looks at the third argument, which is a form once it has been applied
  rcases arguments with _ | ⟨kind, _ | ⟨value, _ | ⟨first, rest⟩⟩⟩
  · rfl
  · rfl
  · rfl
  · cases hform : first.isForm with
    | true => rw [foldAttributes_of_isForm hform, foldAttributes_of_isForm hform]
    | false =>
      rw [foldAttributes_of_not_isForm hform]
      exact foldAttributes_of_isForm rfl kind value []

/-- The rules for one form, by what its head is. -/
theorem normalForm_cases (items : List Node) :
    normalForm items = items ∨
      (∃ rest, items = .symbol CoreForm.entity.name :: rest ∧
        normalForm items = .symbol CoreForm.entity.name :: foldAttributes rest) ∨
      ∃ form rest, form ≠ CoreForm.entity ∧ items = .symbol form.name :: rest ∧
        normalForm items = .symbol form.name :: rest.map wrapNumber := by
  unfold normalForm
  split
  · next head rest =>
    cases hform : CoreForm.ofName? head with
    | none => exact Or.inl rfl
    | some form =>
      obtain rfl := CoreForm.name_of_ofName? hform
      by_cases hentity : form = .entity
      · subst hentity
        exact Or.inr (Or.inl ⟨rest, rfl, rfl⟩)
      · refine Or.inr (Or.inr ⟨form, rest, hentity, rfl, ?_⟩)
        cases form <;> first | rfl | exact absurd rfl hentity
  · exact Or.inl rfl

theorem normalForm_entity (rest : List Node) :
    normalForm (.symbol CoreForm.entity.name :: rest) =
      .symbol CoreForm.entity.name :: foldAttributes rest := rfl

theorem normalForm_core {form : CoreForm} (h : form ≠ .entity) (rest : List Node) :
    normalForm (.symbol form.name :: rest) = .symbol form.name :: rest.map wrapNumber := by
  simp only [normalForm]
  rw [CoreForm.ofName?_name]
  cases form <;> first | rfl | exact absurd rfl h

theorem normalForm_of_ofName?_eq_none {head : String} (h : CoreForm.ofName? head = none)
    (rest : List Node) : normalForm (.symbol head :: rest) = .symbol head :: rest := by
  simp only [normalForm]
  rw [h]

/-- **A form in normal form is left alone.** -/
theorem normalForm_normalForm (items : List Node) :
    normalForm (normalForm items) = normalForm items := by
  rcases normalForm_cases items with heq | ⟨rest, -, heq⟩ | ⟨form, rest, hform, -, heq⟩
  · rw [heq, heq]
  · rw [heq, normalForm_entity, foldAttributes_foldAttributes]
  · rw [heq, normalForm_core hform, List.map_map]
    congr 2
    funext node
    exact wrapNumber_wrapNumber node

/-! ### The leaves of a normal form -/

/-- The names that the rules put in. -/
def normalNames : List String :=
  [CoreForm.entity.name, TypeTag.integer.name, TypeTag.float.name, mapHead]

section Leaves

open Node

variable {P : Node → Prop} (hnames : ∀ name ∈ normalNames, P (.symbol name))

include hnames

theorem leaves_symbol {name : String} (h : name ∈ normalNames) : Leaves P (.symbol name) :=
  Leaves.leaf rfl (hnames name h)

theorem leaves_wrapNumber_iff (node : Node) : Leaves P (wrapNumber node) ↔ Leaves P node := by
  have hentity := leaves_symbol hnames (show CoreForm.entity.name ∈ normalNames by decide)
  cases node with
  | int n =>
    have htag := leaves_symbol hnames (show TypeTag.integer.name ∈ normalNames by decide)
    simp [wrapNumber, leaves_form_iff, hentity, htag]
  | float x =>
    have htag := leaves_symbol hnames (show TypeTag.float.name ∈ normalNames by decide)
    simp [wrapNumber, leaves_form_iff, hentity, htag]
  | _ => rfl

theorem leaves_foldAttributes_iff (arguments : List Node) :
    (∀ item ∈ foldAttributes arguments, Leaves P item) ↔ ∀ item ∈ arguments, Leaves P item := by
  rcases arguments with _ | ⟨kind, _ | ⟨value, _ | ⟨first, rest⟩⟩⟩
  · rfl
  · rfl
  · rfl
  · cases hform : first.isForm with
    | true => rw [foldAttributes_of_isForm hform]
    | false =>
      have hmap := leaves_symbol hnames (show mapHead ∈ normalNames by decide)
      rw [foldAttributes_of_not_isForm hform]
      simp [leaves_form_iff, hmap]

/-- **The rules keep what holds of all leaves,** if it holds of the names that they put in. -/
theorem leaves_normalForm_iff (items : List Node) :
    (∀ item ∈ normalForm items, Leaves P item) ↔ ∀ item ∈ items, Leaves P item := by
  rcases normalForm_cases items with heq | ⟨rest, rfl, heq⟩ | ⟨form, rest, -, rfl, heq⟩
  · rw [heq]
  · rw [heq, List.forall_mem_cons, List.forall_mem_cons, leaves_foldAttributes_iff hnames]
  · rw [heq, List.forall_mem_cons, List.forall_mem_cons, List.forall_mem_map]
    simp only [leaves_wrapNumber_iff hnames]

end Leaves

/-! ### Trees in normal form -/

namespace Node

/-- **Every form of a tree is in normal form.** -/
inductive IsNormal : Node → Prop where
  | leaf {node : Node} (isLeaf : node.isForm = false) : IsNormal node
  | form {items : List Node} (fixed : normalForm items = items)
      (all : ∀ item ∈ items, IsNormal item) : IsNormal (.form items)

theorem isNormal_form_iff {items : List Node} :
    IsNormal (.form items) ↔ normalForm items = items ∧ ∀ item ∈ items, IsNormal item := by
  constructor
  · rintro (hleaf | ⟨hfixed, hall⟩)
    · cases hleaf
    · exact ⟨hfixed, hall⟩
  · rintro ⟨hfixed, hall⟩
    exact IsNormal.form hfixed hall

theorem isNormal_wrapNumber {node : Node} (h : node.IsNormal) : (wrapNumber node).IsNormal := by
  -- an `entity` form around a number has two arguments, too few for any rule
  have hentity : ∀ (tag : TypeTag) (number : Node), number.isForm = false →
      (Node.form [.symbol CoreForm.entity.name, .symbol tag.name, number]).IsNormal := by
    intro tag number hnumber
    refine IsNormal.form rfl fun item hitem => IsNormal.leaf ?_
    simp only [List.mem_cons, List.not_mem_nil, or_false] at hitem
    rcases hitem with rfl | rfl | rfl
    · rfl
    · rfl
    · exact hnumber
  cases node with
  | int n => exact hentity .integer (.int n) rfl
  | float x => exact hentity .float (.float x) rfl
  | _ => exact h

theorem isNormal_of_mem_foldAttributes {arguments : List Node}
    (h : ∀ item ∈ arguments, item.IsNormal) : ∀ item ∈ foldAttributes arguments, item.IsNormal := by
  unfold foldAttributes
  split
  · next kind value first rest =>
    split
    · exact h
    · -- The attributes become a `map` form, which no rule changes.
      intro item hitem
      simp only [List.mem_cons, List.not_mem_nil, or_false] at hitem
      rcases hitem with rfl | rfl | rfl
      · exact h item (by simp)
      · exact h item (by simp)
      · refine IsNormal.form rfl fun attr hattr => ?_
        rcases List.mem_cons.mp hattr with rfl | hattr
        · exact IsNormal.leaf rfl
        · exact h attr (by simp only [List.mem_cons] at hattr ⊢; tauto)
  · exact h

theorem isNormal_of_mem_normalForm {items : List Node} (h : ∀ item ∈ items, item.IsNormal) :
    ∀ item ∈ normalForm items, item.IsNormal := by
  rcases normalForm_cases items with heq | ⟨rest, rfl, heq⟩ | ⟨form, rest, -, rfl, heq⟩
  · rwa [heq]
  · rw [heq]
    intro item hitem
    rcases List.mem_cons.mp hitem with rfl | hitem
    · exact IsNormal.leaf rfl
    · exact isNormal_of_mem_foldAttributes (fun arg harg => h arg (List.mem_cons_of_mem _ harg))
        item hitem
  · rw [heq]
    intro item hitem
    rcases List.mem_cons.mp hitem with rfl | hitem
    · exact IsNormal.leaf rfl
    · obtain ⟨arg, harg, rfl⟩ := List.mem_map.mp hitem
      exact isNormal_wrapNumber (h arg (List.mem_cons_of_mem _ harg))

/-- A form whose items are normal is normal once it is brought to normal form itself. -/
theorem isNormal_form_normalForm {items : List Node} (h : ∀ item ∈ items, item.IsNormal) :
    (Node.form (normalForm items)).IsNormal :=
  IsNormal.form (normalForm_normalForm items) (isNormal_of_mem_normalForm h)

theorem normal_of_not_form {node : Node} (h : node.isForm = false) : node.normal = node := by
  cases node with
  | form items => cases h
  | _ => rfl

theorem normal_form (items : List Node) :
    (Node.form items).normal = .form (normalForm (items.map Node.normal)) := by
  rw [Node.normal, normalItems_eq_map]

/-- **Bringing a tree to normal form** leaves no form that a rule would change. -/
theorem isNormal_normal (node : Node) : node.normal.IsNormal := by
  induction node using formInduction with
  | leaf node h =>
    rw [normal_of_not_form h]
    exact IsNormal.leaf h
  | form items ih =>
    rw [normal_form]
    refine isNormal_form_normalForm fun item hitem => ?_
    obtain ⟨arg, harg, rfl⟩ := List.mem_map.mp hitem
    exact ih arg harg

theorem IsNormal.normal_eq {node : Node} (h : node.IsNormal) : node.normal = node := by
  induction h with
  | leaf h => exact normal_of_not_form h
  | form hfixed _ ih => rw [normal_form, List.map_congr_left ih, List.map_id', hfixed]

end Node

end EntityLisp
