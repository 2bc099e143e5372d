import EntityLisp.Run.Evaluate

/-!
# Where `impl` forms are sheltered

An `impl` form declares a trait in the scope in which it is evaluated. Inside a `let` that is the
scope of the `let`, inside a `lambda` that of a call, and the arguments of an application have a
scope of their own as well; an attribute value that is kept as written is not evaluated at all.
`Node.exposed` gives the nodes of a form that are in none of these places, and a node is
`Node.Sheltered` if no chain of them leads to an `impl` form.

The third item of an `entity` form, if it is headed by the word `map`, is the list of attributes
and no form of its own.
-/

namespace EntityLisp

/-- **The keys of a flat list of keys and values, and the adjectives.** The other values are kept
as written. -/
def exposedPairs : List Node → List Node
  | key :: value :: rest =>
    if key.mapKey? = some adjectiveKey then key :: value :: exposedPairs rest
    else key :: exposedPairs rest
  | rest => rest

/-- The arguments of an `entity` form without the attribute values that are kept as written. -/
def exposedArguments : List Node → List Node
  | [kind, value, attrs] =>
    match attributePairs? (some attrs) with
    | some pairs => kind :: value :: exposedPairs pairs
    | none => [kind, value, attrs]
  | arguments => arguments

/-- **The exposed nodes of a form,** by what its head means. -/
def Node.exposed : Node → List Node
  | .form (head :: arguments) =>
    match head.sugar? with
    | some (.type _) => exposedArguments (foldAttributes (head :: arguments))
    | some (.role _) => arguments
    | none =>
      match head with
      | .symbol name =>
        match CoreForm.ofName? name with
        | some .entity => exposedArguments arguments
        | some .letIn | some .lambda => []
        | some _ => arguments
        | none => []
      | _ => [head]
  | _ => []

/-- Whether a node is an `impl` form. -/
def Node.isImplForm : Node → Bool
  | .form (.symbol head :: _) => head == CoreForm.impl.name
  | _ => false

/-- **A sheltered node:** no `impl` form in it is exposed. -/
inductive Node.Sheltered : Node → Prop where
  | intro {node : Node} (not_impl : node.isImplForm = false)
    (inside : ∀ child ∈ node.exposed, Sheltered child) : Sheltered node

namespace Node

theorem Sheltered.of_mem_exposed {node child : Node} (h : node.Sheltered)
    (hchild : child ∈ node.exposed) : child.Sheltered := by
  obtain ⟨-, hinside⟩ := h
  exact hinside child hchild

/-- What is no form shelters all there is. -/
theorem sheltered_of_not_form {node : Node} (h : node.isForm = false) : node.Sheltered := by
  cases node with
  | form items => cases h
  | _ => exact .intro rfl fun _ hchild => absurd hchild List.not_mem_nil

theorem not_sheltered_impl (arguments : List Node) :
    ¬(Node.form (.symbol CoreForm.impl.name :: arguments)).Sheltered := by
  rintro ⟨himpl, -⟩
  cases himpl

/-! ### The exposed nodes by the head of a form -/

theorem exposed_type {head : Node} {tag : TypeTag} (h : head.sugar? = some (.type tag))
    (arguments : List Node) :
    (Node.form (head :: arguments)).exposed =
      exposedArguments (foldAttributes (head :: arguments)) := by
  simp only [exposed, h]

theorem exposed_role {head : Node} {role : Role} (h : head.sugar? = some (.role role))
    (arguments : List Node) : (Node.form (head :: arguments)).exposed = arguments := by
  simp only [exposed, h]

/-- The name of a core form is no sugar. -/
theorem sugar?_core (form : CoreForm) : (Node.symbol form.name).sugar? = none := by
  cases form with
  | numeric op => cases op <;> decide
  | _ => decide

theorem exposed_entity (arguments : List Node) :
    (Node.form (.symbol CoreForm.entity.name :: arguments)).exposed =
      exposedArguments arguments := by
  simp only [exposed, sugar?_core, CoreForm.ofName?_name]

/-- Every other core form that evaluates in the current scope exposes its arguments. -/
theorem exposed_core {form : CoreForm} (hentity : form ≠ .entity) (hlet : form ≠ .letIn)
    (hlambda : form ≠ .lambda) (arguments : List Node) :
    (Node.form (.symbol form.name :: arguments)).exposed = arguments := by
  simp only [exposed, sugar?_core, CoreForm.ofName?_name]

theorem mem_exposed_form (items arguments : List Node) :
    Node.form items ∈ (Node.form (.form items :: arguments)).exposed :=
  List.mem_singleton_self _

end Node

/-! ### Attributes -/

theorem mem_exposedPairs_cons {key value child : Node} {rest : List Node}
    (h : child ∈ exposedPairs rest) : child ∈ exposedPairs (key :: value :: rest) := by
  unfold exposedPairs
  split
  · exact List.mem_cons_of_mem _ (List.mem_cons_of_mem _ h)
  · exact List.mem_cons_of_mem _ h

theorem mem_exposedPairs_adjective {key : Node} (h : key.mapKey? = some adjectiveKey)
    (value : Node) (rest : List Node) : value ∈ exposedPairs (key :: value :: rest) := by
  unfold exposedPairs
  rw [if_pos h]
  simp

/-- All that is exposed of a list of keys and values is in it. -/
theorem mem_of_mem_exposedPairs {child : Node} {pairs : List Node}
    (h : child ∈ exposedPairs pairs) : child ∈ pairs := by
  fun_induction exposedPairs pairs with
  | case1 key value rest hkey ih =>
    simp only [List.mem_cons] at h ⊢
    exact h.imp_right (Or.imp_right ih)
  | case2 key value rest hkey ih =>
    simp only [List.mem_cons] at h ⊢
    exact h.imp_right fun hrest => Or.inr (ih hrest)
  | case3 rest hshort => exact h

/-- Pairs expose what their parts do, if they are parted between two pairs. -/
theorem exposedPairs_append {before : List Node} (heven : before.length % 2 = 0)
    (rest : List Node) :
    exposedPairs (before ++ rest) = exposedPairs before ++ exposedPairs rest := by
  fun_induction exposedPairs before with
  | case1 key value before hkey ih =>
    rw [List.cons_append, List.cons_append, exposedPairs, if_pos hkey,
      ih (by simpa [Nat.add_assoc] using heven), List.cons_append, List.cons_append]
  | case2 key value before hkey ih =>
    rw [List.cons_append, List.cons_append, exposedPairs, if_neg hkey,
      ih (by simpa [Nat.add_assoc] using heven), List.cons_append]
  | case3 before hshort =>
    rcases before with _ | ⟨key, _ | ⟨value, before⟩⟩
    · rfl
    · cases heven
    · exact absurd rfl (hshort key value before)

theorem value_mem_exposedArguments (kind value attrs : Node) :
    value ∈ exposedArguments [kind, value, attrs] := by
  simp only [exposedArguments]
  split <;> simp

theorem mem_exposedArguments_of_mem {kind value attrs child : Node} {pairs : List Node}
    (hpairs : attributePairs? (some attrs) = some pairs) (h : child ∈ exposedPairs pairs) :
    child ∈ exposedArguments [kind, value, attrs] := by
  simp [exposedArguments, hpairs, h]

end EntityLisp
