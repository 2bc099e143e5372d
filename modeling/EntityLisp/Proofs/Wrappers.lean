import EntityLisp.Proofs.ReadForms

/-!
# The wrappers of normal forms

Normal forms only put wrappers in: `(entity Integer n)` and `(entity Float x)` around a number, and
`(map ...)` around attributes. `Node.marked` brings a tree to normal form and marks the wrappers
that are put in, so that they can be told from those that were written.

* `node_marked`: without the marks this is the normal form.
* `bare_marked`: without the wrappers it is the tree.
* `normal_form_wraps`: **what is read is normal at every depth,** bringing a tree to normal form a
  second time changes nothing, and **only wrappers are put in.**
-/

namespace EntityLisp

open Node

/-! ### Marked trees -/

/-- **A tree whose wrappers are marked,** as far as they have been put in. -/
inductive MarkedTree where
  | leaf (node : Node)
  | form (items : List MarkedTree)
  /-- A wrapper around an integer. -/
  | integer (value : Int)
  /-- A wrapper around a floating-point number. -/
  | float (value : Binary64)
  /-- A wrapper around attributes. -/
  | attributes (items : List MarkedTree)

namespace MarkedTree

mutual

/-- **The tree with its wrappers,** marked or not. -/
def node : MarkedTree → Node
  | .leaf node => node
  | .form items => .form (nodes items)
  | .integer n => .form [.symbol "entity", .symbol "Integer", .int n]
  | .float x => .form [.symbol "entity", .symbol "Float", .float x]
  | .attributes items => .form (.symbol "map" :: nodes items)

/-- Trees with their wrappers. -/
def nodes : List MarkedTree → List Node
  | [] => []
  | item :: rest => item.node :: nodes rest

end

mutual

/-- **What is left when the marked wrappers are deleted.** What a wrapper was put around stands in
its place. -/
def bare : MarkedTree → List Node
  | .leaf node => [node]
  | .form items => [.form (bares items)]
  | .integer n => [.int n]
  | .float x => [.float x]
  | .attributes items => bares items

/-- What is left of several trees, in order. -/
def bares : List MarkedTree → List Node
  | [] => []
  | item :: rest => item.bare ++ bares rest

end

theorem nodes_eq_map (items : List MarkedTree) : nodes items = items.map node := by
  induction items with
  | nil => rfl
  | cons item rest ih => rw [nodes, ih, List.map_cons]

theorem bares_eq_flatMap (items : List MarkedTree) : bares items = items.flatMap bare := by
  induction items with
  | nil => rfl
  | cons item rest ih => rw [bares, ih, List.flatMap_cons]

/-! ### Marking -/

/-- A bare number with a marked wrapper; any other tree as it is. -/
def wrapNumber : MarkedTree → MarkedTree
  | .leaf (.int n) => .integer n
  | .leaf (.float x) => .float x
  | tree => tree

/-- The arguments of an `entity` form, with a marked wrapper around attributes that are written
without parentheses. -/
def foldAttributes : List MarkedTree → List MarkedTree
  | kind :: value :: first :: rest =>
    if first.node.isForm then kind :: value :: first :: rest
    else [kind, value, .attributes (first :: rest)]
  | short => short

/-- **The items of one form in normal form,** where the wrappers that are put in are marked. -/
def normalForm : List MarkedTree → List MarkedTree
  | .leaf (.symbol head) :: rest =>
    match CoreForm.ofName? head with
    | none => .leaf (.symbol head) :: rest
    | some .entity => .leaf (.symbol head) :: foldAttributes rest
    | some _ => .leaf (.symbol head) :: rest.map wrapNumber
  | items => items

theorem node_wrapNumber (tree : MarkedTree) :
    tree.wrapNumber.node = EntityLisp.wrapNumber tree.node := by
  cases tree with
  | leaf node => cases node <;> rfl
  | _ => rfl

theorem bare_wrapNumber (tree : MarkedTree) : tree.wrapNumber.bare = tree.bare := by
  cases tree with
  | leaf node => cases node <;> rfl
  | _ => rfl

theorem nodes_foldAttributes (arguments : List MarkedTree) :
    nodes (foldAttributes arguments) = EntityLisp.foldAttributes (nodes arguments) := by
  rcases arguments with _ | ⟨kind, _ | ⟨value, _ | ⟨first, rest⟩⟩⟩
  · rfl
  · rfl
  · rfl
  · simp only [foldAttributes, nodes, EntityLisp.foldAttributes]
    split <;> rfl

theorem bares_foldAttributes (arguments : List MarkedTree) :
    bares (foldAttributes arguments) = bares arguments := by
  rcases arguments with _ | ⟨kind, _ | ⟨value, _ | ⟨first, rest⟩⟩⟩
  · rfl
  · rfl
  · rfl
  · rw [foldAttributes]
    split
    · rfl
    · simp only [bares, bare, List.append_nil]

theorem nodes_map_wrapNumber (items : List MarkedTree) :
    nodes (items.map wrapNumber) = (nodes items).map EntityLisp.wrapNumber := by
  simp only [nodes_eq_map, List.map_map, Function.comp_def, node_wrapNumber]

theorem bares_map_wrapNumber (items : List MarkedTree) :
    bares (items.map wrapNumber) = bares items := by
  simp only [bares_eq_flatMap, List.flatMap_map, bare_wrapNumber]

/-- **Marking does not change the normal form** of a form. -/
theorem nodes_normalForm (items : List MarkedTree) :
    nodes (normalForm items) = EntityLisp.normalForm (nodes items) := by
  -- only a form that is headed by a symbol is changed, with or without marks
  rcases items with _ | ⟨⟨⟨⟩⟩ | _ | _ | _ | _, rest⟩
  case cons.leaf.symbol head =>
    simp only [normalForm, nodes, node, EntityLisp.normalForm]
    cases CoreForm.ofName? head with
    | none => rw [nodes, node]
    | some form =>
      cases form with
      | entity => rw [nodes, node, nodes_foldAttributes]
      | _ => rw [nodes, node, nodes_map_wrapNumber]
  all_goals rfl

/-- **Only wrappers are put in** when a form is brought to normal form. -/
theorem bares_normalForm (items : List MarkedTree) : bares (normalForm items) = bares items := by
  unfold normalForm
  split
  · next head rest =>
    split
    · rfl
    · rw [bares, bares_foldAttributes, bares]
    · rw [bares, bares_map_wrapNumber, bares]
  · rfl

end MarkedTree

mutual

/-- **A tree with every form in normal form,** where the wrappers that are put in are marked. -/
def Node.marked : Node → MarkedTree
  | .form items => .form (MarkedTree.normalForm (markedItems items))
  | node => .leaf node

/-- The items of a form, each with all its forms in normal form. -/
def markedItems : List Node → List MarkedTree
  | [] => []
  | item :: rest => item.marked :: markedItems rest

end

theorem markedItems_eq_map (items : List Node) : markedItems items = items.map Node.marked := by
  induction items with
  | nil => rfl
  | cons item rest ih => rw [markedItems, ih, List.map_cons]

theorem marked_of_not_form {node : Node} (h : node.isForm = false) : node.marked = .leaf node := by
  cases node with
  | form items => cases h
  | _ => rfl

/-- **Without the marks** there is the normal form. -/
theorem node_marked (tree : Node) : tree.marked.node = tree.normal := by
  induction tree using formInduction with
  | leaf node h => rw [marked_of_not_form h, normal_of_not_form h, MarkedTree.node]
  | form items ih =>
    have hitems : MarkedTree.nodes (markedItems items) = items.map Node.normal := by
      rw [markedItems_eq_map, MarkedTree.nodes_eq_map, List.map_map]
      exact List.map_congr_left ih
    rw [marked, MarkedTree.node, MarkedTree.nodes_normalForm, hitems, normal_form]

/-- **Without the marked wrappers** there is the tree. -/
theorem bare_marked (tree : Node) : tree.marked.bare = [tree] := by
  induction tree using formInduction with
  | leaf node h => rw [marked_of_not_form h, MarkedTree.bare]
  | form items ih =>
    have hitems : MarkedTree.bares (markedItems items) = items := by
      rw [markedItems_eq_map, MarkedTree.bares_eq_flatMap, List.flatMap_map,
        List.flatMap_congr ih, List.flatMap_singleton']
    rw [marked, MarkedTree.bare, MarkedTree.bares_normalForm, hitems]

/-! ### Forms at any depth -/

/-- **A node occurs in a tree,** as the tree itself or inside one of its forms. -/
inductive Node.OccursIn (node : Node) : Node → Prop where
  | self : OccursIn node node
  | item {item : Node} {items : List Node} (mem : item ∈ items) (inside : OccursIn node item) :
      OccursIn node (.form items)

/-- In a tree in normal form the rules would change no form, at whatever depth. -/
theorem Node.IsNormal.normalForm_eq {tree : Node} (h : tree.IsNormal) {items : List Node}
    (hoccurs : (Node.form items).OccursIn tree) : normalForm items = items := by
  induction hoccurs with
  | self => exact (isNormal_form_iff.mp h).1
  | item hmem _ ih => exact ih ((isNormal_form_iff.mp h).2 _ hmem)

/-- **What is read is in normal form, and normal forms only wrap.** The rules leave every form alone
that occurs in what is read, also those that they have put in themselves. So a tree that is
brought to normal form a second time stays as it is. And in the normal form of a tree there are
wrappers without which it is the tree again: nothing is dropped, repeated or moved. -/
theorem normal_form_wraps [Stack] :
    (∀ tokens form left, readForm tokens = (.ok form, left) →
      ∀ items, (Node.form items).OccursIn form → normalForm items = items) ∧
    (∀ tokens forms, readForms tokens = .ok forms → ∀ form ∈ forms,
      ∀ items, (Node.form items).OccursIn form → normalForm items = items) ∧
    (∀ tree : Node, tree.normal.normal = tree.normal) ∧
    ∀ tree : Node, tree.marked.node = tree.normal ∧ tree.marked.bare = [tree] := by
  refine ⟨fun tokens form left hread items hoccurs => ?_,
    fun tokens forms hread form hform items hoccurs => ?_,
    fun tree => (isNormal_normal tree).normal_eq, fun tree => ⟨node_marked tree, bare_marked tree⟩⟩
  · exact (isNormal_of_readForm (by rw [hread])).2.normalForm_eq hoccurs
  · exact (isNormal_of_mem_readForms hread form hform).2.normalForm_eq hoccurs

/-- The form `(entity Noun (add 1 (entity Integer 2)) :size 3)`, in which one wrapper is written. -/
def halfWrapped : Node :=
  .form [.symbol "entity", .symbol "Noun",
    .form [.symbol "add", .int 1, .form [.symbol "entity", .symbol "Integer", .int 2]],
    .keyword "size", .int 3]

/-- It is read with a wrapper around `1` and one around the attribute, both of them in normal form,
and the wrapper around `2` is not taken for one that has been put in. -/
theorem normal_form_wraps_halfWrapped :
    readForm ["(", "entity", "Noun", "(", "add", "1", "(", "entity", "Integer", "2", ")", ")",
        ":size", "3", ")"] = (.ok halfWrapped.normal, []) ∧
      halfWrapped.normal = .form [.symbol "entity", .symbol "Noun",
        .form [.symbol "add", .form [.symbol "entity", .symbol "Integer", .int 1],
          .form [.symbol "entity", .symbol "Integer", .int 2]],
        .form [.symbol "map", .keyword "size", .int 3]] ∧
      normalForm [.symbol "map", .keyword "size", .int 3] =
        [.symbol "map", .keyword "size", .int 3] ∧
      halfWrapped.normal.normal = halfWrapped.normal ∧ halfWrapped.marked.bare = [halfWrapped] := by
  have hread : readForm ["(", "entity", "Noun", "(", "add", "1", "(", "entity", "Integer", "2",
      ")", ")", ":size", "3", ")"] = (.ok halfWrapped.normal, []) := rfl
  obtain ⟨hfixed, -, hnormal, hmarked⟩ := normal_form_wraps
  refine ⟨hread, rfl, hfixed _ _ _ hread _ ?_, hnormal halfWrapped, (hmarked halfWrapped).2⟩
  exact .item (List.mem_of_mem_getLast? rfl) .self

end EntityLisp
