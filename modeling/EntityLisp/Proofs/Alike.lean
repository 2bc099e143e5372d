import EntityLisp.Form.Read
import EntityLisp.Node.Source
import EntityLisp.Run.Evaluate
import Mathlib.Data.List.Forall2

/-!
# Nodes that are alike in two runs

Two runs of a program can differ in what its code cannot tell: the numbers that closures get as
their origins, the traits that are declared, and the bindings of names that no code mentions. A
`Correspondence` fixes which of these differences are allowed, and `Node.Alike` relates the nodes
of one run to those of the other, also inside the scopes that closures have captured.

Nodes that are alike show the same text (`Node.Alike.display`, `Node.Alike.shown`), since no text
shows an origin, a trait or a captured scope.
-/

namespace EntityLisp

/-! ### Tables entry by entry -/

namespace Table

variable {κ α : Type} {R : α → α → Prop}

/-- **Two tables agree entry by entry:** the same keys in the same order, with related values. -/
def Pointwise (R : α → α → Prop) (table table' : Table κ α) : Prop :=
  List.Forall₂ (fun entry entry' => entry.1 = entry'.1 ∧ R entry.2 entry'.2) table table'

theorem pointwise_iff_zip {table table' : Table κ α} :
    Pointwise R table table' ↔
      table.keys = table'.keys ∧ ∀ pair ∈ table.zip table', R pair.1.2 pair.2.2 := by
  constructor
  · intro h
    induction h with
    | nil => simp [keys]
    | cons hentry _ ih =>
      simp only [keys, List.map_cons, List.zip_cons_cons, List.forall_mem_cons, List.cons.injEq]
      exact ⟨⟨hentry.1, ih.1⟩, hentry.2, ih.2⟩
  · intro h
    induction table generalizing table' with
    | nil =>
      cases table' with
      | nil => exact .nil
      | cons entry' rest' => exact absurd h.1 (by simp [keys])
    | cons entry rest ih =>
      cases table' with
      | nil => exact absurd h.1 (by simp [keys])
      | cons entry' rest' =>
        simp only [keys, List.map_cons, List.zip_cons_cons, List.forall_mem_cons,
          List.cons.injEq] at h
        exact .cons ⟨h.1.1, h.2.1⟩ (ih ⟨h.1.2, h.2.2⟩)

theorem Pointwise.filter {p p' : α → Bool} {table table' : Table κ α}
    (h : Pointwise R table table') (hp : ∀ value value', R value value' → p value = p' value') :
    Pointwise R (table.filter fun entry => p entry.2) (table'.filter fun entry => p' entry.2) := by
  induction h with
  | nil => exact .nil
  | @cons entry entry' rest rest' hentry _ ih =>
    rw [List.filter_cons, List.filter_cons, hp _ _ hentry.2]
    split
    · exact .cons hentry ih
    · exact ih

variable [DecidableEq κ]

theorem Pointwise.get? {table table' : Table κ α} (h : Pointwise R table table') (key : κ) :
    Option.Rel R (get? key table) (get? key table') := by
  induction h with
  | nil => exact .none
  | @cons entry entry' rest rest' hentry _ ih =>
    obtain ⟨k, v⟩ := entry
    obtain ⟨k', v'⟩ := entry'
    obtain ⟨rfl, hvalue⟩ := hentry
    unfold Table.get?
    split
    · exact .some hvalue
    · exact ih

theorem Pointwise.put {table table' : Table κ α} (h : Pointwise R table table') (key : κ)
    {value value' : α} (hvalue : R value value') :
    Pointwise R (put key value table) (put key value' table') := by
  induction h with
  | nil => exact .cons ⟨rfl, hvalue⟩ .nil
  | @cons entry entry' rest rest' hentry hrest ih =>
    obtain ⟨k, v⟩ := entry
    obtain ⟨k', v'⟩ := entry'
    obtain ⟨rfl, hold⟩ := hentry
    unfold Table.put
    split
    · exact .cons ⟨rfl, hvalue⟩ hrest
    · exact .cons ⟨rfl, hold⟩ ih

theorem Pointwise.overlay {upper upper' lower lower' : Table κ α}
    (hupper : Pointwise R upper upper') (hlower : Pointwise R lower lower') :
    Pointwise R (overlay upper lower) (overlay upper' lower') := by
  induction hupper generalizing lower lower' with
  | nil => exact hlower
  | @cons entry entry' rest rest' hentry _ ih =>
    obtain ⟨k, v⟩ := entry
    obtain ⟨k', v'⟩ := entry'
    obtain ⟨rfl, hvalue⟩ := hentry
    exact ih (hlower.put k hvalue)

/-! ### Hidden keys -/

/-- The entries whose keys are not hidden. -/
def visible (hidden : List κ) (table : Table κ α) : Table κ α :=
  table.filter fun entry => decide (entry.1 ∉ hidden)

variable {hidden : List κ}

theorem visible_cons_of_mem {key : κ} (h : key ∈ hidden) (value : α) (rest : Table κ α) :
    visible hidden ((key, value) :: rest) = visible hidden rest := by
  simp [visible, h]

theorem visible_cons_of_not_mem {key : κ} (h : key ∉ hidden) (value : α) (rest : Table κ α) :
    visible hidden ((key, value) :: rest) = (key, value) :: visible hidden rest := by
  simp [visible, h]

theorem get?_visible {key : κ} (h : key ∉ hidden) (table : Table κ α) :
    get? key (visible hidden table) = get? key table := by
  induction table with
  | nil => rfl
  | cons entry rest ih =>
    obtain ⟨k, v⟩ := entry
    by_cases hk : k ∈ hidden
    · have hne : k ≠ key := fun heq => h (heq ▸ hk)
      rw [visible_cons_of_mem hk, ih, get?, if_neg hne]
    · rw [visible_cons_of_not_mem hk, get?, get?, ih]

/-- What a hidden key holds is not seen. -/
theorem visible_put_of_mem {key : κ} (h : key ∈ hidden) (value : α) (table : Table κ α) :
    visible hidden (put key value table) = visible hidden table := by
  induction table with
  | nil => simp [put, visible, h]
  | cons entry rest ih =>
    obtain ⟨k, v⟩ := entry
    unfold put
    split
    · next heq =>
      subst heq
      rw [visible_cons_of_mem h, visible_cons_of_mem h]
    · by_cases hk : k ∈ hidden
      · rw [visible_cons_of_mem hk, visible_cons_of_mem hk, ih]
      · rw [visible_cons_of_not_mem hk, visible_cons_of_not_mem hk, ih]

theorem visible_put_of_not_mem {key : κ} (h : key ∉ hidden) (value : α) (table : Table κ α) :
    visible hidden (put key value table) = put key value (visible hidden table) := by
  induction table with
  | nil => simp [put, visible, h]
  | cons entry rest ih =>
    obtain ⟨k, v⟩ := entry
    by_cases heq : k = key
    · subst heq
      rw [put, if_pos rfl, visible_cons_of_not_mem h, visible_cons_of_not_mem h, put, if_pos rfl]
    · rw [put, if_neg heq]
      by_cases hk : k ∈ hidden
      · rw [visible_cons_of_mem hk, visible_cons_of_mem hk, ih]
      · rw [visible_cons_of_not_mem hk, visible_cons_of_not_mem hk, put, if_neg heq, ih]

theorem visible_overlay (upper lower : Table κ α) :
    visible hidden (overlay upper lower) =
      overlay (visible hidden upper) (visible hidden lower) := by
  induction upper generalizing lower with
  | nil => rfl
  | cons entry rest ih =>
    obtain ⟨k, v⟩ := entry
    show visible hidden (overlay rest (put k v lower)) = _
    rw [ih]
    by_cases hk : k ∈ hidden
    · rw [visible_put_of_mem hk, visible_cons_of_mem hk]
    · rw [visible_put_of_not_mem hk, visible_cons_of_not_mem hk]
      rfl

end Table

/-! ### Nodes -/

/-- The names that evaluation itself puts into code when it frees a form of sugar. -/
def reservedNames : List String := [CoreForm.entity.name, TypeTag.noun.name, mapHead]

/-- **How two runs correspond.** -/
structure Correspondence where
  /-- The origin in the second run of the closure that has this one in the first. -/
  origin : Nat → Nat
  injective : Function.Injective origin
  /-- The names that no code mentions. -/
  hidden : List String
  not_reserved : ∀ name ∈ hidden, name ∉ reservedNames
  /-- Whether the declared traits have to be the same. -/
  traits : Prop

/-- Whether a node is an atom that stands for itself. -/
def Node.isPlain : Node → Bool
  | .nil | .bool _ | .int _ | .float _ | .str _ | .keyword _ => true
  | _ => false

/-- **Nodes that are alike:** the same but for the differences that a correspondence allows. -/
inductive Node.Alike (r : Correspondence) : Node → Node → Prop where
  | nil : Alike r .nil .nil
  | bool (value : Bool) : Alike r (.bool value) (.bool value)
  | int (value : Int) : Alike r (.int value) (.int value)
  | float (value : Binary64) : Alike r (.float value) (.float value)
  | str (text : String) : Alike r (.str text) (.str text)
  | keyword (name : String) : Alike r (.keyword name) (.keyword name)
  | symbol {name : String} (visible : name ∉ r.hidden) : Alike r (.symbol name) (.symbol name)
  | ofForm {items items' : List Node} (length : items.length = items'.length)
      (each : ∀ pair ∈ items.zip items', Alike r pair.1 pair.2) :
      Alike r (.form items) (.form items')
  | ofEntity {e e' : Entity Node} (kind : e.kind = e'.kind) (payload : Alike r e.payload e'.payload)
      (names : Table.keys e.attrs = Table.keys e'.attrs)
      (values : ∀ pair ∈ e.attrs.zip e'.attrs, Alike r pair.1.2 pair.2.2) :
      Alike r (.entity e) (.entity e')
  | ofEntities {es es' : List (Entity Node)} {joined : Bool} (length : es.length = es'.length)
      (each : ∀ pair ∈ es.zip es', Alike r (.entity pair.1) (.entity pair.2)) :
      Alike r (.entities es joined) (.entities es' joined)
  | ofClosure {c c' : Closure Node} (params : c.params = c'.params)
      (returns : c.returns = c'.returns) (fixed : c.fixed = c'.fixed)
      (body : Alike r c.body c'.body) (origin : c'.origin = r.origin c.origin)
      (names : Table.keys (Table.visible r.hidden c.scope.bindings) =
        Table.keys (Table.visible r.hidden c'.scope.bindings))
      (values : ∀ pair ∈ (Table.visible r.hidden c.scope.bindings).zip
        (Table.visible r.hidden c'.scope.bindings), Alike r pair.1.2 pair.2.2)
      (traits : r.traits → c.scope.traits = c'.scope.traits) :
      Alike r (.closure c) (.closure c')

variable {r : Correspondence}

/-- **Scopes that agree:** the names that are not hidden are bound in the same order, to nodes
that are alike. -/
structure Scope.Agree (r : Correspondence) (scope scope' : Scope Node) : Prop where
  bindings : Table.Pointwise (Node.Alike r) (Table.visible r.hidden scope.bindings)
    (Table.visible r.hidden scope'.bindings)
  traits : r.traits → scope.traits = scope'.traits

namespace Node

/-- Entities that are alike. -/
structure AlikeEntity (r : Correspondence) (e e' : Entity Node) : Prop where
  kind : e.kind = e'.kind
  payload : Alike r e.payload e'.payload
  attrs : Table.Pointwise (Alike r) e.attrs e'.attrs

/-- Closures that are alike. -/
structure AlikeClosure (r : Correspondence) (c c' : Closure Node) : Prop where
  params : c.params = c'.params
  returns : c.returns = c'.returns
  fixed : c.fixed = c'.fixed
  body : Alike r c.body c'.body
  origin : c'.origin = r.origin c.origin
  scope : c.scope.Agree r c'.scope

theorem Alike.plain {node : Node} (h : node.isPlain = true) : Alike r node node := by
  cases node <;> cases h <;> constructor

theorem alike_form_iff {items items' : List Node} :
    Alike r (.form items) (.form items') ↔ List.Forall₂ (Alike r) items items' := by
  rw [List.forall₂_iff_zip]
  constructor
  · intro h
    cases h with
    | ofForm hlength heach => exact ⟨hlength, fun hmem => heach _ hmem⟩
  · rintro ⟨hlength, heach⟩
    exact .ofForm hlength fun pair hpair => heach hpair

theorem alike_entity_iff {e e' : Entity Node} :
    Alike r (.entity e) (.entity e') ↔ AlikeEntity r e e' := by
  constructor
  · intro h
    cases h with
    | ofEntity hkind hpayload hnames hvalues =>
      exact ⟨hkind, hpayload, Table.pointwise_iff_zip.mpr ⟨hnames, hvalues⟩⟩
  · rintro ⟨hkind, hpayload, hattrs⟩
    obtain ⟨hnames, hvalues⟩ := Table.pointwise_iff_zip.mp hattrs
    exact .ofEntity hkind hpayload hnames hvalues

theorem forall₂_alikeEntity {es es' : List (Entity Node)} (hlength : es.length = es'.length)
    (heach : ∀ pair ∈ es.zip es', Alike r (.entity pair.1) (.entity pair.2)) :
    List.Forall₂ (AlikeEntity r) es es' :=
  List.forall₂_iff_zip.mpr ⟨hlength, fun hmem => alike_entity_iff.mp (heach _ hmem)⟩

theorem alike_entities_iff {es es' : List (Entity Node)} {joined joined' : Bool} :
    Alike r (.entities es joined) (.entities es' joined') ↔
      joined = joined' ∧ List.Forall₂ (AlikeEntity r) es es' := by
  constructor
  · intro h
    cases h with
    | ofEntities hlength heach => exact ⟨rfl, forall₂_alikeEntity hlength heach⟩
  · rintro ⟨rfl, heach⟩
    obtain ⟨hlength, heach⟩ := List.forall₂_iff_zip.mp heach
    exact .ofEntities hlength fun pair hpair => alike_entity_iff.mpr (heach hpair)

theorem alike_closure_iff {c c' : Closure Node} :
    Alike r (.closure c) (.closure c') ↔ AlikeClosure r c c' := by
  constructor
  · intro h
    cases h with
    | ofClosure hparams hreturns hfixed hbody horigin hnames hvalues htraits =>
      exact ⟨hparams, hreturns, hfixed, hbody, horigin,
        Table.pointwise_iff_zip.mpr ⟨hnames, hvalues⟩, htraits⟩
  · rintro ⟨hparams, hreturns, hfixed, hbody, horigin, hbindings, htraits⟩
    obtain ⟨hnames, hvalues⟩ := Table.pointwise_iff_zip.mp hbindings
    exact .ofClosure hparams hreturns hfixed hbody horigin hnames hvalues htraits

theorem AlikeEntity.isError {e e' : Entity Node} (h : AlikeEntity r e e') :
    e.isError = e'.isError := by
  unfold Entity.isError
  rw [h.kind]

/-- **Induction along nodes that are alike.** -/
theorem Alike.induction {motive : Node → Node → Prop}
    (plain : ∀ node, node.isPlain = true → motive node node)
    (symbol : ∀ name, name ∉ r.hidden → motive (.symbol name) (.symbol name))
    (form : ∀ items items', List.Forall₂ (Alike r) items items' →
      List.Forall₂ motive items items' → motive (.form items) (.form items'))
    (entity : ∀ e e', AlikeEntity r e e' → motive e.payload e'.payload →
      Table.Pointwise motive e.attrs e'.attrs → motive (.entity e) (.entity e'))
    (entities : ∀ es es' joined, List.Forall₂ (AlikeEntity r) es es' →
      List.Forall₂ (fun e e' => motive (.entity e) (.entity e')) es es' →
      motive (.entities es joined) (.entities es' joined))
    (closure : ∀ c c', AlikeClosure r c c' → motive c.body c'.body →
      Table.Pointwise motive (Table.visible r.hidden c.scope.bindings)
        (Table.visible r.hidden c'.scope.bindings) → motive (.closure c) (.closure c'))
    {node node' : Node} (h : Alike r node node') : motive node node' := by
  induction h with
  | nil | bool | int | float | str | keyword => exact plain _ rfl
  | symbol hvisible => exact symbol _ hvisible
  | ofForm hlength heach ih =>
    refine form _ _ (alike_form_iff.mp (.ofForm hlength heach)) ?_
    exact List.forall₂_iff_zip.mpr ⟨hlength, fun hmem => ih _ hmem⟩
  | ofEntity hkind hpayload hnames hvalues ihpayload ihvalues =>
    refine entity _ _ (alike_entity_iff.mp (.ofEntity hkind hpayload hnames hvalues)) ihpayload ?_
    exact Table.pointwise_iff_zip.mpr ⟨hnames, ihvalues⟩
  | ofEntities hlength heach ih =>
    refine entities _ _ _ (forall₂_alikeEntity hlength heach) ?_
    exact List.forall₂_iff_zip.mpr ⟨hlength, fun hmem => ih _ hmem⟩
  | ofClosure hparams hreturns hfixed hbody horigin hnames hvalues htraits ihbody ihvalues =>
    refine closure _ _ (alike_closure_iff.mp (.ofClosure hparams hreturns hfixed hbody
      horigin hnames hvalues htraits)) ihbody ?_
    exact Table.pointwise_iff_zip.mpr ⟨hnames, ihvalues⟩

/-! ### What is alike shows the same text -/

theorem displayItems_eq_map (items : List Node) : displayItems items = items.map display := by
  induction items with
  | nil => rfl
  | cons item rest ih => rw [displayItems, ih, List.map_cons]

theorem displayEntities_eq_map (es : List (Entity Node)) :
    displayEntities es = es.map fun e => (Node.entity e).display := by
  induction es with
  | nil => rfl
  | cons e rest ih =>
    rw [displayEntities, ih, List.map_cons]
    rfl

theorem displayAttrs_eq_map (attrs : Table String Node) :
    displayAttrs attrs = attrs.map fun attr => quoted attr.1 ++ ": " ++ attr.2.display := by
  induction attrs with
  | nil => rfl
  | cons attr rest ih => rw [displayAttrs, ih, List.map_cons]

/-- What is equal at related items is equal as a map. -/
theorem map_eq_of_forall₂ {α β : Type} {f : α → β} {items items' : List α}
    (h : List.Forall₂ (fun item item' => f item = f item') items items') :
    items.map f = items'.map f := by
  induction h with
  | nil => rfl
  | cons hitem _ ih => rw [List.map_cons, List.map_cons, hitem, ih]

theorem AlikeClosure.signature {c c' : Closure Node} (h : AlikeClosure r c c') :
    c.signature = c'.signature := by
  unfold Closure.signature
  rw [h.params, h.returns]

theorem Alike.display {node node' : Node} (h : Alike r node node') :
    node.display = node'.display := by
  refine Alike.induction (motive := fun node node' => node.display = node'.display)
    (fun _ _ => rfl) (fun _ _ => rfl) ?form ?entity ?entities ?closure h
  case form =>
    intro items items' _ ih
    rw [Node.display, Node.display, displayItems_eq_map, displayItems_eq_map,
      map_eq_of_forall₂ ih]
  case entity =>
    rintro ⟨kind, payload, attrs⟩ ⟨kind', payload', attrs'⟩ h ihpayload ihattrs
    obtain rfl : kind = kind' := h.kind
    have hempty : attrs.isEmpty = attrs'.isEmpty := by
      cases ihattrs <;> rfl
    have hattrs : displayAttrs attrs = displayAttrs attrs' := by
      rw [displayAttrs_eq_map, displayAttrs_eq_map]
      refine map_eq_of_forall₂ (List.Forall₂.imp (fun attr attr' hattr => ?_) ihattrs)
      rw [hattr.1, hattr.2]
    rw [Node.display, Node.display, displayEntity, displayEntity, ihpayload, hattrs, hempty]
  case entities =>
    intro es es' joined _ ih
    cases joined <;>
      rw [Node.display, Node.display, displayEntities_eq_map, displayEntities_eq_map,
        map_eq_of_forall₂ ih]
  case closure =>
    intro c c' h _ _
    rw [Node.display, Node.display, h.signature, h.fixed]

theorem itemsHeight_congr {items items' : List Node}
    (h : List.Forall₂ (fun item item' => item.height = item'.height) items items') :
    itemsHeight items = itemsHeight items' := by
  induction h with
  | nil => rfl
  | cons hitem _ ih => rw [itemsHeight, itemsHeight, hitem, ih]

/-- Nodes that are alike nest equally deep. -/
theorem Alike.height {node node' : Node} (h : Alike r node node') :
    node.height = node'.height := by
  refine Alike.induction (motive := fun node node' => node.height = node'.height)
    (fun _ _ => rfl) (fun _ _ => rfl) ?form (fun _ _ _ _ _ => rfl) (fun _ _ _ _ _ => rfl)
    (fun _ _ _ _ _ => rfl) h
  intro items items' _ ih
  rw [Node.height, Node.height, itemsHeight_congr ih]

theorem toOption_sourceItemsIn? {room : Nat} {items items' : List Node}
    (h : List.Forall₂ (fun item item' =>
      (item.sourceIn? room).toOption = (item'.sourceIn? room).toOption) items items') :
    (sourceItemsIn? room items).toOption = (sourceItemsIn? room items').toOption := by
  induction h with
  | nil => rfl
  | @cons item item' rest rest' hitem _ ih =>
    rw [sourceItemsIn?, sourceItemsIn?]
    cases hsource : item.sourceIn? room <;> cases hsource' : item'.sourceIn? room <;>
      rw [hsource, hsource'] at hitem <;> cases hitem
    · rfl
    · cases hrest : sourceItemsIn? room rest <;> cases hrest' : sourceItemsIn? room rest' <;>
        rw [hrest, hrest'] at ih <;> cases ih <;> rfl

/-- Either both have the same program text or neither has one. -/
theorem Alike.toOption_sourceIn? {node node' : Node} (h : Alike r node node') (room : Nat) :
    (node.sourceIn? room).toOption = (node'.sourceIn? room).toOption := by
  refine Alike.induction (motive := fun node node' =>
      ∀ room, (node.sourceIn? room).toOption = (node'.sourceIn? room).toOption)
    (fun _ _ _ => rfl) (fun _ _ _ => rfl) ?form ?entity ?entities ?closure h room
  case form =>
    intro items items' _ ih room
    cases room with
    | zero => rfl
    | succ room =>
      have hitems := toOption_sourceItemsIn? (ih.imp fun _ _ hitem => hitem room)
      rw [Node.sourceIn?, Node.sourceIn?]
      cases hsource : sourceItemsIn? room items <;> cases hsource' : sourceItemsIn? room items' <;>
        rw [hsource, hsource'] at hitems <;> cases hitems <;> rfl
  case entity | entities | closure =>
    intros
    rename_i room
    cases room <;> rfl

theorem Alike.shown {node node' : Node} (h : Alike r node node') : node.shown = node'.shown := by
  have hsource := h.toOption_sourceIn? node.height
  unfold Node.shown
  rw [← h.height]
  cases htext : node.sourceIn? node.height <;> cases htext' : node'.sourceIn? node.height <;>
    rw [htext, htext'] at hsource <;> cases hsource
  · exact h.display
  · rfl

theorem Alike.text {node node' : Node} (h : Alike r node node') : node.text = node'.text := by
  have hdisplay := h.display
  cases h with
  | ofClosure hparams hreturns => simp only [Node.text, Closure.signature, hparams, hreturns]
  | str | symbol | keyword => rfl
  | _ => exact hdisplay

theorem Alike.sort {node node' : Node} (h : Alike r node node') : node.sort = node'.sort := by
  cases h with
  | ofEntity hkind => simp only [Node.sort, hkind]
  | @ofEntities es es' joined => cases joined <;> rfl
  | _ => rfl

theorem Alike.describe {node node' : Node} (h : Alike r node node') :
    node.describe = node'.describe := by
  cases h with
  | ofEntity hkind hpayload =>
    rw [Node.describe, Node.describe, Entity.isError, Entity.isError, hkind, hpayload.text]
  | @ofEntities es es' joined => cases joined <;> rfl
  | _ => rfl

theorem Alike.shape? {node node' : Node} (h : Alike r node node') :
    node.shape? = node'.shape? := by
  cases h <;> rfl

/-- Payloads of a shape that entities hold are the same if they are alike. -/
theorem Alike.eq_of_shape? {node node' : Node} (h : Alike r node node')
    (hshape : node.shape?.isSome = true) : node = node' := by
  cases h with
  | bool | int | float | str => rfl
  | _ => cases hshape

end Node

end EntityLisp
