import EntityLisp.Proofs.TwoRuns

/-!
# Nodes that avoid names

A node avoids names if no code in it mentions them, neither the node itself nor the bodies of the
closures that it holds, in whatever captured scope they are found. If moreover its closures have
origins below a bound, the node is alike to itself under every correspondence that hides these
names and keeps these origins (`Node.Avoids.alike`): it is a node from before two runs part.
-/

namespace EntityLisp

open Node

/-- **A node that avoids names** and holds only closures with origins below a bound. -/
inductive Node.Avoids (hidden : List String) (bound : Nat) : Node → Prop where
  | plain {node : Node} (isPlain : node.isPlain = true) : Avoids hidden bound node
  | symbol {name : String} (visible : name ∉ hidden) : Avoids hidden bound (.symbol name)
  | form {items : List Node} (each : ∀ item ∈ items, Avoids hidden bound item) :
      Avoids hidden bound (.form items)
  | entity {e : Entity Node} (payload : Avoids hidden bound e.payload)
      (attrs : ∀ attr ∈ e.attrs, Avoids hidden bound attr.2) : Avoids hidden bound (.entity e)
  | entities {es : List (Entity Node)} {joined : Bool}
      (each : ∀ e ∈ es, Avoids hidden bound (.entity e)) : Avoids hidden bound (.entities es joined)
  | closure {c : Closure Node} (origin : c.origin < bound) (body : Avoids hidden bound c.body)
      (captured : ∀ binding ∈ c.scope.bindings, Avoids hidden bound binding.2) :
      Avoids hidden bound (.closure c)

/-- A scope that binds only nodes that avoid names. -/
def Scope.Avoids (hidden : List String) (bound : Nat) (scope : Scope Node) : Prop :=
  ∀ binding ∈ scope.bindings, binding.2.Avoids hidden bound

variable {hidden : List String} {bound : Nat} {r : Correspondence}

theorem Node.Avoids.mono {bound' : Nat} (hbound : bound ≤ bound') {node : Node}
    (h : node.Avoids hidden bound) : node.Avoids hidden bound' := by
  induction h with
  | plain hplain => exact .plain hplain
  | symbol hvisible => exact .symbol hvisible
  | form _ ih => exact .form ih
  | entity _ _ ihpayload ihattrs => exact .entity ihpayload ihattrs
  | entities _ ih => exact .entities ih
  | closure horigin _ _ ihbody ihcaptured =>
    exact .closure (Nat.lt_of_lt_of_le horigin hbound) ihbody ihcaptured

theorem avoids_form_iff {items : List Node} :
    (Node.form items).Avoids hidden bound ↔ ∀ item ∈ items, item.Avoids hidden bound := by
  constructor
  · rintro (hplain | _ | heach)
    · cases hplain
    · exact heach
  · exact .form

theorem avoids_symbol_iff {name : String} :
    (Node.symbol name).Avoids hidden bound ↔ name ∉ hidden := by
  constructor
  · rintro (hplain | hvisible)
    · cases hplain
    · exact hvisible
  · exact .symbol

theorem Table.pointwise_self {κ α : Type} {R : α → α → Prop} {table : Table κ α}
    (h : ∀ entry ∈ table, R entry.2 entry.2) : Table.Pointwise R table table :=
  List.forall₂_same.mpr fun entry hentry => ⟨rfl, h entry hentry⟩

/-- A correspondence that hides names and keeps the origins below a bound. -/
structure Correspondence.Keeps (r : Correspondence) (hidden : List String) (bound : Nat) :
    Prop where
  hidden_eq : r.hidden = hidden
  origin_eq : ∀ origin < bound, r.origin origin = origin

namespace Correspondence.Keeps

variable (hr : r.Keeps hidden bound)

include hr

/-- **A node that avoids the hidden names is alike to itself.** -/
theorem alike {node : Node} (h : node.Avoids hidden bound) : Alike r node node := by
  induction h with
  | plain hplain => exact .plain hplain
  | symbol hvisible => exact .symbol (hr.hidden_eq ▸ hvisible)
  | form _ ih => exact alike_form_iff.mpr (List.forall₂_same.mpr ih)
  | entity _ _ ihpayload ihattrs =>
    exact alike_entity_iff.mpr ⟨rfl, ihpayload, Table.pointwise_self ihattrs⟩
  | entities _ ih =>
    refine alike_entities_iff.mpr ⟨rfl, List.forall₂_same.mpr fun e he => ?_⟩
    exact alike_entity_iff.mp (ih e he)
  | closure horigin _ _ ihbody ihcaptured =>
    refine alike_closure_iff.mpr ⟨rfl, rfl, rfl, ihbody, (hr.origin_eq _ horigin).symm, ?_⟩
    exact ⟨Table.pointwise_self fun binding hbinding =>
      ihcaptured binding (List.mem_of_mem_filter hbinding), fun _ => rfl⟩

theorem forall₂ {nodes : List Node} (h : ∀ node ∈ nodes, node.Avoids hidden bound) :
    List.Forall₂ (Alike r) nodes nodes :=
  List.forall₂_same.mpr fun node hnode => hr.alike (h node hnode)

/-- A scope that avoids the hidden names agrees with itself. -/
theorem agree {scope : Scope Node} (h : scope.Avoids hidden bound) : scope.Agree r scope :=
  ⟨Table.pointwise_self fun binding hbinding =>
    hr.alike (h binding (List.mem_of_mem_filter hbinding)), fun _ => rfl⟩

end Correspondence.Keeps

/-! ### Entities without parts -/

/-- **An entity of a primitive type without attributes.** -/
structure Entity.IsPrimitive (e : Entity Node) : Prop where
  attrs : e.attrs = []
  payload : e.payload.shape?.isSome = true

theorem Entity.IsPrimitive.eq_of_alike {e e' : Entity Node} (he : e.IsPrimitive)
    (h : Alike r (.entity e) (.entity e')) : e = e' := by
  obtain ⟨kind, payload, attrs⟩ := e
  obtain ⟨kind', payload', attrs'⟩ := e'
  obtain rfl : attrs = [] := he.attrs
  obtain ⟨rfl, hpayload, hattrs⟩ := alike_entity_iff.mp h
  obtain rfl : payload = payload' := hpayload.eq_of_shape? he.payload
  cases hattrs
  rfl

theorem Entity.IsPrimitive.of_alike {e e' : Entity Node} (he : e'.IsPrimitive)
    (h : Alike r (.entity e) (.entity e')) : e.IsPrimitive := by
  obtain ⟨-, hpayload, hattrs⟩ := alike_entity_iff.mp h
  refine ⟨?_, hpayload.shape?.symm ▸ he.payload⟩
  rw [he.attrs] at hattrs
  exact List.forall₂_nil_right_iff.mp hattrs

/-- **Outcomes that are alike are the same entities,** as far as these are primitive. -/
theorem OutcomesAlike.exists_ok_iff {S : Scope Node → Scope Node → Prop}
    {outcome outcome' : EStateM.Result EvalError RunState Node}
    (h : OutcomesAlike r S (Alike r) outcome outcome') {e : Entity Node} (he : e.IsPrimitive) :
    (∃ after, outcome = .ok (.entity e) after) ↔ ∃ after, outcome' = .ok (.entity e) after := by
  cases h with
  | error => constructor <;> rintro ⟨after, ⟨⟩⟩
  | @ok value value' after after' hvalue =>
    constructor
    · rintro ⟨_, ⟨⟩⟩
      cases hvalue with
      | @ofEntity _ e' hkind hpayload hnames hvalues =>
        rw [he.eq_of_alike (.ofEntity hkind hpayload hnames hvalues)]
        exact ⟨after', rfl⟩
    · rintro ⟨_, ⟨⟩⟩
      cases hvalue with
      | @ofEntity e' _ hkind hpayload hnames hvalues =>
        have hsame : Alike r (.entity e') (.entity e) := .ofEntity hkind hpayload hnames hvalues
        rw [(he.of_alike hsame).eq_of_alike hsame]
        exact ⟨after, rfl⟩

/-! ### Integers -/

/-- The integer entity of a number. -/
def integerEntity (value : Int) : Entity Node := ⟨.integer, .int value, []⟩

theorem isPrimitive_integerEntity (value : Int) : (integerEntity value).IsPrimitive := ⟨rfl, rfl⟩

/-- Whether an outcome is the integer entity of a number. -/
def givesInteger (value : Int) : EStateM.Result EvalError RunState Node → Bool
  | .ok (.entity ⟨.integer, .int found, []⟩) _ => found == value
  | _ => false

theorem exists_ok_of_givesInteger {value : Int} {outcome : EStateM.Result EvalError RunState Node}
    (h : givesInteger value outcome = true) :
    ∃ after, outcome = .ok (.entity (integerEntity value)) after := by
  unfold givesInteger at h
  split at h
  · rw [beq_iff_eq.mp h]
    exact ⟨_, rfl⟩
  · cases h

end EntityLisp
