import EntityLisp.Proofs.Avoids
import EntityLisp.Proofs.EntryOrder
import Mathlib.Data.Set.Basic

/-!
# Ledgers of closures

A ledger says of each number that has been given out which functions may carry it as their origin.
A node is recorded in a ledger if that holds for all closures in it, in whatever captured scope
they are found.

A run only adds entries to the ledger. A closure that it makes gets the first number that has no
entry, and from then on this number belongs to one function: the ledger records a state if it has
an entry for each number that has been given out.

* `recorded_replicate_iff`: where any function may carry any number, only the bound of the numbers
  counts.
-/

namespace EntityLisp

open Node Run

/-! ### Functions and their numbers -/

/-- **What all states of a closure share:** the function, without a scope. -/
structure FunctionCode where
  params : List (String × TypeTag)
  returns : TypeTag
  body : Node

/-- The function of a closure. -/
def Closure.code (c : Closure Node) : FunctionCode := ⟨c.params, c.returns, c.body⟩

theorem Closure.code_fix (c : Closure Node) (scope : Scope Node) : (c.fix scope).code = c.code := by
  unfold fix
  split <;> rfl

/-- **A ledger:** for each number from zero on, the functions that may carry it. -/
abbrev Ledger := List (Set FunctionCode)

namespace Ledger

/-- The closure has a number that its function may carry. -/
def Allows (ledger : Ledger) (c : Closure Node) : Prop :=
  ∃ codes, ledger[c.origin]? = some codes ∧ c.code ∈ codes

/-- **A ledger grows:** each new number belongs to one function. -/
def Grows (ledger later : Ledger) : Prop :=
  ∃ codes : List FunctionCode, later = ledger ++ codes.map fun code => {code}

variable {ledger between later : Ledger}

theorem Grows.refl (ledger : Ledger) : ledger.Grows ledger := ⟨[], (List.append_nil ledger).symm⟩

theorem Grows.trans (h : ledger.Grows between) (hnext : between.Grows later) :
    ledger.Grows later := by
  obtain ⟨codes, rfl⟩ := h
  obtain ⟨others, rfl⟩ := hnext
  exact ⟨codes ++ others, by rw [List.map_append, List.append_assoc]⟩

theorem Grows.append_singleton (ledger : Ledger) (code : FunctionCode) :
    ledger.Grows (ledger ++ [{code}]) := ⟨[code], rfl⟩

theorem Grows.allows (h : ledger.Grows later) {c : Closure Node} (hc : ledger.Allows c) :
    later.Allows c := by
  obtain ⟨codes, rfl⟩ := h
  obtain ⟨found, hfound, hcode⟩ := hc
  have hlt : c.origin < ledger.length := (List.getElem?_eq_some_iff.mp hfound).1
  exact ⟨found, by rw [List.getElem?_append_left hlt, hfound], hcode⟩

theorem Allows.origin_lt {c : Closure Node} (h : ledger.Allows c) : c.origin < ledger.length := by
  obtain ⟨codes, hcodes, -⟩ := h
  exact (List.getElem?_eq_some_iff.mp hcodes).1

/-- A new entry allows its function to carry its number. -/
theorem allows_append_singleton {c : Closure Node} {code : FunctionCode}
    (horigin : c.origin = ledger.length) (hcode : c.code = code) :
    (ledger ++ [{code}] : Ledger).Allows c :=
  ⟨{code}, by rw [horigin, List.getElem?_concat_length], hcode⟩

end Ledger

/-! ### Recorded nodes -/

/-- **A recorded node:** all closures in it have numbers that their functions may carry. -/
inductive Node.Recorded (ledger : Ledger) : Node → Prop where
  | plain {node : Node} (isPlain : node.isPlain = true) : Recorded ledger node
  | symbol (name : String) : Recorded ledger (.symbol name)
  | form {items : List Node} (each : ∀ item ∈ items, Recorded ledger item) :
      Recorded ledger (.form items)
  | entity {e : Entity Node} (payload : Recorded ledger e.payload)
      (attrs : ∀ attr ∈ e.attrs, Recorded ledger attr.2) : Recorded ledger (.entity e)
  | entities {es : List (Entity Node)} {joined : Bool}
      (each : ∀ e ∈ es, Recorded ledger (.entity e)) : Recorded ledger (.entities es joined)
  | closure {c : Closure Node} (allowed : ledger.Allows c) (body : Recorded ledger c.body)
      (captured : ∀ binding ∈ c.scope.bindings, Recorded ledger binding.2) :
      Recorded ledger (.closure c)

section Recorded

variable {ledger later : Ledger}

/-- What is recorded stays recorded. -/
theorem Node.Recorded.mono (hgrows : ledger.Grows later) {node : Node}
    (h : node.Recorded ledger) : node.Recorded later := by
  induction h with
  | plain hplain => exact .plain hplain
  | symbol name => exact .symbol name
  | form _ ih => exact .form ih
  | entity _ _ ihpayload ihattrs => exact .entity ihpayload ihattrs
  | entities _ ih => exact .entities ih
  | closure hallowed _ _ ihbody ihcaptured =>
    exact .closure (hgrows.allows hallowed) ihbody ihcaptured

theorem recorded_form_iff {items : List Node} :
    (Node.form items).Recorded ledger ↔ ∀ item ∈ items, item.Recorded ledger := by
  constructor
  · rintro (hplain | _ | heach)
    · cases hplain
    · exact heach
  · exact .form

theorem recorded_entity_iff {e : Entity Node} : (Node.entity e).Recorded ledger ↔
    e.payload.Recorded ledger ∧ ∀ attr ∈ e.attrs, attr.2.Recorded ledger := by
  constructor
  · intro h
    cases h with
    | plain hplain => cases hplain
    | entity hpayload hattrs => exact ⟨hpayload, hattrs⟩
  · exact fun h => .entity h.1 h.2

theorem recorded_entities_iff {es : List (Entity Node)} {joined : Bool} :
    (Node.entities es joined).Recorded ledger ↔ ∀ e ∈ es, (Node.entity e).Recorded ledger := by
  constructor
  · intro h
    cases h with
    | plain hplain => cases hplain
    | entities heach => exact heach
  · exact .entities

theorem recorded_closure_iff {c : Closure Node} : (Node.closure c).Recorded ledger ↔
    ledger.Allows c ∧ c.body.Recorded ledger ∧
      ∀ binding ∈ c.scope.bindings, binding.2.Recorded ledger := by
  constructor
  · intro h
    cases h with
    | plain hplain => cases hplain
    | closure hallowed hbody hcaptured => exact ⟨hallowed, hbody, hcaptured⟩
  · exact fun h => .closure h.1 h.2.1 h.2.2

theorem Node.recorded_plain (kind : TypeTag) {payload : Node} (h : payload.Recorded ledger) :
    (Node.plain kind payload).Recorded ledger :=
  .entity h fun _ hattr => absurd hattr List.not_mem_nil

theorem Failure.recorded_toNode (failure : Failure) : failure.toNode.Recorded ledger :=
  Node.recorded_plain .error (.plain rfl)

/-- Whatever functions a ledger allows, recorded closures have numbers below its length. -/
theorem Node.Recorded.avoids {node : Node} (h : node.Recorded ledger) :
    node.Avoids [] ledger.length := by
  induction h with
  | plain hplain => exact .plain hplain
  | symbol name => exact .symbol List.not_mem_nil
  | form _ ih => exact .form ih
  | entity _ _ ihpayload ihattrs => exact .entity ihpayload ihattrs
  | entities _ ih => exact .entities ih
  | closure hallowed _ _ ihbody ihcaptured =>
    exact .closure hallowed.origin_lt ihbody ihcaptured

/-- **Where any function may carry any number below a bound,** only the bound counts. -/
theorem recorded_replicate_iff {bound : Nat} {node : Node} :
    node.Recorded (List.replicate bound Set.univ) ↔ node.Avoids [] bound := by
  constructor
  · intro h
    have hlength := h.avoids
    rwa [List.length_replicate] at hlength
  · intro h
    induction h with
    | plain hplain => exact .plain hplain
    | symbol hvisible => exact .symbol _
    | form _ ih => exact .form ih
    | entity _ _ ihpayload ihattrs => exact .entity ihpayload ihattrs
    | entities _ ih => exact .entities ih
    | closure horigin _ _ ihbody ihcaptured =>
      refine .closure ⟨Set.univ, ?_, Set.mem_univ _⟩ ihbody ihcaptured
      exact List.getElem?_replicate_of_lt horigin

end Recorded

/-! ### Recorded scopes -/

/-- **A recorded scope:** it enters no key twice and binds recorded nodes. -/
structure Scope.Recorded (ledger : Ledger) (scope : Scope Node) : Prop where
  distinct : scope.IsDistinct
  values : ∀ binding ∈ scope.bindings, binding.2.Recorded ledger

namespace Scope

variable {ledger later : Ledger} {scope : Scope Node}

theorem isDistinct_empty {α : Type} : (Scope.empty : Scope α).IsDistinct :=
  ⟨List.nodup_nil, List.nodup_nil⟩

theorem IsDistinct.unbindOrigin (h : scope.IsDistinct) (origin : Nat) :
    (scope.unbindOrigin origin).IsDistinct :=
  ⟨List.Nodup.sublist (List.Sublist.map _ List.filter_sublist) h.bindings, h.traits⟩

theorem Recorded.mono (hgrows : ledger.Grows later) (h : scope.Recorded ledger) :
    scope.Recorded later :=
  ⟨h.distinct, fun binding hbinding => (h.values binding hbinding).mono hgrows⟩

theorem Recorded.lookup? (h : scope.Recorded ledger) {name : String} {value : Node}
    (hlookup : scope.lookup? name = some value) : value.Recorded ledger :=
  h.values (name, value) (Table.mem_of_get? hlookup)

theorem Recorded.define (h : scope.Recorded ledger) (name : String) {value : Node}
    (hvalue : value.Recorded ledger) : (scope.define name value).Recorded ledger := by
  refine ⟨h.distinct.define name value, fun binding hbinding => ?_⟩
  rcases Table.mem_put hbinding with heq | hmem
  · rw [heq]
    exact hvalue
  · exact h.values binding hmem

theorem Recorded.defineAll (h : scope.Recorded ledger) {bindings : List (String × Node)}
    (hbindings : ∀ binding ∈ bindings, binding.2.Recorded ledger) :
    (scope.defineAll bindings).Recorded ledger := by
  induction bindings generalizing scope with
  | nil => exact h
  | cons binding rest ih =>
    rw [List.forall_mem_cons] at hbindings
    exact ih (h.define binding.1 hbindings.1) hbindings.2

theorem Recorded.unbindOrigin (h : scope.Recorded ledger) (origin : Nat) :
    (scope.unbindOrigin origin).Recorded ledger :=
  ⟨h.distinct.unbindOrigin origin,
    fun binding hbinding => h.values binding (List.mem_of_mem_filter hbinding)⟩

theorem Recorded.implement (h : scope.Recorded ledger) (type : TypeTag) (trait : TraitTag) :
    (scope.implement type trait).Recorded ledger :=
  ⟨h.distinct.implement type trait, by rw [bindings_implement]; exact h.values⟩

/-- Of a captured scope only the values matter, since the keys of the caller come first. -/
theorem Recorded.mergedWith {captured : Scope Node} (h : scope.Recorded ledger)
    (hcaptured : ∀ binding ∈ captured.bindings, binding.2.Recorded ledger) :
    (captured.mergedWith scope).Recorded ledger :=
  ⟨h.distinct.mergedWith captured, Table.forall_mem_overlay hcaptured h.values⟩

/-- Fixing a closure changes neither its number nor its function. -/
theorem recorded_fix {c : Closure Node} (hc : (Node.closure c).Recorded ledger)
    (h : scope.Recorded ledger) :
    (Node.closure (c.fix (scope.mergedWith c.scope))).Recorded ledger := by
  obtain ⟨⟨codes, hcodes, hcode⟩, hbody, hcaptured⟩ := recorded_closure_iff.mp hc
  have hallowed : ledger.Allows (c.fix (scope.mergedWith c.scope)) :=
    ⟨codes, by rw [Closure.origin_fix, hcodes], by rwa [Closure.code_fix]⟩
  refine recorded_closure_iff.mpr ⟨hallowed, ?_⟩
  unfold Closure.fix
  split
  · exact ⟨hbody, hcaptured⟩
  · exact ⟨hbody, Table.forall_mem_overlay h.values hcaptured⟩

theorem Recorded.fixClosures (h : scope.Recorded ledger) : scope.fixClosures.Recorded ledger :=
  fixClosures_induction h fun _ name _ hcurrent hbinding _ =>
    hcurrent.define name (recorded_fix (h.values _ hbinding) hcurrent)

end Scope

/-! ### Recorded states -/

/-- **A recorded state:** the ledger has an entry for each number below the next one, and records
the scope. -/
structure RunState.Recorded (ledger : Ledger) (state : RunState) : Prop where
  scope : state.scope.Recorded ledger
  next : state.nextOrigin = ledger.length

namespace RunState.Recorded

variable {ledger : Ledger} {state : RunState}

theorem reporting (h : state.Recorded ledger) (event : Event) :
    (state.reporting event).Recorded ledger := ⟨h.scope, h.next⟩

theorem inScope (h : state.Recorded ledger) {scope : Scope Node} (hscope : scope.Recorded ledger) :
    (state.inScope scope).Recorded ledger := ⟨hscope, h.next⟩

end RunState.Recorded

end EntityLisp
