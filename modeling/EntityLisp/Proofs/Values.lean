import EntityLisp.Proofs.Results
import EntityLisp.Proofs.Rounding
import EntityLisp.Run.Evaluate
import Mathlib.Data.List.Basic

/-!
# Well-formed values and programs

`Node.IsValue` says what evaluation may hand out: a bare atom that is no symbol, an entity whose
payload suits its type, a list of such entities, or a closure over such values. `Node.IsProgram`
says what may be evaluated: a tree of symbols, forms and such values. The two refer to each other,
since the body of a closure is a program and a program may hold values.

A scope `IsFit` if it binds well-formed values only. The operations on scopes keep that
(`Scope.IsFit.mergedWith`, `Scope.IsFit.fixClosures` and the like), and the steps of evaluation
that are no evaluations themselves give well-formed results from well-formed ones.
-/

namespace EntityLisp

/-! ### The predicates -/

/-- Whether a node is an entity of type `Adjective`. -/
def Node.isAdjective : Node → Bool
  | .entity e => e.kind == .adjective
  | _ => false

/-- **A well-formed entity:** its payload has the shape of its type, and its adjective, if it has
one, is an entity of that type. -/
structure Entity.IsFit (e : Entity Node) : Prop where
  accepts : e.kind.accepts e.payload = true
  adjective : ∀ value, Table.get? adjectiveKey e.attrs = some value → value.isAdjective = true

namespace Node

mutual

/-- **A well-formed value.** -/
inductive IsValue : Node → Prop where
  | nil : IsValue .nil
  | bool (value : Bool) : IsValue (.bool value)
  | int (value : Int) : IsValue (.int value)
  | float (value : Binary64) : IsValue (.float value)
  | str (text : String) : IsValue (.str text)
  | keyword (name : String) : IsValue (.keyword name)
  | entity {e : Entity Node} (isFit : e.IsFit) : IsValue (.entity e)
  | entities {es : List (Entity Node)} (all : ∀ e ∈ es, e.IsFit ∧ e.kind.isListable = true) :
    IsValue (.entities es false)
  | closure {c : Closure Node} (distinct : (c.params.map (·.1)).Nodup)
    (captured : ∀ binding ∈ c.scope.bindings, IsValue binding.2) (body : IsProgram c.body) :
    IsValue (.closure c)

/-- **A well-formed program:** a tree of symbols and forms in which well-formed values stand. -/
inductive IsProgram : Node → Prop where
  | symbol (name : String) : IsProgram (.symbol name)
  | form {items : List Node} (all : ∀ item ∈ items, IsProgram item) : IsProgram (.form items)
  | value {node : Node} (isValue : IsValue node) : IsProgram node

end

theorem isProgram_form_iff {items : List Node} :
    IsProgram (.form items) ↔ ∀ item ∈ items, IsProgram item := by
  constructor
  · rintro (_ | hall | hvalue)
    · exact hall
    · cases hvalue
  · exact IsProgram.form

/-- A program that is neither a symbol nor a form is a value. -/
theorem IsProgram.isValue {node : Node} (h : IsProgram node) (hform : node.isForm = false)
    (hsymbol : ∀ name, node ≠ .symbol name) : IsValue node := by
  rcases h with name | hall | hvalue
  · exact absurd rfl (hsymbol name)
  · cases hform
  · exact hvalue

end Node

open Node

/-- **A well-formed scope** binds well-formed values only. -/
def Scope.IsFit (scope : Scope Node) : Prop := ∀ binding ∈ scope.bindings, binding.2.IsValue

/-! ### Entries of tables -/

namespace Table

variable {κ α : Type} [DecidableEq κ]

theorem mem_of_get? {key : κ} {value : α} {table : Table κ α} (h : get? key table = some value) :
    (key, value) ∈ table := by
  induction table with
  | nil => cases h
  | cons entry rest ih =>
    obtain ⟨k, v⟩ := entry
    by_cases hk : k = key
    · rw [get?, if_pos hk] at h
      cases h
      rw [hk]
      exact List.mem_cons_self
    · rw [get?, if_neg hk] at h
      exact List.mem_cons_of_mem _ (ih h)

theorem mem_put {key : κ} {value : α} {table : Table κ α} {entry : κ × α}
    (h : entry ∈ put key value table) : entry.2 = value ∨ entry ∈ table := by
  induction table with
  | nil =>
    obtain rfl := List.mem_singleton.mp h
    exact Or.inl rfl
  | cons first rest ih =>
    obtain ⟨k, v⟩ := first
    by_cases hk : k = key
    · rw [put, if_pos hk] at h
      rcases List.mem_cons.mp h with rfl | h
      · exact Or.inl rfl
      · exact Or.inr (List.mem_cons_of_mem _ h)
    · rw [put, if_neg hk] at h
      rcases List.mem_cons.mp h with rfl | h
      · exact Or.inr List.mem_cons_self
      · rcases ih h with h | h
        · exact Or.inl h
        · exact Or.inr (List.mem_cons_of_mem _ h)

/-- What holds of all values of two tables holds of those of the table of both. -/
theorem forall_mem_overlay {P : α → Prop} {upper lower : Table κ α}
    (hupper : ∀ entry ∈ upper, P entry.2) (hlower : ∀ entry ∈ lower, P entry.2) :
    ∀ entry ∈ overlay upper lower, P entry.2 := by
  induction upper generalizing lower with
  | nil => exact hlower
  | cons first rest ih =>
    obtain ⟨k, v⟩ := first
    rw [List.forall_mem_cons] at hupper
    refine ih hupper.2 fun entry hentry => ?_
    rcases mem_put hentry with heq | hmem
    · rw [heq]
      exact hupper.1
    · exact hlower entry hmem

end Table

/-! ### Scopes -/

namespace Scope

variable {scope : Scope Node}

theorem isFit_empty : (Scope.empty : Scope Node).IsFit := fun _ h => absurd h List.not_mem_nil

theorem IsFit.lookup? (h : scope.IsFit) {name : String} {value : Node}
    (hlookup : scope.lookup? name = some value) : value.IsValue :=
  h (name, value) (Table.mem_of_get? hlookup)

theorem IsFit.define (h : scope.IsFit) (name : String) {value : Node} (hvalue : value.IsValue) :
    (scope.define name value).IsFit := by
  intro binding hbinding
  rcases Table.mem_put hbinding with heq | hmem
  · rw [heq]
    exact hvalue
  · exact h binding hmem

theorem IsFit.defineAll (h : scope.IsFit) {bindings : List (String × Node)}
    (hbindings : ∀ binding ∈ bindings, binding.2.IsValue) : (scope.defineAll bindings).IsFit := by
  induction bindings generalizing scope with
  | nil => exact h
  | cons binding rest ih =>
    rw [List.forall_mem_cons] at hbindings
    exact ih (h.define binding.1 hbindings.1) hbindings.2

theorem IsFit.unbindOrigin (h : scope.IsFit) (origin : Nat) :
    (scope.unbindOrigin origin).IsFit :=
  fun binding hbinding => h binding (List.mem_of_mem_filter hbinding)

theorem IsFit.implement (h : scope.IsFit) (type : TypeTag) (trait : TraitTag) :
    (scope.implement type trait).IsFit := by
  unfold IsFit
  rwa [bindings_implement]

theorem IsFit.mergedWith {caller : Scope Node} (h : scope.IsFit) (hcaller : caller.IsFit) :
    (scope.mergedWith caller).IsFit :=
  Table.forall_mem_overlay h hcaller

/-- Fixing a closure captures a well-formed scope. -/
theorem isValue_fix {c : Closure Node} (hc : (Node.closure c).IsValue)
    (h : scope.IsFit) : (Node.closure (c.fix (scope.mergedWith c.scope))).IsValue := by
  cases hc with
  | closure distinct captured body =>
    unfold Closure.fix
    split
    · exact IsValue.closure distinct captured body
    · exact IsValue.closure distinct (h.mergedWith captured) body

/-- **Induction along fixing:** what is kept when a pending closure of the scope is fixed, in the
scope that the ones before it have left, holds after all are fixed. -/
theorem fixClosures_induction {P : Scope Node → Prop} (hscope : P scope)
    (hfix : ∀ current name c, P current → (name, Node.closure c) ∈ scope.bindings →
      c.fixed = false → P (current.define name (.closure (c.fix (current.mergedWith c.scope))))) :
    P scope.fixClosures := by
  -- the fold runs over the bindings of the scope while it changes the scope itself
  have hfold : ∀ (bindings : List (String × Node)) (current : Scope Node), P current →
      (∀ binding ∈ bindings, binding ∈ scope.bindings) → P (bindings.foldl fixBinding current) := by
    intro bindings
    induction bindings with
    | nil => exact fun current hcurrent _ => hcurrent
    | cons binding rest ih =>
      intro current hcurrent hbindings
      rw [List.forall_mem_cons] at hbindings
      refine ih _ ?_ hbindings.2
      obtain ⟨name, value⟩ := binding
      unfold fixBinding
      split
      · next c heq =>
        obtain rfl : value = .closure c := heq
        split
        · exact hcurrent
        · next hpending => exact hfix current name c hcurrent hbindings.1 (by simpa using hpending)
      · exact hcurrent
  exact hfold scope.bindings scope hscope fun _ hbinding => hbinding

/-- **Fixing the closures of a scope** keeps it well formed. -/
theorem IsFit.fixClosures (h : scope.IsFit) : scope.fixClosures.IsFit :=
  fixClosures_induction h fun _ name _ hcurrent hbinding _ =>
    hcurrent.define name (isValue_fix (h _ hbinding) hcurrent)

end Scope

/-! ### Entities -/

theorem Failure.isFit_toEntity (failure : Failure) : failure.toEntity.IsFit :=
  ⟨rfl, fun _ h => by cases h⟩

/-- An error entity is a well-formed value. -/
theorem Failure.isValue_toNode (failure : Failure) : failure.toNode.IsValue :=
  IsValue.entity failure.isFit_toEntity

theorem Node.isValue_plain {kind : TypeTag} {payload : Node}
    (h : kind.accepts payload = true) : (Node.plain kind payload).IsValue :=
  IsValue.entity ⟨h, fun _ hadjective => by cases hadjective⟩

theorem Node.isValue_truth (value : Bool) : (Node.truth value).IsValue :=
  isValue_plain rfl

theorem isFit_of_makeEntity {typeName : String} {payload : Node} {e : Entity Node}
    (h : makeEntity typeName payload [] = .ok e) : e.IsFit := by
  unfold makeEntity at h
  split at h
  · cases h
  · next kind _ =>
    split at h
    · cases h
    · next shape hshape =>
      split at h
      · next hpayload =>
        cases h
        refine ⟨?_, fun _ hadjective => by cases hadjective⟩
        simp [TypeTag.accepts, hshape, hpayload]
      · cases h

/-- The payload of a well-formed entity is an atom. -/
theorem Entity.IsFit.isValue_payload {e : Entity Node} (h : e.IsFit) : e.payload.IsValue := by
  -- every shape that a type asks for is that of an atom
  have haccepts := h.accepts
  generalize e.payload = payload at haccepts
  cases payload with
  | nil => exact IsValue.nil
  | bool value => exact IsValue.bool value
  | int n => exact IsValue.int n
  | float x => exact IsValue.float x
  | str text => exact IsValue.str text
  | keyword name => exact IsValue.keyword name
  | _ => cases hkind : e.kind <;> rw [hkind] at haccepts <;> cases haccepts

/-- What a value lends as a payload is a value. -/
theorem isValue_lentPayload {value : Node} (h : value.IsValue) : value.lentPayload.IsValue := by
  unfold lentPayload
  split
  · next e =>
    split
    · exact h
    · cases h with
      | entity hfit => exact hfit.isValue_payload
  · exact h

/-- The parameters of a signature have distinct names. -/
theorem nodup_of_readSignature {params returns type : Node} {names : List (String × TypeTag)}
    {result : TypeTag} (h : readSignature params returns type = .ok (names, result)) :
    (names.map (·.1)).Nodup := by
  unfold readSignature at h
  split at h
  · split at h
    · obtain ⟨params', hparams, h⟩ := Except.bind_eq_ok_iff.mp h
      split at h
      · cases h
      · cases h
        exact (nodup_readParams hparams).1
    · cases h
  · cases h

/-! ### Values in and out of applications -/

theorem isValue_coerce {kind : TypeTag} {value result : Node} (hvalue : value.IsValue)
    (h : coerce kind value = .ok result) : result.IsValue := by
  unfold coerce at h
  split at h
  · cases h
    exact isValue_plain rfl
  · cases h
    exact isValue_plain rfl
  · split at h
    · cases h
      exact isValue_plain rfl
    · cases h
  · cases h
    exact isValue_plain rfl
  · cases h
    exact isValue_plain rfl
  · cases h
    exact hvalue

/-- **When a value cannot be coerced:** it is an integer that is too large for a floating-point
number. -/
theorem coerce_eq_error_iff {kind : TypeTag} {value : Node} {error : ArithmeticError} :
    coerce kind value = .error error ↔ error = .integerTooLarge ∧ kind = .float ∧
      ∃ n, value = .int n ∧ Binary64.overflow ≤ n.natAbs := by
  -- rounding is the only coercion that can fail
  unfold coerce
  split
  · simp
  · simp
  · next n =>
    have hnone := Binary64.ofInt?_eq_none_iff n
    cases hn : Binary64.ofInt? n with
    | none =>
      have hlarge := hnone.mp hn
      simp [hlarge, eq_comm]
    | some x =>
      have hsmall : ¬Binary64.overflow ≤ n.natAbs := by
        rw [← hnone, hn]
        simp
      simp [hsmall]
  · simp
  · simp
  · next hfloat _ _ =>
    constructor
    · rintro ⟨⟩
    · rintro ⟨-, rfl, n, rfl, -⟩
      exact absurd rfl (hfloat n rfl)

theorem isValue_argumentFor {type : TypeTag} {value result : Node} (hvalue : value.IsValue)
    (h : argumentFor type value = .ok result) : result.IsValue := by
  unfold argumentFor at h
  split at h
  · cases h
    exact hvalue
  · cases h
    exact hvalue
  · exact isValue_coerce hvalue (Except.mapError_eq_ok_iff.mp h)

theorem isValue_bindArgument {name : String} {type : TypeTag} {value result : Node}
    (hvalue : value.IsValue) (h : bindArgument name type value = .ok (.ok result)) :
    result.IsValue := by
  unfold bindArgument at h
  split at h
  · cases h
  · obtain ⟨coerced, hcoerced, heq⟩ := Except.map_eq_ok_iff.mp h
    split at heq
    · cases heq
      exact isValue_argumentFor hvalue hcoerced
    · cases heq

/-- **When a value cannot be bound** to a parameter at all: it cannot be coerced to its type. -/
theorem bindArgument_eq_error_iff {name : String} {type : TypeTag} {value : Node}
    {error : EvalError} :
    bindArgument name type value = .error error ↔ error = .arithmetic .integerTooLarge ∧
      type = .float ∧ ∃ n, value = .int n ∧ Binary64.overflow ≤ n.natAbs := by
  unfold bindArgument
  split
  · simp
  · rw [Except.map_eq_error_iff]
    unfold argumentFor
    split
    · simp
    · simp
    · rw [Except.mapError_eq_error_iff]
      simp only [coerce_eq_error_iff]
      constructor
      · rintro ⟨cause, ⟨rfl, hcause⟩, rfl⟩
        exact ⟨rfl, hcause⟩
      · rintro ⟨rfl, hcause⟩
        exact ⟨.integerTooLarge, ⟨rfl, hcause⟩, rfl⟩

theorem isValue_checkResult {returns : TypeTag} {value : Node} (h : value.IsValue) :
    (checkResult returns value).IsValue := by
  unfold checkResult
  split
  · exact h
  · split
    · exact h
    · exact Failure.isValue_toNode _
  · exact Failure.isValue_toNode _

theorem isValue_compareValues {left right value : Node}
    (h : compareValues left right = .ok value) : value.IsValue := by
  unfold compareValues at h
  obtain ⟨a, -, h⟩ := Except.bind_eq_ok_iff.mp h
  obtain ⟨b, -, rfl⟩ := Except.map_eq_ok_iff.mp h
  exact isValue_truth _

end EntityLisp
