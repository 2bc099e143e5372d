import EntityLisp.Proofs.EntryOrder
import EntityLisp.Proofs.Pools

/-!
# Sharing is not seen

Environments that share their tables until one of them is changed show the same as scopes that are
values.

* `ScopeStep`: what is done with environments. `ScopeStep.onShared` does it with shared tables, and
  `ScopeStep.onScopes` with scopes that are copied at once.
* `SharedScopes.Represents`: environments that show a list of scopes. A step keeps this
  (`SharedScopes.Represents.step`), and so does a whole session (`SharedScopes.Represents.run`).
* `sharing_is_unseen`: **whatever is done with environments, they show what scopes would show that
  are copied at once,** no change is seen through another environment, and entries keep their order.
-/

namespace EntityLisp

/-! ### Sessions of environments -/

/-- **What is done with environments,** which are numbered in the order in which they are made. -/
inductive ScopeStep (α : Type) where
  | new (bindings : List (String × α)) (traits : List (TypeTag × List TraitTag))
  | clone (number : Nat)
  | merge (number caller : Nat)
  | define (number : Nat) (name : String) (value : α)
  | remove (number : Nat) (name : String)
  | implement (number : Nat) (type : TypeTag) (trait : TraitTag)

namespace ScopeStep

variable {α : Type}

/-- The environment that a step changes. -/
def target? : ScopeStep α → Option Nat
  | .new .. | .clone _ | .merge .. => none
  | .define number .. | .remove number _ | .implement number .. => some number

/-- A step with environments that share tables. A declaration is answered by whether it is new. -/
def onShared (environments : SharedScopes α) : ScopeStep α → Option Bool × SharedScopes α
  | .new bindings traits => (none, environments.add (.ofEntries bindings traits))
  | .clone number => (none, environments.clone number)
  | .merge number caller => (none, environments.merge number caller)
  | .define number name value => (none, environments.define number name value)
  | .remove number name => (none, environments.remove number name)
  | .implement number type trait =>
    let (fresh, environments) := environments.implement number type trait
    (some fresh, environments)

/-- **A step with scopes that are copied at once.** -/
def onScopes (scopes : List (Scope α)) : ScopeStep α → Option Bool × List (Scope α)
  | .new bindings traits => (none, scopes ++ [.ofEntries bindings traits])
  | .clone number => (none, scopes ++ scopes[number]?.toList)
  | .merge number caller =>
    match scopes[number]?, scopes[caller]? with
    | some scope, some callerScope => (none, scopes ++ [scope.mergedWith callerScope])
    | _, _ => (none, scopes)
  | .define number name value => (none, scopes.modify number (·.define name value))
  | .remove number name => (none, scopes.modify number (·.remove name))
  | .implement number type trait =>
    (some (scopes[number]?.any fun scope => !scope.hasTrait type trait),
      scopes.modify number (·.implement type trait))

/-- Does steps one after the other, and gives their answers and the last state. -/
def run {σ : Type} (act : σ → ScopeStep α → Option Bool × σ) :
    σ → List (ScopeStep α) → List (Option Bool) × σ
  | state, [] => ([], state)
  | state, step :: rest =>
    let (answer, after) := act state step
    let (answers, last) := run act after rest
    (answer :: answers, last)

end ScopeStep

/-! ### Steps -/

namespace SharedScopes

variable {α : Type}

/-- **Environments that show a list of scopes,** by number. -/
structure Represents (environments : SharedScopes α) (scopes : List (Scope α)) : Prop where
  bindings : environments.bindings.Shows (scopes.map Scope.bindings)
  traits : environments.traits.Shows (scopes.map Scope.traits)

theorem represents_empty : (empty : SharedScopes α).Represents [] :=
  ⟨Pool.shows_empty, Pool.shows_empty⟩

namespace Represents

variable {environments : SharedScopes α} {scopes : List (Scope α)}
  (h : environments.Represents scopes)

include h

theorem scope?_eq (number : Nat) : environments.scope? number = scopes[number]? := by
  rw [scope?, h.bindings.shown, h.traits.shown, List.getElem?_map, List.getElem?_map]
  cases scopes[number]? <;> rfl

theorem add (scope : Scope α) : (environments.add scope).Represents (scopes ++ [scope]) := by
  refine ⟨?_, ?_⟩
  · rw [List.map_append]
    exact h.bindings.add scope.bindings
  · rw [List.map_append]
    exact h.traits.add scope.traits

theorem clone (number : Nat) :
    (environments.clone number).Represents (scopes ++ scopes[number]?.toList) := by
  have hpart : ∀ {β : Type} (part : Scope α → β), (scopes ++ scopes[number]?.toList).map part =
      scopes.map part ++ (scopes.map part)[number]?.toList := by
    intro β part
    rw [List.map_append, List.getElem?_map]
    cases scopes[number]? <;> rfl
  refine ⟨?_, ?_⟩
  · rw [hpart]
    exact h.bindings.share number
  · rw [hpart]
    exact h.traits.share number

theorem merge (number caller : Nat) : (environments.merge number caller).Represents
    (ScopeStep.onScopes scopes (.merge number caller)).2 := by
  rw [SharedScopes.merge, h.scope?_eq, h.scope?_eq, ScopeStep.onScopes]
  cases scopes[number]? with
  | none => exact h
  | some scope =>
    cases scopes[caller]? with
    | none => exact h
    | some callerScope => exact h.add _

/-- A change of the bindings of one environment. -/
theorem changeBindings (change : Scope α → Scope α) (f : Table String α → Table String α)
    (hbindings : ∀ scope, (change scope).bindings = f scope.bindings)
    (htraits : ∀ scope, (change scope).traits = scope.traits) (number : Nat) :
    ({ environments with bindings := environments.bindings.write number f } :
      SharedScopes α).Represents (scopes.modify number change) := by
  refine ⟨?_, ?_⟩
  · rw [map_modify hbindings]
    exact h.bindings.write number f
  · rw [map_modify_eq_map htraits]
    exact h.traits

/-- A change of the traits of one environment. -/
theorem changeTraits (change : Scope α → Scope α)
    (f : Table TypeTag TraitSet → Table TypeTag TraitSet)
    (hbindings : ∀ scope, (change scope).bindings = scope.bindings)
    (htraits : ∀ scope, (change scope).traits = f scope.traits) (number : Nat) :
    ({ environments with traits := environments.traits.write number f } :
      SharedScopes α).Represents (scopes.modify number change) := by
  refine ⟨?_, ?_⟩
  · rw [map_modify_eq_map hbindings]
    exact h.bindings
  · rw [map_modify htraits]
    exact h.traits.write number f

/-- Nothing is copied for a name that is not bound. -/
theorem remove (number : Nat) (name : String) :
    (environments.remove number name).Represents (scopes.modify number (·.remove name)) := by
  rw [SharedScopes.remove, h.bindings.shown, List.getElem?_map]
  cases hscope : scopes[number]? with
  | none =>
    rw [modify_of_none hscope]
    exact h
  | some scope =>
    rw [Option.map_some, Option.bind_some]
    cases hbound : Table.get? name scope.bindings with
    | none =>
      have hsame : scope.remove name = scope := by
        rw [Scope.remove, Table.remove_of_get?_eq_none hbound]
      rw [modify_of_some hscope hsame]
      exact h
    | some value =>
      exact h.changeBindings (·.remove name) (Table.remove name) (fun _ => rfl) (fun _ => rfl)
        number

/-- Nothing is copied for a trait that is declared already. -/
theorem implement (number : Nat) (type : TypeTag) (trait : TraitTag) :
    (environments.implement number type trait).1 =
        scopes[number]?.any (fun scope => !scope.hasTrait type trait) ∧
      (environments.implement number type trait).2.Represents
        (scopes.modify number (·.implement type trait)) := by
  rw [SharedScopes.implement, h.traits.shown, List.getElem?_map]
  cases hscope : scopes[number]? with
  | none =>
    rw [modify_of_none hscope]
    exact ⟨rfl, h⟩
  | some scope =>
    show (if scope.hasTrait type trait then _ else _ : Bool × SharedScopes α).1 = _ ∧
      SharedScopes.Represents (if scope.hasTrait type trait then _ else _ :
        Bool × SharedScopes α).2 _
    by_cases hhas : scope.hasTrait type trait = true
    · have hsame : scope.implement type trait = scope := by
        rw [Scope.implement, if_pos hhas]
      rw [if_pos hhas, modify_of_some hscope hsame]
      exact ⟨by simp [hhas], h⟩
    · -- the set that is entered is that of this environment
      let declare : Table TypeTag TraitSet → Table TypeTag TraitSet :=
        Table.put type ((scope.traitsFor type).insert trait)
      let change : Scope α → Scope α := fun scope => { scope with traits := declare scope.traits }
      have hchange : scope.implement type trait = change scope := by
        rw [Scope.implement, if_neg hhas]
      rw [if_neg hhas, modify_congr_of_some hscope hchange]
      exact ⟨by simp [hhas], h.changeTraits change declare (fun _ => rfl) (fun _ => rfl) number⟩

/-- **One step with shared tables** answers and shows the same as the step with scopes. -/
theorem step (step : ScopeStep α) :
    (step.onShared environments).1 = (step.onScopes scopes).1 ∧
      (step.onShared environments).2.Represents (step.onScopes scopes).2 := by
  cases step with
  | new bindings traits => exact ⟨rfl, h.add _⟩
  | clone number => exact ⟨rfl, h.clone number⟩
  | merge number caller =>
    refine ⟨?_, h.merge number caller⟩
    rw [ScopeStep.onScopes]
    split <;> rfl
  | define number name value =>
    exact ⟨rfl, h.changeBindings (·.define name value) (Table.put name value) (fun _ => rfl)
      (fun _ => rfl) number⟩
  | remove number name => exact ⟨rfl, h.remove number name⟩
  | implement number type trait =>
    exact ⟨congrArg some (h.implement number type trait).1, (h.implement number type trait).2⟩

end Represents

end SharedScopes

/-! ### Whole sessions -/

namespace ScopeStep

variable {α : Type}

theorem isDistinct_onScopes {scopes : List (Scope α)} (h : ∀ scope ∈ scopes, scope.IsDistinct)
    (step : ScopeStep α) : ∀ scope ∈ (step.onScopes scopes).2, scope.IsDistinct := by
  cases step with
  | new bindings traits =>
    exact List.forall_mem_append.mpr ⟨h, by simpa using .ofEntries bindings traits⟩
  | clone number =>
    refine List.forall_mem_append.mpr ⟨h, fun scope hscope => ?_⟩
    exact h scope (List.mem_of_getElem? (Option.mem_toList.mp hscope))
  | merge number caller =>
    rw [onScopes]
    split
    · next scope callerScope hscope hcaller =>
      refine List.forall_mem_append.mpr ⟨h, ?_⟩
      simpa using (h callerScope (List.mem_of_getElem? hcaller)).mergedWith scope
    · exact h
  | define number name value => exact forall_mem_modify h (fun _ hx => hx.define name value) number
  | remove number name => exact forall_mem_modify h (fun _ hx => hx.remove name) number
  | implement number type trait =>
    exact forall_mem_modify h (fun _ hx => hx.implement type trait) number

/-- **A step changes no other scope** than the one that it is about. -/
theorem getElem?_onScopes {scopes : List (Scope α)} {step : ScopeStep α} {number : Nat}
    {scope : Scope α} (hne : step.target? ≠ some number) (h : scopes[number]? = some scope) :
    (step.onScopes scopes).2[number]? = some scope := by
  have hlt : number < scopes.length := (List.getElem?_eq_some_iff.mp h).choose
  have hmodify : ∀ (target : Nat) (f : Scope α → Scope α), target ≠ number →
      (scopes.modify target f)[number]? = some scope := by
    intro target f htarget
    rw [List.getElem?_modify, h]
    simp [htarget]
  cases step with
  | new bindings traits => rw [onScopes, List.getElem?_append_left hlt, h]
  | clone source => rw [onScopes, List.getElem?_append_left hlt, h]
  | merge source caller =>
    rw [onScopes]
    split
    · rw [List.getElem?_append_left hlt, h]
    · exact h
  | define target name value => exact hmodify target _ fun heq => hne (congrArg some heq)
  | remove target name => exact hmodify target _ fun heq => hne (congrArg some heq)
  | implement target type trait => exact hmodify target _ fun heq => hne (congrArg some heq)

theorem isDistinct_run {scopes : List (Scope α)} (h : ∀ scope ∈ scopes, scope.IsDistinct)
    (steps : List (ScopeStep α)) :
    ∀ scope ∈ (run onScopes scopes steps).2, scope.IsDistinct := by
  induction steps generalizing scopes with
  | nil => exact h
  | cons step rest ih => exact ih (isDistinct_onScopes h step)

end ScopeStep

/-- **A session with shared tables** answers and shows the same as one with scopes. -/
theorem SharedScopes.Represents.run {α : Type} {environments : SharedScopes α}
    {scopes : List (Scope α)} (h : environments.Represents scopes) (steps : List (ScopeStep α)) :
    (ScopeStep.run ScopeStep.onShared environments steps).1 =
        (ScopeStep.run ScopeStep.onScopes scopes steps).1 ∧
      (ScopeStep.run ScopeStep.onShared environments steps).2.Represents
        (ScopeStep.run ScopeStep.onScopes scopes steps).2 := by
  induction steps generalizing environments scopes with
  | nil => exact ⟨rfl, h⟩
  | cons step rest ih =>
    obtain ⟨hanswer, hafter⟩ := h.step step
    obtain ⟨hanswers, hlast⟩ := ih hafter
    exact ⟨congrArg₂ List.cons hanswer hanswers, hlast⟩

section Sessions

variable {α : Type}

/-- What steps with environments that share tables answer, and these environments after them. -/
def ScopeStep.shared (steps : List (ScopeStep α)) : List (Option Bool) × SharedScopes α :=
  run onShared .empty steps

/-- What the same steps answer with scopes that are copied at once, and these scopes after them. -/
def ScopeStep.copied (steps : List (ScopeStep α)) : List (Option Bool) × List (Scope α) :=
  run onScopes [] steps

/-- **Sharing is not seen.** Whatever is done with environments, in whatever order, the answers are
those that scopes would give which are copied at once, and each environment shows just the
scope of its number: the bindings and the traits in order, and so all that can be looked up in
them. No step is seen through another environment than the one that it changes. A bound name
keeps its place when it is bound again, a name that was removed goes to the end, and in a merged
scope the keys of the caller come first, the values of the other one win and traits are united. -/
theorem sharing_is_unseen (steps : List (ScopeStep α)) :
    (ScopeStep.shared steps).1 = (ScopeStep.copied steps).1 ∧
      (∀ number, (ScopeStep.shared steps).2.scope? number =
        (ScopeStep.copied steps).2[number]?) ∧
      (∀ number scope (step : ScopeStep α), step.target? ≠ some number →
        (ScopeStep.shared steps).2.scope? number = some scope →
          (step.onShared (ScopeStep.shared steps).2).2.scope? number = some scope) ∧
      ∀ number scope, (ScopeStep.shared steps).2.scope? number = some scope →
        scope.EntersInOrder ∧
          ∀ other caller, (ScopeStep.shared steps).2.scope? other = some caller →
            scope.MergesInOrder caller := by
  obtain ⟨hanswers, hrepresents⟩ : (ScopeStep.shared steps).1 = (ScopeStep.copied steps).1 ∧
      (ScopeStep.shared steps).2.Represents (ScopeStep.copied steps).2 :=
    SharedScopes.represents_empty.run steps
  refine ⟨hanswers, hrepresents.scope?_eq, fun number scope step hne hscope => ?_,
    fun number scope hscope => ⟨scope.entersInOrder, fun other caller _ => ?_⟩⟩
  · have hshown := hrepresents.scope?_eq number
    rw [(hrepresents.step step).2.scope?_eq]
    exact ScopeStep.getElem?_onScopes hne (hshown.symm.trans hscope)
  · have hmem : scope ∈ (ScopeStep.copied steps).2 :=
      List.mem_of_getElem? ((hrepresents.scope?_eq number).symm.trans hscope)
    have hnone : ∀ scope ∈ ([] : List (Scope α)), scope.IsDistinct := fun _ h =>
      absurd h List.not_mem_nil
    exact (ScopeStep.isDistinct_run hnone steps scope hmem).mergesInOrder caller

end Sessions

/-- An environment, its clone, and a clone of that, each of which is changed after the last one was
made; at the end the first one is folded into the third. -/
def cloningSteps : List (ScopeStep Nat) :=
  [.new [("x", 1), ("y", 2)] [(.noun, [.numeric])], .clone 0, .define 1 "z" 3, .clone 1,
    .define 0 "x" 10, .remove 2 "x", .define 2 "x" 20, .implement 2 .noun .relatable, .merge 2 0]

/-- What the environments of these steps show, and that none of it is changed when the second one
is changed once more. -/
theorem sharing_is_unseen_cloningSteps :
    (ScopeStep.shared cloningSteps).2.scope? 0 =
        some ⟨[("x", 10), ("y", 2)], [(.noun, .ofList [.numeric])]⟩ ∧
      (ScopeStep.shared cloningSteps).2.scope? 1 =
        some ⟨[("x", 1), ("y", 2), ("z", 3)], [(.noun, .ofList [.numeric])]⟩ ∧
      (ScopeStep.shared cloningSteps).2.scope? 3 =
        some ⟨[("x", 20), ("y", 2), ("z", 3)], [(.noun, .ofList [.numeric, .relatable])]⟩ ∧
      ((ScopeStep.define 1 "w" 4).onShared (ScopeStep.shared cloningSteps).2).2.scope? 2 =
        some ⟨[("y", 2), ("z", 3), ("x", 20)], [(.noun, .ofList [.numeric, .relatable])]⟩ := by
  obtain ⟨-, hshown, hothers, -⟩ := sharing_is_unseen cloningSteps
  have hthird : (ScopeStep.shared cloningSteps).2.scope? 2 =
      some ⟨[("y", 2), ("z", 3), ("x", 20)], [(.noun, .ofList [.numeric, .relatable])]⟩ :=
    (hshown 2).trans rfl
  exact ⟨(hshown 0).trans rfl, (hshown 1).trans rfl, (hshown 3).trans rfl,
    hothers 2 _ (.define 1 "w" 4) (by decide) hthird⟩

end EntityLisp
