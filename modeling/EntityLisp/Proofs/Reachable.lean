import EntityLisp.Proofs.Makings

/-!
# Reachable states

The states that a program can be in, at the top level or in the middle of an evaluation. Such a
state is sound: its scope enters no key twice, and the closures that it holds have numbers below
the next one. Both follow from the books of an evaluation, which record its outcome and whatever
it reaches.

* `RunState.Reachable.isSound`: **reachable states are sound.**
-/

namespace EntityLisp

open Node Run

variable {ledger : Ledger}

/-- **An evaluation leaves a recorded state,** however it ends. -/
theorem exists_recorded_eval (limit levels : Nat) {node : Node} {state : RunState}
    (hnode : node.Recorded ledger) (hstate : state.Recorded ledger) :
    ∃ later, (finalState (eval limit levels node state)).Recorded later := by
  obtain ⟨later, -, hkept⟩ :=
    exists_accounts limit levels (World.recorded_fresh ledger) hnode hstate
  exact ⟨later, hkept.state⟩

/-- **All evaluations that an evaluation makes** are made in recorded states. -/
theorem Reaches.exists_recorded {limit : Nat} {start e : Evaluation} (h : Reaches limit start e)
    (hnode : start.node.Recorded ledger) (hstate : start.state.Recorded ledger) :
    ∃ later, e.state.Recorded later := by
  obtain ⟨last, haccounts, -⟩ :=
    exists_accounts limit start.levels (World.recorded_fresh ledger) hnode hstate
  obtain ⟨before, _, -, -, -, hrecorded⟩ := haccounts.recorded ⟨.fresh, limit, e⟩ ⟨rfl, rfl, h⟩
  exact ⟨before, hrecorded.state⟩

/-! ### Sound states -/

/-- **A sound state:** its scope enters no key twice, and no closure in it has a number that is
still to be given out. -/
structure RunState.IsSound (state : RunState) : Prop where
  distinct : state.scope.IsDistinct
  avoids : state.scope.Avoids [] state.nextOrigin

theorem RunState.isSound_iff_recorded {state : RunState} :
    state.IsSound ↔ state.Recorded (List.replicate state.nextOrigin Set.univ) := by
  constructor
  · intro h
    exact ⟨⟨h.distinct, fun binding hbinding => recorded_replicate_iff.mpr
      (h.avoids binding hbinding)⟩, List.length_replicate.symm⟩
  · intro h
    exact ⟨h.scope.distinct, fun binding hbinding => recorded_replicate_iff.mp
      (h.scope.values binding hbinding)⟩

theorem RunState.Recorded.isSound {state : RunState} (h : state.Recorded ledger) :
    state.IsSound :=
  ⟨h.scope.distinct, fun binding hbinding =>
    h.next ▸ (h.scope.values binding hbinding).avoids⟩

/-- **A state that programs can reach.** They start where nothing is bound, and evaluate nodes in
which there are no closures but those made before. The state after an evaluation is reachable,
however it has ended, and so are those in the middle of it. -/
inductive RunState.Reachable [Stack] : RunState → Prop where
  | initial : Reachable (.initial .empty)
  /-- The state after an evaluation. -/
  | evaluated {state : RunState} (before : Reachable state) (limit : Nat) {node : Node}
      (known : node.Avoids [] state.nextOrigin) :
      Reachable (finalState (evaluate limit node state))
  /-- The state in which an evaluation makes another one, directly or not. -/
  | inside {state : RunState} (before : Reachable state) {limit : Nat} {node : Node}
      (known : node.Avoids [] state.nextOrigin) {e : Evaluation}
      (reaches : Reaches limit ⟨min limit stackDepth + 1, node, state⟩ e) : Reachable e.state
  /-- Another scope may be taken, where nothing is bound yet. -/
  | another {state : RunState} (before : Reachable state) : Reachable (state.inScope .empty)
  /-- A name may be bound from outside. -/
  | defined {state : RunState} (before : Reachable state) (name : String) {value : Node}
      (known : value.Avoids [] state.nextOrigin) :
      Reachable (state.inScope (state.scope.define name value))
  /-- What has been reported may be put away. -/
  | quiet {state : RunState} (before : Reachable state) : Reachable { state with journal := [] }

/-- **Reachable states are sound.** -/
theorem RunState.Reachable.isSound [Stack] {state : RunState} (h : state.Reachable) :
    state.IsSound := by
  have hempty : ∀ bound, (Scope.empty : Scope Node).Avoids [] bound :=
    fun _ _ hbinding => absurd hbinding List.not_mem_nil
  induction h with
  | initial => exact ⟨Scope.isDistinct_empty, hempty 1⟩
  | another => exact ⟨Scope.isDistinct_empty, hempty _⟩
  | evaluated _ limit known ih =>
    obtain ⟨later, hafter⟩ := exists_recorded_eval limit _ (recorded_replicate_iff.mpr known)
      (RunState.isSound_iff_recorded.mp ih)
    exact hafter.isSound
  | inside _ known reaches ih =>
    obtain ⟨later, hreached⟩ := reaches.exists_recorded (recorded_replicate_iff.mpr known)
      (RunState.isSound_iff_recorded.mp ih)
    exact hreached.isSound
  | defined _ name known ih =>
    have hrecorded := RunState.isSound_iff_recorded.mp ih
    have hscope := hrecorded.scope.define name (recorded_replicate_iff.mpr known)
    exact (hrecorded.inScope hscope).isSound
  | quiet _ ih => exact ⟨ih.distinct, ih.avoids⟩

end EntityLisp
