import EntityLisp.Proofs.Cutoff
import EntityLisp.Proofs.Evaluation
import EntityLisp.Proofs.Undeclared

/-!
# The depth limit of programs

The laws of `EntityLisp.Proofs.Cutoff` for what is evaluated under a limit: a node that stands at
some depth, and the sources that an interpreter is given.

* `depth_limit_cuts_off`: **the limit is only a cut-off.** A run that meets no failure of depth, not
  even one that an application contains, is the same under every larger limit, and from every
  other depth from which none is met.
-/

namespace EntityLisp

open Run

/-- **Evaluates a node that stands at a depth,** under a depth limit. From there on evaluation nests
at most `stackDepth` deep, whatever the limit is. -/
def evaluateAt [Stack] (limit depth : Nat) (node : Node) : Run Node :=
  eval limit (min (limit + 1 - depth) (stackDepth + 1)) node

/-- The top level stands at depth zero. -/
theorem evaluateAt_zero [Stack] (limit : Nat) : evaluateAt limit 0 = evaluate limit := by
  funext node
  unfold evaluateAt evaluate
  rw [Nat.sub_zero, Nat.add_min_add_right]

/-! ### Runs under two limits -/

theorem isCutOff_evaluateAt [Stack] {m n : Nat} (h : m ≤ n) (depth : Nat) (node : Node) :
    IsCutOff (evaluateAt m depth node) (evaluateAt n depth node) :=
  isCutOff_eval m n (by omega) node

/-- The forms of a text are read alike under every limit, and evaluated in the same order. -/
theorem isCutOff_run [Stack] {m n : Nat} (h : m ≤ n) (source : Source) :
    IsCutOff (source.run m) (source.run n) := by
  have heval : ∀ node, IsCutOff (evaluate m node) (evaluate n node) := by
    intro node
    rw [← evaluateAt_zero, ← evaluateAt_zero]
    exact isCutOff_evaluateAt h 0 node
  cases source with
  | tree node => exact heval node
  | text program =>
    show IsCutOff (evaluateText m program) (evaluateText n program)
    unfold evaluateText
    split
    · exact isCutOff_throw _
    · exact isCutOff_evalSequence heval _ _

/-- **The depth limit is only a cut-off.** Let a run meet no failure of depth, neither one that ends
it nor one that an application contains and reports. Then the run under a larger limit is the
same in everything: its value or its error, its scope with the declared traits, the origins of
the closures, and what it reports. Runs of one node that stands at two depths are the same as
well, if neither of them meets a failure of depth. -/
theorem depth_limit_cuts_off [Stack] :
    (∀ m n depth node scope origin, m ≤ n →
      ¬DepthFails (evaluateAt m depth node ⟨scope, origin, []⟩) →
        evaluateAt n depth node ⟨scope, origin, []⟩ =
          evaluateAt m depth node ⟨scope, origin, []⟩) ∧
    (∀ m n (source : Source) scope origin, m ≤ n →
      ¬DepthFails (source.run m ⟨scope, origin, []⟩) →
        source.run n ⟨scope, origin, []⟩ = source.run m ⟨scope, origin, []⟩) ∧
    ∀ limit depth depth' node scope origin,
      ¬DepthFails (evaluateAt limit depth node ⟨scope, origin, []⟩) →
        ¬DepthFails (evaluateAt limit depth' node ⟨scope, origin, []⟩) →
          evaluateAt limit depth node ⟨scope, origin, []⟩ =
            evaluateAt limit depth' node ⟨scope, origin, []⟩ := by
  refine ⟨fun m n depth node scope origin hle hfails => ?_,
    fun m n source scope origin hle hfails => ?_,
    fun limit depth depth' node scope origin hfails hfails' => ?_⟩
  · exact ((isCutOff_evaluateAt hle depth node).agrees _).resolve_left hfails
  · exact ((isCutOff_run hle source).agrees _).resolve_left hfails
  · -- the deeper one has fewer levels left, so it is a cut off the other
    rcases Nat.le_total depth depth' with hle | hle
    · exact eval_eq_of_not_depthFails (by omega) hfails'
    · exact (eval_eq_of_not_depthFails (by omega) hfails).symm

/-- The law at a program that binds a function and applies it: four levels below the top are
enough, so the limit may be 4 or 200, and the program may stand at depth 196. -/
theorem depth_limit_cuts_off_increment :
    ¬DepthFails (evaluateAt 4 0 incrementProgram ⟨.empty, 1, []⟩) ∧
      evaluateAt 200 0 incrementProgram ⟨.empty, 1, []⟩ =
        evaluateAt 4 0 incrementProgram ⟨.empty, 1, []⟩ ∧
      (Source.tree incrementProgram).run 200 ⟨.empty, 1, []⟩ =
        (Source.tree incrementProgram).run 4 ⟨.empty, 1, []⟩ ∧
      ¬DepthFails (evaluateAt 200 196 incrementProgram ⟨.empty, 1, []⟩) ∧
      evaluateAt 200 0 incrementProgram ⟨.empty, 1, []⟩ =
        evaluateAt 200 196 incrementProgram ⟨.empty, 1, []⟩ := by
  have hrun : ∀ limit depth : Nat, (∃ value after,
      evaluateAt limit depth incrementProgram ⟨.empty, 1, []⟩ = .ok value after ∧
        after.journal.any Event.isDepthFailure = false) →
      ¬DepthFails (evaluateAt limit depth incrementProgram ⟨.empty, 1, []⟩) := by
    rintro limit depth ⟨value, after, hvalue, hjournal⟩
    rw [hvalue, depthFails_ok_iff]
    simpa using hjournal
  have hsmall := hrun 4 0 ⟨_, _, rfl, rfl⟩
  have hlarge := hrun 200 0 ⟨_, _, rfl, rfl⟩
  have hdeep := hrun 200 196 ⟨_, _, rfl, rfl⟩
  have hsource : ¬DepthFails ((Source.tree incrementProgram).run 4 ⟨.empty, 1, []⟩) := by
    rw [Source.run, ← evaluateAt_zero]
    exact hsmall
  obtain ⟨hlimits, hsources, hdepths⟩ := depth_limit_cuts_off
  exact ⟨hsmall, hlimits 4 200 0 incrementProgram .empty 1 (by decide) hsmall,
    hsources 4 200 (.tree incrementProgram) .empty 1 (by decide) hsource, hdeep,
    hdepths 200 0 196 incrementProgram .empty 1 hlarge hdeep⟩

/-- Under the limit 3 the application contains a failure of depth, and its value is an error. -/
example : (finalState (evaluateAt 3 0 incrementProgram ⟨.empty, 1, []⟩)).journal.any
    Event.isDepthFailure = true := by decide +kernel

end EntityLisp
