import EntityLisp.Proofs.Answers
import EntityLisp.Proofs.Frame
import EntityLisp.Session

/-!
# Evaluations without declarations

A sheltered node has its `impl` forms only where they declare traits in a scope of their own, so it
leaves the scope exactly as it was. The values that evaluation puts back into code must be
sheltered for this as well; they are, since no value but one that a `let` passes on can be a form.

* `givesSheltered_eval`: values are sheltered in a scope that binds sheltered nodes only.
* `scope_eval_of_sheltered`: **a sheltered node leaves such a scope exactly as it was.**
* `scope_eval`: the frame of evaluation, and what follows for a sequence of programs.
* `declares_boundImpl`: why the scope must bind sheltered nodes only.
-/

namespace EntityLisp

open Node Run

/-! ### Values are sheltered -/

/-- A scope that binds sheltered nodes only. -/
def Scope.IsSheltered (scope : Scope Node) : Prop := ∀ binding ∈ scope.bindings, binding.2.Sheltered

namespace Scope.IsSheltered

variable {scope : Scope Node}

theorem lookup? (h : scope.IsSheltered) {name : String} {value : Node}
    (hlookup : scope.lookup? name = some value) : value.Sheltered :=
  h (name, value) (Table.mem_of_get? hlookup)

theorem define (h : scope.IsSheltered) (name : String) {value : Node} (hvalue : value.Sheltered) :
    (scope.define name value).IsSheltered := by
  intro binding hbinding
  rcases Table.mem_put hbinding with heq | hmem
  · rw [heq]
    exact hvalue
  · exact h binding hmem

theorem implement (h : scope.IsSheltered) (type : TypeTag) (trait : TraitTag) :
    (scope.implement type trait).IsSheltered := by
  unfold IsSheltered
  rwa [bindings_implement]

/-- Fixing replaces closures by closures. -/
theorem fixClosures (h : scope.IsSheltered) : scope.fixClosures.IsSheltered :=
  fixClosures_induction h fun _ name _ hcurrent _ _ =>
    hcurrent.define name (sheltered_of_not_form rfl)

end Scope.IsSheltered

/-- An action whose value is no form. -/
def GivesNoForm (action : Run Node) : Prop :=
  Ensures (fun _ => True) (fun value => value.isForm = false) (fun _ => True) action

section Values

variable {eval argEval : Node → Run Node}

theorem givesNoForm_finishEntity (typeName : String) (payload : Node) (attrs? : Option Node) :
    GivesNoForm (finishEntity eval typeName payload attrs?) := by
  have hrefuse : ∀ entity : Entity Node, GivesNoForm (refuseEntity entity) :=
    fun entity => ensures_bind (ensures_report _) fun _ _ => ensures_pure rfl
  unfold finishEntity
  split
  · exact hrefuse _
  · split
    · exact hrefuse _
    · split
      · exact ensures_pure rfl
      · refine ensures_bind (ensures_true _) fun result _ => ?_
        split <;> exact ensures_pure rfl

theorem givesNoForm_runEntity (arguments : List Node) : GivesNoForm (runEntity eval arguments) := by
  have hbuild : ∀ kind value attrs?, GivesNoForm (buildEntity eval kind value attrs?) := by
    intro kind value attrs?
    refine ensures_bind (ensures_true _) fun payload _ => ?_
    split
    · split
      · exact ensures_pure rfl
      · exact givesNoForm_finishEntity _ _ _
    · exact givesNoForm_finishEntity _ _ _
  unfold runEntity
  split
  · exact hbuild _ _ _
  · exact hbuild _ _ _
  · exact ensures_pure rfl

theorem givesNoForm_runNumeric (op : NumericOp) (arguments : List Node) :
    GivesNoForm (runNumeric op eval arguments) := by
  refine ensures_bind (ensures_true _) fun result _ => ?_
  split
  · exact ensures_pure rfl
  · exact ensures_pure rfl
  · refine ensures_ofResult (fun value h => ?_) fun _ _ => trivial
    obtain ⟨total, -, htotal⟩ := Except.bind_eq_ok_iff.mp (Except.mapError_eq_ok_iff.mp h)
    unfold numericResult at htotal
    split at htotal
    · obtain ⟨x, -, rfl⟩ := Except.map_eq_ok_iff.mp htotal
      rfl
    · cases htotal
      rfl

theorem givesNoForm_runEq (arguments : List Node) : GivesNoForm (runEq eval arguments) := by
  unfold runEq
  split
  · refine ensures_bind (ensures_true _) fun a _ => ensures_bind (ensures_true _) fun b _ => ?_
    split
    · next value h =>
      obtain ⟨x, -, h⟩ := Except.bind_eq_ok_iff.mp h
      obtain ⟨y, -, rfl⟩ := Except.map_eq_ok_iff.mp h
      exact ensures_pure rfl
    · exact ensures_pure rfl
  · exact ensures_pure rfl

theorem givesNoForm_runImpl (arguments : List Node) : GivesNoForm (runImpl arguments) := by
  unfold runImpl
  split
  · split
    · split
      · exact ensures_bind (ensures_true _) fun _ _ => ensures_pure rfl
      · exact ensures_pure rfl
    · exact ensures_pure rfl
  · exact ensures_pure rfl

theorem Node.Answers.isForm {returns : TypeTag} {value : Node} (h : value.Answers returns) :
    value.isForm = false := by
  cases h <;> rfl

/-- Every core form but `let` has a value that is no form, whatever the scope binds. -/
theorem givesNoForm_runCore {form : CoreForm} (hlet : form ≠ .letIn) (arguments : List Node) :
    GivesNoForm (runCore eval form arguments) := by
  cases form with
  | entity => exact givesNoForm_runEntity arguments
  | list =>
    refine ensures_bind (ensures_true _) fun result _ => ?_
    split <;> exact ensures_pure rfl
  | numeric op => exact givesNoForm_runNumeric op arguments
  | eq => exact givesNoForm_runEq arguments
  | letIn => exact absurd rfl hlet
  | impl => exact givesNoForm_runImpl arguments
  | lambda =>
    exact (answers_runLambda .error arguments).mono (fun _ h => h.isForm) fun _ h => h

theorem givesNoForm_applyHead (heval : EvaluatesFunctions argEval) (head value : Node)
    (arguments : List Node) : GivesNoForm (applyHead argEval head value arguments) := by
  unfold applyHead
  split
  · next c =>
    exact (answers_applyClosure heval c arguments).mono (fun _ h => h.isForm) fun _ _ => trivial
  · split
    · exact ensures_pure rfl
    · exact ensures_throw trivial
  · exact ensures_throw trivial

/-- An action that keeps a property of scopes and whose value is no form. -/
theorem KeepsScope.of_givesNoForm {S : Scope Node → Prop} {action : Run Node}
    (hkeeps : KeepsScope S action) (hvalue : GivesNoForm action) :
    Ensures S Node.Sheltered (fun _ => True) action := by
  intro state hscope
  have hstate := hkeeps state hscope
  cases hrun : action state with
  | ok value after =>
    rw [hrun] at hstate
    exact ⟨sheltered_of_not_form (hvalue.of_ok trivial hrun).1, hstate.2⟩
  | error error after =>
    rw [hrun] at hstate
    exact hstate

/-- An evaluator whose values are sheltered where all that is bound is. -/
def GivesSheltered (eval : Node → Run Node) : Prop :=
  ∀ node, Ensures Scope.IsSheltered Node.Sheltered (fun _ => True) (eval node)

theorem GivesSheltered.keeps (heval : GivesSheltered eval) :
    Keeps Scope.IsSheltered True eval :=
  fun node _ => (heval node).mono (fun _ _ => Or.inl trivial) fun _ h => h

theorem sheltered_runLet (heval : GivesSheltered eval) (arguments : List Node) :
    Ensures Scope.IsSheltered Node.Sheltered (fun _ => True) (runLet eval arguments) := by
  have hfailure : ∀ failure : Failure, failure.toNode.Sheltered :=
    fun failure => sheltered_of_not_form rfl
  unfold runLet
  split
  · split
    · exact ensures_pure (hfailure _)
    · refine ensures_bind ensures_scope fun scope hscope => ensures_within hscope ?_
      exact ensures_runBody (P := fun _ => True) (fun node _ => heval node)
        (fun _ name _ h hvalue => h.define name hvalue) (fun _ h => h.fixClosures)
        (fun _ _ => trivial) (fun _ _ => trivial) (sheltered_of_not_form rfl)
  · exact ensures_pure (hfailure _)

theorem sheltered_runForm (heval : GivesSheltered eval) (hargEval : EvaluatesFunctions argEval)
    (head : Node) (arguments : List Node) :
    Ensures Scope.IsSheltered Node.Sheltered (fun _ => True)
      (runForm eval argEval head arguments) := by
  have happly : ∀ value, Ensures Scope.IsSheltered Node.Sheltered (fun _ => True)
      (applyHead argEval head value arguments) := fun value =>
    (keepsScope_applyHead head value arguments).of_givesNoForm
      (givesNoForm_applyHead hargEval head value arguments)
  unfold runForm
  split
  · next name =>
    split
    · next form hname =>
      refine ensures_bind (ensures_report _) fun _ _ => ?_
      by_cases hlet : form = .letIn
      · subst hlet
        exact sheltered_runLet heval arguments
      · have hkeeps : KeepsScope Scope.IsSheltered (runCore eval form arguments) :=
          keepsScope_runCore heval.keeps (fun _ _ type trait h => h.implement type trait)
            (Or.inl trivial)
        exact hkeeps.of_givesNoForm (givesNoForm_runCore hlet arguments)
    · exact ensures_bind (keepsScope_lookup name) fun value _ => happly value
  · exact ensures_bind (heval _) fun value _ => happly value
  · exact happly _

theorem givesSheltered_evalNode (heval : GivesSheltered eval)
    (hargEval : EvaluatesFunctions argEval) : GivesSheltered (evalNode eval argEval) := by
  intro node
  unfold evalNode
  split
  · exact ensures_throw trivial
  · next head arguments =>
    refine ensures_bind (ensures_desugar_admitted heval.keeps (Or.inl trivial)) fun result _ => ?_
    cases result with
    | error failure => exact ensures_pure (sheltered_of_not_form rfl)
    | ok freed => exact sheltered_runForm heval hargEval freed.1 freed.2
  · next name =>
    exact ensures_lookup name (fun _ hscope _ hlookup => hscope.lookup? hlookup) trivial
  · next hempty hform hsymbol =>
    refine ensures_pure (sheltered_of_not_form ?_)
    cases node with
    | form items =>
      cases items with
      | nil => exact absurd rfl hempty
      | cons head arguments => exact absurd rfl (hform head arguments)
    | _ => rfl

end Values

/-- **The values of an evaluation** are sheltered in a scope that binds sheltered nodes only. -/
theorem givesSheltered_eval (limit levels : Nat) : GivesSheltered (eval limit levels) := by
  induction levels with
  | zero => exact fun _ => ensures_throw trivial
  | succ levels ih =>
    rw [GivesSheltered, eval_succ]
    exact givesSheltered_evalNode ih (evaluatesFunctions_eval limit (levels - 1))

/-- **A sheltered node leaves the scope as it was,** if that binds sheltered nodes only. -/
theorem scope_eval_of_sheltered (limit levels : Nat) {node : Node} (hnode : node.Sheltered)
    {state : RunState} (hscope : state.scope.IsSheltered) :
    (finalState (eval limit levels node state)).scope = state.scope := by
  have hkeeps : Keeps (· = state.scope) False (eval limit levels) := by
    clear hnode node
    induction levels with
    | zero => exact fun _ _ => ensures_throw trivial
    | succ levels ih =>
      intro node hnode current hcurrent
      have hstep : KeepsScope (· = state.scope)
          (evalNode (eval limit levels) (eval limit (levels - 1)) node) :=
        keepsScope_evalNode ih (fun h => h.elim) hnode
      rw [← eval_succ] at hstep
      have hafter := hstep current hcurrent
      have hvalue := givesSheltered_eval limit (levels + 1) node current (hcurrent ▸ hscope)
      cases hrun : eval limit (levels + 1) node current with
      | ok value after =>
        rw [hrun] at hafter hvalue
        exact ⟨Or.inr hvalue.1, hafter.2⟩
      | error error after =>
        rw [hrun] at hafter
        exact hafter
  exact (hkeeps node (Or.inr hnode)).keepsScope.after rfl

/-! ### Sequences of programs -/

/-- What an interpreter is given to evaluate: program text, or a tree. -/
inductive Source where
  | text (program : String)
  | tree (node : Node)

/-- Evaluates a source at the top level under a depth limit. -/
def Source.run [Stack] (limit : Nat) : Source → Run Node
  | .text program => evaluateText limit program
  | .tree node => evaluate limit node

/-- The state after several sources, each with its depth limit, have been evaluated one after the
other, whether or not one of them fails. -/
def stateAfter [Stack] (state : RunState) (calls : List (Nat × Source)) : RunState :=
  calls.foldl (fun state call => finalState (call.2.run call.1 state)) state

/-- A source keeps every property of scopes that does not mind declarations. -/
theorem keepsScope_run [Stack] {S : Scope Node → Prop}
    (hdeclare : ∀ scope type trait, S scope → S (scope.implement type trait)) (limit : Nat)
    (source : Source) : KeepsScope S (source.run limit) := by
  have heval : ∀ node, True → Ensures S (fun _ => True) (fun _ => True) (evaluate limit node) :=
    fun node _ => (keeps_eval_of_declaring hdeclare limit _ node (Or.inl trivial)).keepsScope
  cases source with
  | tree node => exact heval node trivial
  | text program =>
    show KeepsScope S (evaluateText limit program)
    unfold evaluateText
    split
    · exact keepsScope_throw _
    · exact ensures_evalSequence heval (fun _ _ => trivial) trivial

theorem declaredFrom_stateAfter [Stack] (state : RunState) (calls : List (Nat × Source)) :
    DeclaredFrom state.scope (stateAfter state calls).scope := by
  have hrun : ∀ (calls : List (Nat × Source)) (current : RunState),
      DeclaredFrom state.scope current.scope →
        DeclaredFrom state.scope (stateAfter current calls).scope := by
    intro calls
    induction calls with
    | nil => exact fun _ h => h
    | cons call rest ih =>
      intro current h
      have hkeeps : KeepsScope (DeclaredFrom state.scope) (call.2.run call.1) :=
        keepsScope_run (fun _ type trait hscope => hscope.implement type trait) call.1 call.2
      exact ih _ (hkeeps.after h)
  exact hrun calls state (.refl _)

/-! ### The frame -/

/-- **The frame of evaluation.** However an evaluation ends, the scope that it started in has the
same bindings, and traits at most declared. The scope is unchanged if no `impl` form is exposed in
the node or in a node that a name is bound to. So after any sequence of sources the top-level scope
binds nothing, and it keeps each trait that it has. -/
theorem scope_eval [Stack] :
    (∀ limit levels node state,
      (finalState (eval limit levels node state)).scope.bindings = state.scope.bindings ∧
      (∃ declared, (finalState (eval limit levels node state)).scope =
        state.scope.declareAll declared) ∧
      ∀ type trait, state.scope.hasTrait type trait = true →
        (finalState (eval limit levels node state)).scope.hasTrait type trait = true) ∧
    (∀ limit levels node (state : RunState), Sheltered node → state.scope.IsSheltered →
      (finalState (eval limit levels node state)).scope = state.scope) ∧
    ∀ calls later,
      (stateAfter (.initial .empty) calls).scope.bindings = [] ∧
      ∀ type trait, (stateAfter (.initial .empty) calls).scope.hasTrait type trait = true →
        (stateAfter (.initial .empty) (calls ++ later)).scope.hasTrait type trait = true := by
  refine ⟨fun limit levels node state => ?_, fun limit levels node state hnode hscope => ?_,
    fun calls later => ⟨?_, fun type trait htrait => ?_⟩⟩
  · have h := declaredFrom_eval limit levels node state
    exact ⟨h.bindings_eq, h, fun type trait htrait => h.hasTrait htrait⟩
  · exact scope_eval_of_sheltered limit levels hnode hscope
  · exact (declaredFrom_stateAfter (.initial .empty) calls).bindings_eq
  · have h := declaredFrom_stateAfter (stateAfter (.initial .empty) calls) later
    rw [stateAfter, List.foldl_append]
    exact h.hasTrait htrait

/-- The form `(impl Numeric for Integer)`. -/
def numericImpl : Node :=
  .form [.symbol "impl", .symbol "Numeric", .symbol "for", .symbol "Integer"]

/-- The form `(let () (impl Numeric for Integer))`. -/
def localImpl : Node := .form [.symbol "let", .form [], numericImpl]

/-- The frame at both forms: what the first declares at the top level stays declared, also through
a program that does not even read; what the second declares is gone. -/
theorem scope_eval_numericImpl :
    localImpl.Sheltered ∧ (Scope.empty : Scope Node).IsSheltered ∧
      (finalState (eval 200 201 localImpl (.initial .empty))).scope = .empty ∧
        (stateAfter (.initial .empty) [(200, .tree numericImpl)]).scope.hasTrait
          .integer .numeric = true ∧
          (stateAfter (.initial .empty) ([(200, .tree numericImpl)] ++
            [(200, .text "(")])).scope.hasTrait .integer .numeric = true := by
  have hlocal : localImpl.Sheltered := .intro rfl fun _ hchild => absurd hchild List.not_mem_nil
  have hempty : (Scope.empty : Scope Node).IsSheltered := fun _ h => absurd h List.not_mem_nil
  have hdeclared : (stateAfter (.initial .empty) [(200, .tree numericImpl)]).scope.hasTrait
      .integer .numeric = true := rfl
  obtain ⟨-, hsheltered, hcalls⟩ := scope_eval
  exact ⟨hlocal, hempty, hsheltered 200 201 localImpl (.initial .empty) hlocal hempty, hdeclared,
    (hcalls [(200, .tree numericImpl)] [(200, .text "(")]).2 .integer .numeric hdeclared⟩

/-- An introduction with an adjective under a name, `(Subject "a" :adjective p)`. -/
def namedAdjective : Node :=
  .form [.symbol "Subject", .str "a", .keyword "adjective", .symbol "p"]

/-- A scope that binds the name to a form, `(impl Numeric for Noun)`. -/
def boundImpl : Scope Node :=
  ⟨[("p", .form [.symbol "impl", .symbol "Numeric", .symbol "for", .symbol "Noun"])], []⟩

/-- **A declaration from a bound form:** there is no `impl` form in the introduction, but the one
that the name is bound to is put in its place and evaluated there. -/
theorem declares_boundImpl :
    namedAdjective.Sheltered ∧ boundImpl.hasTrait .noun .numeric = false ∧
      (finalState (evaluate 200 namedAdjective (.initial boundImpl))).scope.hasTrait
        .noun .numeric = true := by
  have hsheltered : namedAdjective.Sheltered := by
    refine .intro rfl fun child hchild => sheltered_of_not_form ?_
    have harguments : child ∈ [Node.str "a", .keyword "adjective", .symbol "p"] := hchild
    simp only [List.mem_cons, List.not_mem_nil, or_false] at harguments
    rcases harguments with rfl | rfl | rfl <;> rfl
  exact ⟨hsheltered, rfl, rfl⟩

end EntityLisp
