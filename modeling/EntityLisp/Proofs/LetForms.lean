import EntityLisp.Proofs.Answers
import EntityLisp.Proofs.Cutoff
import EntityLisp.Proofs.Sheltered
import EntityLisp.Proofs.TwoRuns

/-!
# `let` forms

The `let` form that is written from the names and values of its bindings (`letForm`), and what its
evaluation does: the values are bound one after the other, the pending closures are fixed, and
then the body is evaluated, all of it in a copy of the scope.

* `eval_letForm`: the steps of a `let`.
* `eval_letForm_single`: what is left of a `let` whose one value has been evaluated.
-/

namespace EntityLisp

open Run

/-! ### How a `let` is written -/

/-- A binding `(name be value)` as it is written. -/
def writeBinding (binding : String × Node) : Node :=
  .form [.symbol binding.1, .symbol "be", binding.2]

/-- **The `let` form** with the bindings and the body. -/
def letForm (bindings : List (String × Node)) (body : List Node) : Node :=
  .form (.symbol CoreForm.letIn.name :: .form (bindings.map writeBinding) :: body)

theorem readBindings_map_writeBinding (bindings : List (String × Node)) :
    readBindings (bindings.map writeBinding) = .ok bindings := by
  induction bindings with
  | nil => rfl
  | cons binding rest ih =>
    rw [List.map_cons, readBindings, ih]
    rfl

/-! ### The steps of a `let` -/

/-- A form with the name of a core form at its head runs it. -/
theorem evalNode_core (eval argEval : Node → Run Node) (form : CoreForm) (arguments : List Node) :
    evalNode eval argEval (.form (.symbol form.name :: arguments)) =
      report (.coreForm form.name) >>= fun _ => runCore eval form arguments := by
  rw [evalNode_form, desugar_of_sugar?_eq_none (Node.sugar?_core form)]
  exact runForm_core form arguments

/-- The state in which a `let` with that many bindings starts to evaluate them. -/
def RunState.startLet (state : RunState) (count : Nat) : RunState :=
  (state.reporting (.coreForm CoreForm.letIn.name)).reporting (.letScope count)

/-- What a `let` does once its bindings are made. -/
def finishLet (eval : Node → Run Node) (body : List Node) : Run Node :=
  fixCurrent >>= fun _ => evalSequence eval .nil body

/-- A `let` that is written runs what it does in a copy of the scope. -/
theorem runCore_letIn (eval : Node → Run Node) (bindings : List (String × Node))
    (body : List Node) : runCore eval .letIn (.form (bindings.map writeBinding) :: body) =
      Run.scope >>= fun scope => within scope (runBody eval bindings body) := by
  simp only [runCore, runLet, readBindings_map_writeBinding]

/-- **The steps of a `let`,** in a copy of the scope. -/
theorem eval_letForm (limit levels : Nat) (bindings : List (String × Node)) (body : List Node)
    (state : RunState) : eval limit (levels + 1) (letForm bindings body) state =
      within state.scope (bindInOrder (eval limit levels) bindings >>= fun _ =>
        finishLet (eval limit levels) body) (state.startLet bindings.length) := by
  rw [eval_succ, letForm, evalNode_core, bind_of_ok (report_apply _ state), runCore_letIn,
    scope_bind_apply]
  rfl

/-- Bindings are made in two parts. -/
theorem bindInOrder_append (eval : Node → Run Node) (first second : List (String × Node)) :
    bindInOrder eval (first ++ second) =
      bindInOrder eval first >>= fun _ => bindInOrder eval second := by
  induction first with
  | nil => rfl
  | cons binding rest ih =>
    obtain ⟨name, value⟩ := binding
    simp only [List.cons_append, bindInOrder, bind_assoc, ih]

/-- Fixing changes the scope and the journal. -/
theorem fixCurrent_apply (state : RunState) : ∃ journal, fixCurrent state =
    .ok () { state with scope := state.scope.fixClosures, journal := journal } := by
  obtain ⟨journal, hreports⟩ := forM_report_apply state.scope.pendingNames
    (state.inScope state.scope.fixClosures)
  refine ⟨journal, ?_⟩
  show (setScope state.scope.fixClosures >>= fun _ => _) state = _
  rw [bind_of_ok (setScope_apply _ state)]
  exact hreports

/-! ### Actions in another scope -/

section Within

variable {α : Type} {inner : Scope Node} {action : Run α} {state : RunState}

theorem within_apply : within inner action state =
    match action (state.inScope inner) with
    | .ok value after => .ok value (after.inScope state.scope)
    | .error error after => .error error (after.inScope state.scope) := rfl

/-- What is done in another scope gives the same value. -/
theorem exists_ok_within_iff {value : α} :
    (∃ after, within inner action state = .ok value after) ↔
      ∃ after, action (state.inScope inner) = .ok value after := by
  rw [within_apply]
  cases action (state.inScope inner) with
  | ok found between =>
    constructor <;> rintro ⟨after, ⟨⟩⟩
    · exact ⟨between, rfl⟩
    · exact ⟨_, rfl⟩
  | error error between => constructor <;> rintro ⟨after, ⟨⟩⟩

/-- What is done in another scope shows the same failures of depth. -/
theorem depthFails_within_iff :
    DepthFails (within inner action state) ↔ DepthFails (action (state.inScope inner)) := by
  rw [within_apply]
  cases action (state.inScope inner) with
  | ok value after =>
    show DepthFails (.ok value (after.inScope state.scope)) ↔ _
    rw [depthFails_ok_iff, depthFails_ok_iff]
    exact Iff.rfl
  | error error after =>
    constructor <;> rintro (⟨limit, between, ⟨⟩⟩ | hreported)
    · exact Or.inl ⟨limit, _, rfl⟩
    · exact Or.inr hreported
    · exact Or.inl ⟨limit, _, rfl⟩
    · exact Or.inr hreported

end Within

/-! ### A `let` with one binding -/

/-- **A `let` whose one value has been evaluated** evaluates its body with the value bound and the
pending closures fixed. -/
theorem eval_letForm_single {limit levels : Nat} {name : String} {e value : Node}
    {state after : RunState} (heval : eval limit levels e (state.startLet 1) = .ok value after)
    (body : Node) : ∃ journal, eval limit (levels + 1) (letForm [(name, e)] [body]) state =
      within (after.scope.define name value).fixClosures (eval limit levels body)
        ⟨state.scope, after.nextOrigin, journal⟩ := by
  obtain ⟨journal, hfix⟩ := fixCurrent_apply (after.inScope (after.scope.define name value))
  refine ⟨journal, ?_⟩
  have hbound : bindInOrder (eval limit levels) [(name, e)] (state.startLet 1) =
      .ok () (after.inScope (after.scope.define name value)) := by
    show (eval limit levels e >>= fun _ => _) _ = _
    rw [bind_of_ok heval]
    rfl
  have hsteps : (bindInOrder (eval limit levels) [(name, e)] >>= fun _ =>
      finishLet (eval limit levels) [body]) ((state.startLet 1).inScope state.scope) =
        eval limit levels body
          ⟨(after.scope.define name value).fixClosures, after.nextOrigin, journal⟩ := by
    show (bindInOrder (eval limit levels) [(name, e)] >>= fun _ => _) (state.startLet 1) = _
    rw [bind_of_ok hbound, finishLet, bind_of_ok hfix]
    show (eval limit levels body >>= pure) _ = _
    rw [bind_pure]
    rfl
  rw [eval_letForm, within_apply, within_apply, List.length_singleton, hsteps]
  rfl

/-- A form whose head is bound to a closure applies it two levels deeper. -/
theorem eval_bound {limit levels : Nat} {name : String} {c : Closure Node} {arguments : List Node}
    {state : RunState} (hcore : CoreForm.ofName? name = none) (hsugar : Sugar.ofName? name = none)
    (hbound : state.scope.lookup? name = some (.closure c)) :
    eval limit (levels + 1) (.form (.symbol name :: arguments)) state =
      applyClosure (eval limit (levels - 1)) c arguments state := by
  rw [eval_succ]
  exact evalNode_bound hcore hsugar hbound

end EntityLisp
