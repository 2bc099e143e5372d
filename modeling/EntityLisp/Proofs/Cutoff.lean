import EntityLisp.Proofs.Ensures
import EntityLisp.Run.Evaluate

/-!
# The depth limit only cuts off

An evaluation that has more levels left goes on where one with fewer is cut off, and differs in
nothing else. The cut leaves a trace: either evaluation ends with the error of the depth limit, or
an application has contained that error and reported it. As nothing is ever taken out of the
journal, the trace of a cut at any depth is there in the end (`DepthFails`).

`IsCutOff action full` says that `action` only adds to the journal, and that it ends as `full`
does unless it shows such a trace. It has a rule for each way to build actions and a lemma for each
form.

* `isCutOff_eval`: an evaluation with fewer levels is a cut off one with more.
* `eval_eq_of_not_depthFails`: without a trace of a cut both end the same, in value and state.
* `grows_eval`: an evaluation only adds events and origins.
-/

namespace EntityLisp

open Run

/-! ### What runs only add -/

/-- The state may be followed by the other: that has the same events and more, and no smaller
number for the next closure. -/
structure RunState.Precedes (state after : RunState) : Prop where
  journal : state.journal <:+ after.journal
  nextOrigin : state.nextOrigin ≤ after.nextOrigin

namespace RunState.Precedes

variable {state between after : RunState}

theorem refl (state : RunState) : state.Precedes state := ⟨List.suffix_refl _, Nat.le_refl _⟩

theorem trans (h : state.Precedes between) (hnext : between.Precedes after) :
    state.Precedes after :=
  ⟨h.journal.trans hnext.journal, Nat.le_trans h.nextOrigin hnext.nextOrigin⟩

end RunState.Precedes

/-! ### The trace of a cut -/

/-- A report of an application that has contained the error of the depth limit. -/
def Event.isDepthFailure : Event → Bool
  | .applicationFailed _ (.tooDeep _) => true
  | _ => false

/-- **An outcome that shows a failure of depth:** its error, or one that an application has
contained. -/
def DepthFails {α : Type} (outcome : EStateM.Result EvalError RunState α) : Prop :=
  (∃ limit after, outcome = .error (.tooDeep limit) after) ∨
    ∃ event ∈ (finalState outcome).journal, event.isDepthFailure = true

/-- What follows a state with the report of such a failure shows the failure. -/
theorem depthFails_of_precedes {α : Type} {outcome : EStateM.Result EvalError RunState α}
    {state : RunState} (h : ∃ event ∈ state.journal, event.isDepthFailure = true)
    (hprecedes : state.Precedes (finalState outcome)) : DepthFails outcome := by
  obtain ⟨event, hevent, hfailure⟩ := h
  exact Or.inr ⟨event, hprecedes.journal.subset hevent, hfailure⟩

/-- An outcome with a value shows a failure only in its journal. -/
theorem depthFails_ok_iff {α : Type} {value : α} {after : RunState} :
    DepthFails (.ok value after : EStateM.Result EvalError RunState α) ↔
      ∃ event ∈ after.journal, event.isDepthFailure = true := by
  constructor
  · rintro (⟨limit, after, h⟩ | h)
    · cases h
    · exact h
  · exact Or.inr

namespace Run

variable {α β : Type}

/-- An action that only adds events and origins. -/
def Grows (action : Run α) : Prop :=
  ∀ state : RunState, state.Precedes (finalState (action state))

/-- **An action that is another one cut off at some depth.** -/
structure IsCutOff (action full : Run α) : Prop where
  grows : Grows action
  agrees : ∀ state, DepthFails (action state) ∨ full state = action state

theorem isCutOff_pure (value : α) : IsCutOff (pure value) (pure value) :=
  ⟨fun state => .refl state, fun _ => Or.inr rfl⟩

theorem isCutOff_throw (error : EvalError) : IsCutOff (throw error : Run α) (throw error) :=
  ⟨fun state => .refl state, fun _ => Or.inr rfl⟩

/-- Where the levels are used up, anything may have been cut off. -/
theorem isCutOff_tooDeep (limit : Nat) (full : Run α) : IsCutOff (throw (.tooDeep limit)) full :=
  ⟨fun state => .refl state, fun state => Or.inl (Or.inl ⟨limit, state, rfl⟩)⟩

theorem isCutOff_bind {action full : Run α} {next fullNext : α → Run β}
    (haction : IsCutOff action full) (hnext : ∀ value, IsCutOff (next value) (fullNext value)) :
    IsCutOff (action >>= next) (full >>= fullNext) := by
  constructor
  · intro state
    have hfirst := haction.grows state
    cases hrun : action state with
    | ok value between =>
      rw [hrun] at hfirst
      rw [bind_of_ok hrun]
      exact hfirst.trans ((hnext value).grows between)
    | error error between =>
      rw [hrun] at hfirst
      rw [bind_of_error hrun]
      exact hfirst
  · intro state
    have hagrees := haction.agrees state
    cases hrun : action state with
    | ok value between =>
      rw [hrun] at hagrees
      rw [bind_of_ok hrun]
      rcases hagrees with hfails | hfull
      · -- what was reported before stays reported
        exact Or.inl (depthFails_of_precedes (depthFails_ok_iff.mp hfails)
          ((hnext value).grows between))
      · rw [bind_of_ok hfull]
        exact (hnext value).agrees between
    | error error between =>
      rw [hrun] at hagrees
      rw [bind_of_error hrun]
      rcases hagrees with (⟨limit, after, heq⟩ | hreported) | hfull
      · cases heq
        exact Or.inl (Or.inl ⟨limit, between, rfl⟩)
      · exact Or.inl (Or.inr hreported)
      · exact Or.inr (bind_of_error hfull)

theorem isCutOff_ofResult (result : Except EvalError α) :
    IsCutOff (ofResult result) (ofResult result) := by
  cases result with
  | ok value => exact isCutOff_pure value
  | error error => exact isCutOff_throw error

theorem isCutOff_report (event : Event) : IsCutOff (report event) (report event) :=
  ⟨fun state => ⟨List.suffix_cons event state.journal, Nat.le_refl _⟩, fun _ => Or.inr rfl⟩

theorem isCutOff_scope : IsCutOff scope scope := ⟨fun state => .refl state, fun _ => Or.inr rfl⟩

theorem isCutOff_setScope (inner : Scope Node) : IsCutOff (setScope inner) (setScope inner) :=
  ⟨fun _ => ⟨List.suffix_refl _, Nat.le_refl _⟩, fun _ => Or.inr rfl⟩

theorem isCutOff_freshOrigin : IsCutOff freshOrigin freshOrigin :=
  ⟨fun state => ⟨List.suffix_refl _, Nat.le_succ state.nextOrigin⟩, fun _ => Or.inr rfl⟩

theorem isCutOff_lookup (name : String) : IsCutOff (lookup name) (lookup name) := by
  refine isCutOff_bind isCutOff_scope fun scope => ?_
  split
  · exact isCutOff_pure _
  · exact isCutOff_throw _

theorem isCutOff_within (inner : Scope Node) {action full : Run α} (h : IsCutOff action full) :
    IsCutOff (within inner action) (within inner full) := by
  constructor
  · intro state
    obtain ⟨hjournal, horigin⟩ := h.grows { state with scope := inner }
    unfold within
    cases hrun : action { state with scope := inner } with
    | ok value after =>
      rw [hrun] at hjournal horigin
      exact ⟨hjournal, horigin⟩
    | error error after =>
      rw [hrun] at hjournal horigin
      exact ⟨hjournal, horigin⟩
  · intro state
    have hagrees := h.agrees { state with scope := inner }
    unfold within
    cases hrun : action { state with scope := inner } with
    | ok value after =>
      rw [hrun] at hagrees
      rcases hagrees with hfails | hfull
      · obtain ⟨event, hevent, hfailure⟩ := depthFails_ok_iff.mp hfails
        exact Or.inl (Or.inr ⟨event, hevent, hfailure⟩)
      · rw [hfull]
        exact Or.inr rfl
    | error error after =>
      rw [hrun] at hagrees
      rcases hagrees with (⟨limit, between, heq⟩ | hreported) | hfull
      · cases heq
        exact Or.inl (Or.inl ⟨limit, _, rfl⟩)
      · exact Or.inl (Or.inr hreported)
      · rw [hfull]
        exact Or.inr rfl

/-- A contained error of the depth limit is reported. -/
theorem isCutOff_contain {action full : Run Node} (c : Closure Node) (h : IsCutOff action full) :
    IsCutOff (contain action (reportStopped c)) (contain full (reportStopped c)) := by
  have hstopped : ∀ error, IsCutOff (reportStopped c error) (reportStopped c error) :=
    fun error => isCutOff_bind (isCutOff_report _) fun _ => isCutOff_pure _
  constructor
  · intro state
    have hfirst := h.grows state
    unfold contain
    cases hrun : action state with
    | ok value after =>
      rw [hrun] at hfirst
      exact hfirst
    | error error after =>
      rw [hrun] at hfirst
      show state.Precedes (finalState
        (if error.isContained then reportStopped c error after else .error error after))
      split
      · exact hfirst.trans ((hstopped error).grows after)
      · exact hfirst
  · intro state
    have hagrees := h.agrees state
    unfold contain
    cases hrun : action state with
    | ok value after =>
      rw [hrun] at hagrees
      rcases hagrees with hfails | hfull
      · exact Or.inl hfails
      · rw [hfull]
        exact Or.inr rfl
    | error error after =>
      rw [hrun] at hagrees
      rcases hagrees with (⟨limit, between, heq⟩ | hreported) | hfull
      · -- the error is contained, and the report of it is the trace
        cases heq
        exact Or.inl (Or.inr ⟨.applicationFailed c.signature (.tooDeep limit),
          List.mem_cons_self, rfl⟩)
      · refine Or.inl ?_
        show DepthFails
          (if error.isContained then reportStopped c error after else .error error after)
        split
        · exact depthFails_of_precedes hreported ((hstopped error).grows after)
        · exact Or.inr hreported
      · rw [hfull]
        exact Or.inr rfl

end Run

section Forms

variable {eval full argEval argFull : Node → Run Node}
  (heval : ∀ node, IsCutOff (eval node) (full node))

include heval

/-! ### Lists, arithmetic and comparison -/

theorem isCutOff_evalOperands {β : Type} (accept : Nat → Node → Except Failure β) (position : Nat)
    (arguments : List Node) : IsCutOff (evalOperands eval accept position arguments)
      (evalOperands full accept position arguments) := by
  induction arguments generalizing position with
  | nil => exact isCutOff_pure _
  | cons argument rest ih =>
    refine isCutOff_bind (heval argument) fun value => ?_
    split
    · exact isCutOff_pure _
    · exact isCutOff_bind (ih _) fun _ => isCutOff_pure _

theorem isCutOff_runList (arguments : List Node) :
    IsCutOff (runList eval arguments) (runList full arguments) := by
  refine isCutOff_bind (isCutOff_evalOperands heval _ _ _) fun result => ?_
  split <;> exact isCutOff_pure _

theorem isCutOff_runNumeric (op : NumericOp) (arguments : List Node) :
    IsCutOff (runNumeric op eval arguments) (runNumeric op full arguments) := by
  refine isCutOff_bind (isCutOff_evalOperands heval _ _ _) fun result => ?_
  split
  · exact isCutOff_pure _
  · exact isCutOff_pure _
  · exact isCutOff_ofResult _

theorem isCutOff_runEq (arguments : List Node) :
    IsCutOff (runEq eval arguments) (runEq full arguments) := by
  unfold runEq
  split
  · refine isCutOff_bind (heval _) fun a => isCutOff_bind (heval _) fun b => ?_
    split <;> exact isCutOff_pure _
  · exact isCutOff_pure _

/-! ### The `entity` form -/

theorem isCutOff_attributeValue (key : String) (value : Node) :
    IsCutOff (attributeValue eval key value) (attributeValue full key value) := by
  unfold attributeValue
  split
  · refine isCutOff_bind (heval value) fun kept => ?_
    split
    · split <;> exact isCutOff_pure _
    · exact isCutOff_pure _
  · exact isCutOff_pure _

theorem isCutOff_enterAttributes (attrs : Table String Node) (pairs : List Node) :
    IsCutOff (enterAttributes eval attrs pairs) (enterAttributes full attrs pairs) := by
  match pairs with
  | [] => exact isCutOff_pure _
  | [_] => exact isCutOff_pure _
  | key :: value :: rest =>
    unfold enterAttributes
    split
    · exact isCutOff_pure _
    · next name _ =>
      refine isCutOff_bind (isCutOff_attributeValue heval name value) fun result => ?_
      split
      · exact isCutOff_pure _
      · exact isCutOff_enterAttributes _ rest

omit heval in
theorem isCutOff_refuseEntity (entity : Entity Node) :
    IsCutOff (refuseEntity entity) (refuseEntity entity) :=
  isCutOff_bind (isCutOff_report _) fun _ => isCutOff_pure _

theorem isCutOff_finishEntity (typeName : String) (payload : Node) (attrs? : Option Node) :
    IsCutOff (finishEntity eval typeName payload attrs?)
      (finishEntity full typeName payload attrs?) := by
  unfold finishEntity
  split
  · exact isCutOff_refuseEntity _
  · split
    · exact isCutOff_refuseEntity _
    · split
      · exact isCutOff_pure _
      · next pairs _ =>
        have hbuild : IsCutOff (buildAttributes eval pairs) (buildAttributes full pairs) := by
          unfold buildAttributes
          split
          · exact isCutOff_pure _
          · exact isCutOff_enterAttributes heval _ _
        refine isCutOff_bind hbuild fun result => ?_
        split <;> exact isCutOff_pure _

theorem isCutOff_buildEntity (kind value : Node) (attrs? : Option Node) :
    IsCutOff (buildEntity eval kind value attrs?) (buildEntity full kind value attrs?) := by
  have hpayload : IsCutOff (payloadOf eval value) (payloadOf full value) := by
    unfold payloadOf
    split
    · exact isCutOff_bind (heval value) fun _ => isCutOff_pure _
    · exact isCutOff_pure _
  refine isCutOff_bind hpayload fun payload => ?_
  split
  · split
    · exact isCutOff_pure _
    · exact isCutOff_finishEntity heval _ _ _
  · exact isCutOff_finishEntity heval _ _ _

theorem isCutOff_runEntity (arguments : List Node) :
    IsCutOff (runEntity eval arguments) (runEntity full arguments) := by
  unfold runEntity
  split
  · exact isCutOff_buildEntity heval _ _ _
  · exact isCutOff_buildEntity heval _ _ _
  · exact isCutOff_pure _

/-! ### The `let`, `impl` and `lambda` forms -/

theorem isCutOff_bindInOrder (bindings : List (String × Node)) :
    IsCutOff (bindInOrder eval bindings) (bindInOrder full bindings) := by
  induction bindings with
  | nil => exact isCutOff_pure _
  | cons binding rest ih =>
    exact isCutOff_bind (heval binding.2) fun _ => isCutOff_bind isCutOff_scope fun _ =>
      isCutOff_bind (isCutOff_setScope _) fun _ => ih

omit heval in
theorem isCutOff_fixCurrent : IsCutOff fixCurrent fixCurrent := by
  have hreport : ∀ names : List String, IsCutOff (names.forM fun name =>
      report (.closureFixed name)) (names.forM fun name => report (.closureFixed name)) := by
    intro names
    induction names with
    | nil => exact isCutOff_pure _
    | cons name rest ih => exact isCutOff_bind (isCutOff_report _) fun _ => ih
  exact isCutOff_bind isCutOff_scope fun _ => isCutOff_bind (isCutOff_setScope _) fun _ => hreport _

theorem isCutOff_evalSequence (value : Node) (nodes : List Node) :
    IsCutOff (evalSequence eval value nodes) (evalSequence full value nodes) := by
  induction nodes generalizing value with
  | nil => exact isCutOff_pure _
  | cons node rest ih => exact isCutOff_bind (heval node) fun _ => ih _

theorem isCutOff_runLet (arguments : List Node) :
    IsCutOff (runLet eval arguments) (runLet full arguments) := by
  unfold runLet
  split
  · split
    · exact isCutOff_pure _
    · refine isCutOff_bind isCutOff_scope fun scope => isCutOff_within scope ?_
      refine isCutOff_bind (isCutOff_report _) fun _ => ?_
      refine isCutOff_bind (isCutOff_bindInOrder heval _) fun _ => ?_
      exact isCutOff_bind isCutOff_fixCurrent fun _ => isCutOff_evalSequence heval _ _
  · exact isCutOff_pure _

omit heval in
theorem isCutOff_runImpl (arguments : List Node) :
    IsCutOff (runImpl arguments) (runImpl arguments) := by
  have hdeclare : ∀ type trait, IsCutOff (declareTrait type trait) (declareTrait type trait) := by
    intro type trait
    refine isCutOff_bind isCutOff_scope fun scope => ?_
    split
    · exact isCutOff_pure _
    · exact isCutOff_bind (isCutOff_setScope _) fun _ => isCutOff_report _
  unfold runImpl
  split
  · split
    · split
      · exact isCutOff_bind (hdeclare _ _) fun _ => isCutOff_pure _
      · exact isCutOff_pure _
    · exact isCutOff_pure _
  · exact isCutOff_pure _

omit heval in
theorem isCutOff_runLambda (arguments : List Node) :
    IsCutOff (runLambda arguments) (runLambda arguments) := by
  unfold runLambda
  split
  · split
    · exact isCutOff_pure _
    · split
      · exact isCutOff_throw _
      · exact isCutOff_bind isCutOff_scope fun _ => isCutOff_bind isCutOff_freshOrigin fun _ =>
          isCutOff_pure _
  · exact isCutOff_pure _

/-! ### Applications -/

theorem isCutOff_evalArguments (params : List (String × TypeTag)) (arguments : List Node) :
    IsCutOff (evalArguments eval params arguments) (evalArguments full params arguments) := by
  induction params generalizing arguments with
  | nil => exact isCutOff_pure _
  | cons param params ih =>
    cases arguments with
    | nil => exact isCutOff_pure _
    | cons argument arguments =>
      refine isCutOff_bind (heval argument) fun value => ?_
      refine isCutOff_bind (isCutOff_ofResult _) fun bound => ?_
      split
      · exact isCutOff_pure _
      · exact isCutOff_bind (ih _) fun _ => isCutOff_pure _

theorem isCutOff_callClosure (c : Closure Node) (arguments : List Node) :
    IsCutOff (callClosure eval c arguments) (callClosure full c arguments) := by
  unfold callClosure
  split
  · refine isCutOff_bind isCutOff_scope fun scope => ?_
    refine isCutOff_bind (isCutOff_within _ (isCutOff_evalArguments heval _ _)) fun result => ?_
    split
    · exact isCutOff_pure _
    · unfold runCall
      split
      · exact isCutOff_within _ (heval _)
      · exact isCutOff_bind (isCutOff_within _ (heval _)) fun _ => isCutOff_pure _
  · exact isCutOff_pure _

theorem isCutOff_applyClosure (c : Closure Node) (arguments : List Node) :
    IsCutOff (applyClosure eval c arguments) (applyClosure full c arguments) :=
  isCutOff_bind (isCutOff_report _) fun _ =>
    isCutOff_contain c (isCutOff_callClosure heval c arguments)

/-! ### Forms in general -/

theorem isCutOff_evalValues (pairs : List Node) :
    IsCutOff (evalValues eval pairs) (evalValues full pairs) := by
  match pairs with
  | [] => exact isCutOff_pure _
  | [_] => exact isCutOff_pure _
  | key :: value :: rest =>
    exact isCutOff_bind (heval value) fun _ => isCutOff_bind (isCutOff_evalValues rest) fun _ =>
      isCutOff_pure _

theorem isCutOff_desugar (head : Node) (arguments : List Node) :
    IsCutOff (desugar eval head arguments) (desugar full head arguments) := by
  unfold desugar
  split
  · exact isCutOff_pure _
  · exact isCutOff_pure _
  · split
    · exact isCutOff_pure _
    · split
      · exact isCutOff_pure _
      · exact isCutOff_bind (isCutOff_evalValues heval _) fun _ => isCutOff_pure _

theorem isCutOff_runCore (form : CoreForm) (arguments : List Node) :
    IsCutOff (runCore eval form arguments) (runCore full form arguments) := by
  cases form with
  | entity => exact isCutOff_runEntity heval arguments
  | list => exact isCutOff_runList heval arguments
  | numeric op => exact isCutOff_runNumeric heval op arguments
  | eq => exact isCutOff_runEq heval arguments
  | letIn => exact isCutOff_runLet heval arguments
  | impl => exact isCutOff_runImpl arguments
  | lambda => exact isCutOff_runLambda arguments

variable (hargEval : ∀ node, IsCutOff (argEval node) (argFull node))

include hargEval

omit heval in
theorem isCutOff_applyHead (head value : Node) (arguments : List Node) :
    IsCutOff (applyHead argEval head value arguments) (applyHead argFull head value arguments) := by
  unfold applyHead
  split
  · exact isCutOff_applyClosure hargEval _ arguments
  · split
    · exact isCutOff_pure _
    · exact isCutOff_throw _
  · exact isCutOff_throw _

/-- **One step of evaluation** is cut off where the evaluators that it calls are. -/
theorem isCutOff_evalNode (node : Node) :
    IsCutOff (evalNode eval argEval node) (evalNode full argFull node) := by
  have hform : ∀ head arguments, IsCutOff (runForm eval argEval head arguments)
      (runForm full argFull head arguments) := by
    intro head arguments
    unfold runForm
    split
    · split
      · exact isCutOff_bind (isCutOff_report _) fun _ => isCutOff_runCore heval _ arguments
      · exact isCutOff_bind (isCutOff_lookup _) fun _ => isCutOff_applyHead hargEval _ _ arguments
    · exact isCutOff_bind (heval _) fun _ => isCutOff_applyHead hargEval _ _ arguments
    · exact isCutOff_applyHead hargEval _ _ arguments
  unfold evalNode
  split
  · exact isCutOff_throw _
  · refine isCutOff_bind (isCutOff_desugar heval _ _) fun result => ?_
    split
    · exact isCutOff_pure _
    · exact hform _ _
  · exact isCutOff_lookup _
  · exact isCutOff_pure _

end Forms

/-- **An evaluation with fewer levels is a cut off one with more,** whatever limits the errors
name. -/
theorem isCutOff_eval (limit limit' : Nat) {levels levels' : Nat} (h : levels ≤ levels')
    (node : Node) : IsCutOff (eval limit levels node) (eval limit' levels' node) := by
  induction levels using Nat.strongRecOn generalizing levels' node with
  | ind levels ih =>
    cases levels with
    | zero => exact isCutOff_tooDeep limit _
    | succ levels =>
      obtain ⟨more, rfl⟩ : ∃ more, levels' = more + 1 := ⟨levels' - 1, by omega⟩
      rw [eval_succ, eval_succ]
      exact isCutOff_evalNode (ih levels (by omega) (by omega))
        (ih (levels - 1) (by omega) (by omega)) node

/-- **Without a failure of depth** an evaluation ends as one with more levels does. -/
theorem eval_eq_of_not_depthFails {limit limit' levels levels' : Nat} (h : levels ≤ levels')
    {node : Node} {state : RunState} (hfails : ¬DepthFails (eval limit levels node state)) :
    eval limit' levels' node state = eval limit levels node state :=
  ((isCutOff_eval limit limit' h node).agrees state).resolve_left hfails

/-- **An evaluation only adds** events and origins. -/
theorem grows_eval (limit levels : Nat) (node : Node) : Grows (eval limit levels node) :=
  (isCutOff_eval limit limit (Nat.le_refl levels) node).grows

end EntityLisp
