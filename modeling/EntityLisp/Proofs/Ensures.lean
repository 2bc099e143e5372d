import EntityLisp.Proofs.Results
import EntityLisp.Run.Binding

/-!
# What an action ensures

`Run.Ensures S Q R action` says of an action of a run: started in a scope with the property `S`,
it ends in a scope with that property, its value has the property `Q`, and its error, if it ends
with one, the property `R`. There is one rule for each way to build actions, so that a law of a
form follows from what its sub-evaluations ensure.

The lemmas on outcomes (`bind_eq_ok_iff`, `bind_eq_error_iff` and the like) take an action apart
that has ended in a certain way.
-/

namespace EntityLisp

/-- A state with one more event in its journal. -/
def RunState.reporting (state : RunState) (event : Event) : RunState :=
  { state with journal := event :: state.journal }

/-- A state with another scope. -/
def RunState.inScope (state : RunState) (scope : Scope Node) : RunState :=
  { state with scope := scope }

namespace Run

variable {α β : Type}

/-! ### Outcomes -/

theorem throw_apply (error : EvalError) (state : RunState) :
    (throw error : Run α) state = .error error state := rfl

/-- What comes behind an action that has a value. -/
theorem bind_of_ok {action : Run α} {next : α → Run β} {state after : RunState} {value : α}
    (h : action state = .ok value after) : (action >>= next) state = next value after := by
  show EStateM.bind action next state = _
  unfold EStateM.bind
  rw [h]

/-- What comes behind an action that has ended with an error is not run. -/
theorem bind_of_error {action : Run α} {next : α → Run β} {state after : RunState}
    {error : EvalError} (h : action state = .error error after) :
    (action >>= next) state = .error error after := by
  show EStateM.bind action next state = _
  unfold EStateM.bind
  rw [h]

theorem bind_eq_ok_iff {action : Run α} {next : α → Run β} {state after : RunState} {value : β} :
    (action >>= next) state = .ok value after ↔
      ∃ first between, action state = .ok first between ∧ next first between = .ok value after := by
  cases h : action state with
  | ok first between =>
    rw [bind_of_ok h]
    constructor
    · exact fun hnext => ⟨first, between, rfl, hnext⟩
    · rintro ⟨_, _, heq, hnext⟩
      cases heq
      exact hnext
  | error error between => simp [bind_of_error h]

theorem bind_eq_error_iff {action : Run α} {next : α → Run β} {state after : RunState}
    {error : EvalError} : (action >>= next) state = .error error after ↔
      action state = .error error after ∨
        ∃ first between, action state = .ok first between ∧
          next first between = .error error after := by
  cases h : action state with
  | ok first between =>
    rw [bind_of_ok h]
    constructor
    · exact fun hnext => Or.inr ⟨first, between, rfl, hnext⟩
    · rintro (heq | ⟨_, _, heq, hnext⟩)
      · cases heq
      · cases heq
        exact hnext
  | error other between => simp [bind_of_error h]

theorem report_apply (event : Event) (state : RunState) :
    report event state = .ok () (state.reporting event) := rfl

theorem scope_apply (state : RunState) : scope state = .ok state.scope state := rfl

theorem setScope_apply (inner : Scope Node) (state : RunState) :
    setScope inner state = .ok () (state.inScope inner) := rfl

theorem scope_bind_apply (next : Scope Node → Run β) (state : RunState) :
    (scope >>= next) state = next state.scope state := rfl

theorem lookup_of_eq_some {name : String} {value : Node} {state : RunState}
    (h : state.scope.lookup? name = some value) : lookup name state = .ok value state := by
  rw [lookup, scope_bind_apply, h]
  rfl

theorem lookup_of_eq_none {name : String} {state : RunState}
    (h : state.scope.lookup? name = none) : lookup name state = .error (.unbound name) state := by
  rw [lookup, scope_bind_apply, h]
  rfl

/-! ### The rules -/

/-- **What an action ensures** in scopes with the property `S`: its value satisfies `Q`, its error
satisfies `R`, and the scope afterwards satisfies `S` again. -/
def Ensures (S : Scope Node → Prop) (Q : α → Prop) (R : EvalError → Prop) (action : Run α) :
    Prop :=
  ∀ state, S state.scope → match action state with
    | .ok value after => Q value ∧ S after.scope
    | .error error after => R error ∧ S after.scope

variable {S : Scope Node → Prop} {Q : α → Prop} {R : EvalError → Prop}

theorem Ensures.of_ok {action : Run α} (h : Ensures S Q R action) {state after : RunState}
    {value : α} (hscope : S state.scope) (hrun : action state = .ok value after) :
    Q value ∧ S after.scope := by
  have hstate := h state hscope
  rwa [hrun] at hstate

theorem Ensures.of_error {action : Run α} (h : Ensures S Q R action) {state after : RunState}
    {error : EvalError} (hscope : S state.scope) (hrun : action state = .error error after) :
    R error ∧ S after.scope := by
  have hstate := h state hscope
  rwa [hrun] at hstate

theorem ensures_pure {value : α} (h : Q value) : Ensures S Q R (pure value) :=
  fun _ hscope => ⟨h, hscope⟩

theorem ensures_throw {error : EvalError} (h : R error) : Ensures S Q R (throw error : Run α) :=
  fun _ hscope => ⟨h, hscope⟩

theorem ensures_bind {P : β → Prop} {action : Run α} {next : α → Run β}
    (haction : Ensures S Q R action) (hnext : ∀ value, Q value → Ensures S P R (next value)) :
    Ensures S P R (action >>= next) := by
  intro state hscope
  cases hrun : action state with
  | ok value after =>
    obtain ⟨hvalue, hafter⟩ := haction.of_ok hscope hrun
    rw [bind_of_ok hrun]
    exact hnext value hvalue after hafter
  | error error after =>
    rw [bind_of_error hrun]
    exact haction.of_error hscope hrun

theorem ensures_ofResult {result : Except EvalError α} (hok : ∀ value, result = .ok value → Q value)
    (herror : ∀ error, result = .error error → R error) : Ensures S Q R (ofResult result) := by
  cases result with
  | ok value => exact ensures_pure (hok value rfl)
  | error error => exact ensures_throw (herror error rfl)

theorem ensures_report (event : Event) : Ensures S (fun _ => True) R (report event) :=
  fun _ hscope => ⟨trivial, hscope⟩

theorem ensures_scope : Ensures S S R scope := fun _ hscope => ⟨hscope, hscope⟩

theorem ensures_setScope {inner : Scope Node} (h : S inner) :
    Ensures S (fun _ => True) R (setScope inner) :=
  fun _ _ => ⟨trivial, h⟩

theorem ensures_freshOrigin : Ensures S (fun _ => True) R freshOrigin :=
  fun _ hscope => ⟨trivial, hscope⟩

theorem ensures_lookup {P : Node → Prop} (name : String)
    (hvalue : ∀ scope : Scope Node, S scope → ∀ value, scope.lookup? name = some value → P value)
    (herror : R (.unbound name)) : Ensures S P R (lookup name) := by
  refine ensures_bind ensures_scope fun scope hscope => ?_
  cases hlookup : scope.lookup? name with
  | some value => exact ensures_pure (hvalue scope hscope value hlookup)
  | none => exact ensures_throw herror

/-- An action in another scope needs the property there, and leaves the scope outside alone. -/
theorem ensures_within {inner : Scope Node} {action : Run α} (hinner : S inner)
    (haction : Ensures S Q R action) : Ensures S Q R (within inner action) := by
  intro state hscope
  have hrun := haction { state with scope := inner } hinner
  unfold within
  cases hresult : action { state with scope := inner } with
  | ok value after =>
    rw [hresult] at hrun
    exact ⟨hrun.1, hscope⟩
  | error error after =>
    rw [hresult] at hrun
    exact ⟨hrun.1, hscope⟩

/-- The errors of an action whose contained errors are handled are those that are not contained,
and those of the handler. -/
theorem ensures_contain {R' : EvalError → Prop} {action : Run α} {handle : EvalError → Run α}
    (haction : Ensures S Q R action)
    (hescape : ∀ error, R error → error.isContained = false → R' error)
    (hhandle : ∀ error, R error → Ensures S Q R' (handle error)) :
    Ensures S Q R' (contain action handle) := by
  intro state hscope
  have hrun := haction state hscope
  unfold contain
  cases hresult : action state with
  | ok value after =>
    rw [hresult] at hrun
    exact hrun
  | error error after =>
    rw [hresult] at hrun
    -- a contained error leaves the state to the handler, any other one passes
    cases hcontained : error.isContained with
    | true =>
      have hafter := hhandle error hrun.1 after hrun.2
      simpa [hcontained] using hafter
    | false => simpa [hcontained] using ⟨hescape error hrun.1 hcontained, hrun.2⟩

theorem Ensures.mono {Q' : α → Prop} {R' : EvalError → Prop} {action : Run α}
    (h : Ensures S Q R action) (hvalue : ∀ value, Q value → Q' value)
    (herror : ∀ error, R error → R' error) : Ensures S Q' R' action := by
  intro state hscope
  have hrun := h state hscope
  cases hresult : action state with
  | ok value after =>
    rw [hresult] at hrun
    exact ⟨hvalue value hrun.1, hrun.2⟩
  | error error after =>
    rw [hresult] at hrun
    exact ⟨herror error hrun.1, hrun.2⟩

/-- What two laws ensure of one action, of which one asks nothing of the scope. -/
theorem Ensures.inter {Q' : α → Prop} {R' : EvalError → Prop} {action : Run α}
    (h : Ensures S Q R action) (hother : Ensures (fun _ => True) Q' R' action) :
    Ensures S (fun value => Q value ∧ Q' value) (fun error => R error ∧ R' error) action := by
  intro state hscope
  have hfirst := h state hscope
  have hsecond := hother state trivial
  cases hrun : action state with
  | ok value after =>
    rw [hrun] at hfirst hsecond
    exact ⟨⟨hfirst.1, hsecond.1⟩, hfirst.2⟩
  | error error after =>
    rw [hrun] at hfirst hsecond
    exact ⟨⟨hfirst.1, hsecond.1⟩, hfirst.2⟩

/-! ### The steps of a `let` -/

section Let

variable {P Q : Node → Prop} {eval : Node → Run Node}

/-- Values that are bound one after the other keep a property of scopes if they have what the
property asks of bound values. -/
theorem ensures_bindInOrder (heval : ∀ node, P node → Ensures S Q R (eval node))
    (hdefine : ∀ scope name value, S scope → Q value → S (scope.define name value))
    {bindings : List (String × Node)} (hbindings : ∀ binding ∈ bindings, P binding.2) :
    Ensures S (fun _ => True) R (bindInOrder eval bindings) := by
  induction bindings with
  | nil => exact ensures_pure trivial
  | cons binding rest ih =>
    obtain ⟨name, value⟩ := binding
    rw [List.forall_mem_cons] at hbindings
    refine ensures_bind (heval value hbindings.1) fun evaluated hevaluated => ?_
    refine ensures_bind ensures_scope fun scope hscope => ?_
    exact ensures_bind (ensures_setScope (hdefine scope name evaluated hscope hevaluated))
      fun _ _ => ih hbindings.2

theorem ensures_forM_report (names : List String) :
    Ensures S (fun _ => True) R (names.forM fun name => report (.closureFixed name)) := by
  induction names with
  | nil => exact ensures_pure trivial
  | cons name rest ih => exact ensures_bind (ensures_report _) fun _ _ => ih

theorem ensures_fixCurrent (hfix : ∀ scope, S scope → S scope.fixClosures) :
    Ensures S (fun _ => True) R fixCurrent :=
  ensures_bind ensures_scope fun scope hscope =>
    ensures_bind (ensures_setScope (hfix scope hscope)) fun _ _ => ensures_forM_report _

theorem ensures_evalSequence (heval : ∀ node, P node → Ensures S Q R (eval node))
    {nodes : List Node} (hnodes : ∀ node ∈ nodes, P node) {value : Node} (hvalue : Q value) :
    Ensures S Q R (evalSequence eval value nodes) := by
  induction nodes generalizing value with
  | nil => exact ensures_pure hvalue
  | cons node rest ih =>
    rw [List.forall_mem_cons] at hnodes
    exact ensures_bind (heval node hnodes.1) fun next hnext => ih hnodes.2 hnext

/-- **What a `let` does in its own scope** ensures what its evaluations do. -/
theorem ensures_runBody (heval : ∀ node, P node → Ensures S Q R (eval node))
    (hdefine : ∀ scope name value, S scope → Q value → S (scope.define name value))
    (hfix : ∀ scope, S scope → S scope.fixClosures) {bindings : List (String × Node)}
    (hbindings : ∀ binding ∈ bindings, P binding.2) {body : List Node}
    (hbody : ∀ node ∈ body, P node) (hnil : Q .nil) :
    Ensures S Q R (runBody eval bindings body) := by
  refine ensures_bind (ensures_report _) fun _ _ => ?_
  refine ensures_bind (ensures_bindInOrder heval hdefine hbindings) fun _ _ => ?_
  exact ensures_bind (ensures_fixCurrent hfix) fun _ _ => ensures_evalSequence heval hbody hnil

end Let

end Run

/-! ### The bindings of a `let` -/

/-- A value that is bound is an item of its binding. -/
theorem exists_mem_of_readBindings {nodes : List Node} {bindings : List (String × Node)}
    (h : readBindings nodes = .ok bindings) :
    ∀ binding ∈ bindings, ∃ items, .form items ∈ nodes ∧ binding.2 ∈ items := by
  induction nodes generalizing bindings with
  | nil =>
    cases h
    exact fun _ hbinding => absurd hbinding List.not_mem_nil
  | cons node rest ih =>
    unfold readBindings at h
    split at h
    · cases h
    · next first hfirst =>
      obtain ⟨others, hothers, rfl⟩ := Except.map_eq_ok_iff.mp h
      rw [List.forall_mem_cons]
      constructor
      · unfold readBinding? at hfirst
        split at hfirst
        · split at hfirst
          · cases hfirst
            exact ⟨_, List.mem_cons_self, by simp⟩
          · cases hfirst
        · cases hfirst
      · intro binding hbinding
        obtain ⟨items, hitems, hvalue⟩ := ih hothers binding hbinding
        exact ⟨items, List.mem_cons_of_mem _ hitems, hvalue⟩

end EntityLisp
