import EntityLisp.Entity

/-!
# Runs

A run evaluates nodes against a state: the current scope, the number that the next closure gets
as its origin, and the journal of what was reported. An action of a run ends with a value or an
error, and in both cases with a state, so what was done before an error stays done.

`Run.within` runs an action in another scope. The scope outside is the same before and after,
however the action ends. `Run.contain` turns the errors that applications contain into values.
-/

namespace EntityLisp

/-- How important a report is. -/
inductive Severity where
  | debug
  | info
  | warning
  deriving DecidableEq

/-- The number that stands for a severity. -/
def Severity.level : Severity → Nat
  | .debug => 10
  | .info => 20
  | .warning => 30

/-- **What a run reports.** Closures are given by their signature. -/
inductive Event where
  | coreForm (name : String)
  | applied (closure : String) (arguments : Nat)
  | applicationFailed (closure : String) (error : EvalError)
  | implemented (trait : TraitTag) (type : TypeTag)
  | entityRefused (message : String)
  | letScope (bindings : Nat)
  | closureFixed (name : String)
  deriving DecidableEq

namespace Event

/-- Only the failure of an application is more than a detail. -/
def severity : Event → Severity
  | .applicationFailed .. => .info
  | _ => .debug

/-- The text of a report. -/
def message : Event → String
  | .coreForm name => "core form " ++ name
  | .applied closure arguments =>
    "apply " ++ closure ++ " to " ++ toString arguments ++ " argument(s)"
  | .applicationFailed closure error =>
    "application of " ++ closure ++ " failed: " ++ error.message
  | .implemented trait type => "impl " ++ trait.name ++ " for " ++ type.name
  | .entityRefused message => "entity construction failed: " ++ message
  | .letScope bindings => "let scope with " ++ toString bindings ++ " binding(s)"
  | .closureFixed name => "fixed closure " ++ name

end Event

/-- **The state of a run.** The journal holds the latest event first. -/
structure RunState where
  scope : Scope Node
  nextOrigin : Nat
  journal : List Event

/-- The state in which a run begins. -/
def RunState.initial (scope : Scope Node) : RunState := ⟨scope, 1, []⟩

/-- **An action of a run.** -/
abbrev Run (α : Type) := EStateM EvalError RunState α

namespace Run

variable {α : Type}

/-- Reports an event. -/
def report (event : Event) : Run Unit :=
  modify fun state => { state with journal := event :: state.journal }

/-- The current scope. -/
def scope : Run (Scope Node) := do return (← get).scope

/-- Replaces the current scope. -/
def setScope (scope : Scope Node) : Run Unit := modify fun state => { state with scope := scope }

/-- The value bound to a name in the current scope. -/
def lookup (name : String) : Run Node := do
  match (← scope).lookup? name with
  | some value => return value
  | none => throw (.unbound name)

/-- A number that no closure of the run has yet as its origin. -/
def freshOrigin : Run Nat := do
  let state ← get
  set { state with nextOrigin := state.nextOrigin + 1 }
  return state.nextOrigin

/-- **Runs an action in another scope** and comes back to the current one. -/
def within (inner : Scope Node) (action : Run α) : Run α := fun state =>
  match action { state with scope := inner } with
  | .ok value after => .ok value { after with scope := state.scope }
  | .error error after => .error error { after with scope := state.scope }

/-- **Runs an action and handles a contained error.** What was done before the error stays
done, and any other error is passed on. -/
def contain (action : Run α) (handle : EvalError → Run α) : Run α := fun state =>
  match action state with
  | .ok value after => .ok value after
  | .error error after =>
    if error.isContained then handle error after else .error error after

/-- A result as an action: its value is returned, or its error thrown. -/
def ofResult (result : Except EvalError α) : Run α :=
  match result with
  | .ok value => pure value
  | .error error => throw error

/-! ### The state after an action -/

/-- The state with which an outcome ends. -/
def finalState {ε σ β : Type} : EStateM.Result ε σ β → σ
  | .ok _ state => state
  | .error _ state => state

/-- The scope outside is not touched by what runs inside. -/
theorem scope_within (inner : Scope Node) (action : Run α) (state : RunState) :
    (finalState (within inner action state)).scope = state.scope := by
  unfold within
  split <;> rfl

end Run

end EntityLisp
