import EntityLisp.Proofs.CallScopes
import EntityLisp.Proofs.LetAsCall

/-!
# Parameters and the closure itself

The names of the closure that is applied are unbound after its parameters are bound. A parameter is
no exception: if its argument is a state of the very closure, the body does not find it.

* `Closure.bindsParameters_callScope`: what the parameters are bound to when the body starts.
* `apply_identity`: an identity function gives back the closure that it is applied to, if that is
  another one.
* `parameters_bound_but_own`: both, for every scope of the caller.
-/

namespace EntityLisp

open Node Run

/-- **The parameters of a call are bound** to what their arguments have been coerced to, where an
argument that is a state of the closure itself leaves its parameter unbound. -/
structure Scope.BindsParameters (scope : Scope Node) (c : Closure Node)
    (bindings : List (String × Node)) : Prop where
  names : Table.keys bindings = c.params.map (·.1)
  bound : ∀ binding ∈ bindings, binding.2.hasOrigin c.origin = false →
    scope.lookup? binding.1 = some binding.2
  own : ∀ binding ∈ bindings, binding.2.hasOrigin c.origin = true →
    scope.lookup? binding.1 = none

/-- **An identity function** on functions, `(lambda ((param as Lambda)) returns Lambda param)`. -/
structure Closure.IsIdentity (c : Closure Node) (param : String) : Prop where
  params : c.params = [(param, .lambda)]
  returns : c.returns = .lambda
  body : c.body = .symbol param

theorem Closure.IsIdentity.isLambdaForm_body {c : Closure Node} {param : String}
    (h : c.IsIdentity param) : c.body.isLambdaForm = false := by
  rw [h.body]
  rfl

section Own

variable {c : Closure Node} {eval : Node → Run Node} {arguments : List Node}
  {state after : RunState}

/-- The scope in which the body starts binds the parameters. -/
theorem Closure.bindsParameters_callScope (hform : c.body.isLambdaForm = false)
    (hparams : (c.params.map (·.1)).Nodup) (hstate : state.scope.IsDistinct)
    {bindings : List (String × Node)} (hnames : Table.keys bindings = c.params.map (·.1)) :
    (c.callScope state.scope bindings).BindsParameters c bindings := by
  have hdistinct : Table.Distinct bindings := by
    rw [Table.Distinct, hnames]
    exact hparams
  have hlookup : ∀ binding ∈ bindings, (c.callScope state.scope bindings).lookup? binding.1 =
      (some binding.2).filter (!·.hasOrigin c.origin) := by
    intro binding hbinding
    rw [c.lookup?_callScope hform hstate hdistinct, Table.get?_of_mem hdistinct hbinding]
    rfl
  refine ⟨hnames, fun binding hbinding hother => ?_, fun binding hbinding hown => ?_⟩
  · rw [hlookup binding hbinding, Option.filter_some, hother]
    rfl
  · rw [hlookup binding hbinding, Option.filter_some, hown]
    rfl

/-! ### What the body comes to -/

/-- The value of the body is checked and becomes the value of the call. -/
theorem ArgumentsPass.applyClosure_of_ok {bindings : List (String × Node)} {last : RunState}
    {value : Node} (h : ArgumentsPass eval c.params arguments
      (state.startArguments c arguments.length) bindings after)
    (hform : c.body.isLambdaForm = false)
    (hbody : eval c.body (after.inScope (c.callScope state.scope bindings)) = .ok value last) :
    applyClosure eval c arguments state =
      .ok (checkResult c.returns value) (last.inScope state.scope) := by
  have hwithin : within (c.callScope state.scope bindings) (eval c.body)
      (after.inScope state.scope) = .ok value (last.inScope state.scope) :=
    within_of_ok hbody state.scope
  exact EntityLisp.applyClosure_of_ok ((h.callClosure_eq hform).trans (bind_of_ok hwithin))

/-- A contained error of the body becomes an error entity. -/
theorem ArgumentsPass.applyClosure_of_error {bindings : List (String × Node)} {last : RunState}
    {error : EvalError} (h : ArgumentsPass eval c.params arguments
      (state.startArguments c arguments.length) bindings after)
    (hform : c.body.isLambdaForm = false)
    (hbody : eval c.body (after.inScope (c.callScope state.scope bindings)) = .error error last)
    (hcontained : error.isContained = true) : ∃ reported,
      applyClosure eval c arguments state = .ok (Failure.stopped error).toNode reported := by
  have hwithin : within (c.callScope state.scope bindings) (eval c.body)
      (after.inScope state.scope) = .error error (last.inScope state.scope) :=
    within_of_error hbody state.scope
  exact EntityLisp.applyClosure_of_error hcontained
    ((h.callClosure_eq hform).trans (bind_of_error hwithin))

/-! ### Identity functions -/

/-- An argument that is a closure passes for the one parameter of an identity function. -/
theorem Closure.IsIdentity.argumentsPass {param : String} (h : c.IsIdentity param)
    {argument : Node} {d : Closure Node} (heval : eval argument state = .ok (.closure d) after) :
    ArgumentsPass eval c.params [argument] state [(param, .closure d)] after := by
  have haccepts : Accepts .lambda (.closure d) (.closure d) := ⟨by rintro ⟨⟩, rfl, d, rfl⟩
  rw [h.params]
  exact .cons heval haccepts (.nil after)

/-- **An identity function gives back** the closure that it is applied to, unless that is a state of
the function itself, whose parameter is then unbound. -/
theorem apply_identity {param : String} (h : c.IsIdentity param)
    (hstate : state.scope.IsDistinct) {limit levels : Nat} {argument : Node} {d : Closure Node}
    (heval : EntityLisp.eval limit (levels + 1) argument (state.startArguments c 1) =
      .ok (.closure d) after) :
    (d.origin ≠ c.origin →
      applyClosure (EntityLisp.eval limit (levels + 1)) c [argument] state =
        .ok (.closure d) (after.inScope state.scope)) ∧
    (d.origin = c.origin → ∃ last,
      applyClosure (EntityLisp.eval limit (levels + 1)) c [argument] state =
        .ok (Failure.stopped (.unbound param)).toNode last) := by
  have hpass := h.argumentsPass heval
  have hbinds : (c.callScope state.scope [(param, .closure d)]).BindsParameters c
      [(param, .closure d)] :=
    Closure.bindsParameters_callScope h.isLambdaForm_body (by rw [h.params]; simp) hstate
      hpass.keys_eq
  have hparam : (param, Node.closure d) ∈ [(param, Node.closure d)] := List.mem_singleton_self _
  let inside : RunState := after.inScope (c.callScope state.scope [(param, .closure d)])
  have hbody : EntityLisp.eval limit (levels + 1) c.body inside = Run.lookup param inside := by
    rw [h.body, eval_succ]
    rfl
  constructor
  · intro hother
    have hlookup : inside.scope.lookup? param = some (.closure d) :=
      hbinds.bound _ hparam (beq_eq_false_iff_ne.mpr hother)
    rw [lookup_of_eq_some hlookup] at hbody
    exact hpass.applyClosure_of_ok h.isLambdaForm_body hbody
  · intro hown
    have hlookup : inside.scope.lookup? param = none :=
      hbinds.own _ hparam (beq_iff_eq.mpr hown)
    rw [lookup_of_eq_none hlookup] at hbody
    exact hpass.applyClosure_of_error h.isLambdaForm_body hbody rfl

/-- **Parameters are bound but for the closure itself.** Let a closure whose body is no function
form be applied to arguments that pass. When its body starts, each parameter is bound to what its
argument has been coerced to, except that a parameter whose argument is a state of the closure
is unbound.

So a name that is bound to an identity function gives, applied to an expression that evaluates to a
closure in the scope of an argument, that closure if it is another one, and else the error entity
for the parameter that is not bound. -/
theorem parameters_bound_but_own (hform : c.body.isLambdaForm = false)
    (hparams : (c.params.map (·.1)).Nodup) (hstate : state.scope.IsDistinct)
    (limit levels : Nat) :
    (∀ arguments bindings after, ArgumentsPass (EntityLisp.eval limit levels) c.params arguments
        (state.startArguments c arguments.length) bindings after →
      List.Forall₂ (fun param binding => binding.1 = param.1 ∧ binding.2.IsArgument param.2)
          c.params bindings ∧
        (c.callScope state.scope bindings).BindsParameters c bindings ∧
          applyClosure (EntityLisp.eval limit levels) c arguments state =
            contain (within (c.callScope state.scope bindings)
                (EntityLisp.eval limit levels c.body) >>= fun value =>
              pure (checkResult c.returns value)) (reportStopped c) (after.inScope state.scope)) ∧
    ∀ param, c.IsIdentity param → ∀ name, CoreForm.ofName? name = none →
      Sugar.ofName? name = none → state.scope.lookup? name = some (.closure c) →
        ∀ argument d after, EntityLisp.eval limit levels argument (state.startArguments c 1) =
            .ok (.closure d) after →
          (d.origin ≠ c.origin →
            EntityLisp.eval limit (levels + 2) (.form [.symbol name, argument]) state =
              .ok (.closure d) (after.inScope state.scope)) ∧
          (d.origin = c.origin → ∃ last,
            EntityLisp.eval limit (levels + 2) (.form [.symbol name, argument]) state =
              .ok (.entity ⟨.error, .str ("Unbound variable: " ++ param), []⟩) last) := by
  constructor
  · intro arguments bindings after hpass
    exact ⟨hpass.forall₂_isArgument,
      Closure.bindsParameters_callScope hform hparams hstate hpass.keys_eq,
      hpass.applyClosure_eq hform⟩
  · intro param hidentity name hcore hsugar hbound argument d after heval
    cases levels with
    | zero => cases heval
    | succ levels =>
      rw [eval_bound hcore hsugar hbound]
      exact apply_identity hidentity hstate heval

end Own

/-- The function `(lambda ((k as Lambda)) returns Lambda k)`, pending where nothing is bound. -/
def pendingIdentity : Closure Node :=
  ⟨[("k", .lambda)], .lambda, .symbol "k", ⟨[], []⟩, false, 1⟩

/-- That function as a `let` fixes it that binds `id` to it. -/
def fixedIdentity : Closure Node :=
  pendingIdentity.fix ⟨[("id", .closure pendingIdentity)], []⟩

/-- A function of no parameters. -/
def otherFunction : Closure Node := ⟨[], .integer, .symbol "n", ⟨[], []⟩, true, 2⟩

/-- A state in which `id` is the identity function and `other` another function. -/
def identityState : RunState :=
  ⟨⟨[("id", .closure fixedIdentity), ("other", .closure otherFunction)], []⟩, 3, []⟩

/-- `(id other)` gives the other function, and `(id id)` an error entity. -/
theorem parameters_bound_but_own_identity : fixedIdentity.body.isLambdaForm = false ∧
    (fixedIdentity.params.map (·.1)).Nodup ∧ identityState.scope.IsDistinct ∧
    (∃ bindings after, ArgumentsPass (eval 200 5) fixedIdentity.params [.symbol "other"]
        (identityState.startArguments fixedIdentity 1) bindings after ∧
      (fixedIdentity.callScope identityState.scope bindings).lookup? "k" =
        some (.closure otherFunction)) ∧
    (∃ last, eval 200 7 (.form [.symbol "id", .symbol "other"]) identityState =
      .ok (.closure otherFunction) last) ∧
    ∃ last, eval 200 7 (.form [.symbol "id", .symbol "id"]) identityState =
      .ok (.entity ⟨.error, .str "Unbound variable: k", []⟩) last := by
  have hstate : identityState.scope.IsDistinct := ⟨by decide, by decide⟩
  have hidentity : fixedIdentity.IsIdentity "k" := ⟨rfl, rfl, rfl⟩
  obtain ⟨hbound, hname⟩ := parameters_bound_but_own (c := fixedIdentity) rfl (by decide) hstate
    200 5
  have hpass : ∃ after, ArgumentsPass (eval 200 5) fixedIdentity.params [.symbol "other"]
      (identityState.startArguments fixedIdentity 1) [("k", .closure otherFunction)] after :=
    ⟨_, hidentity.argumentsPass rfl⟩
  obtain ⟨after, hpass⟩ := hpass
  obtain ⟨-, hbinds, -⟩ := hbound _ _ _ hpass
  obtain ⟨hother, -⟩ := hname "k" hidentity "id" (by decide) (by decide) rfl (.symbol "other")
    otherFunction _ rfl
  obtain ⟨-, hown⟩ := hname "k" hidentity "id" (by decide) (by decide) rfl (.symbol "id")
    pendingIdentity _ rfl
  exact ⟨rfl, by decide, hstate, ⟨_, after, hpass, hbinds.bound _ (List.mem_singleton_self _) rfl⟩,
    ⟨_, hother (by decide)⟩, hown rfl⟩

/-- **An identity function that is applied to itself** does not find its parameter, though its
argument has passed. So the program
`(let ((id be (lambda ((k as Lambda)) returns Lambda k))) (id id))` gives an error entity. -/
theorem identity_of_itself : fixedIdentity.IsIdentity "k" ∧
    identityState.scope.lookup? "id" = some (.closure fixedIdentity) ∧
    (∃ d after, ArgumentsPass (eval 200 5) fixedIdentity.params [.symbol "id"]
        (identityState.startArguments fixedIdentity 1) [("k", .closure d)] after ∧
      (fixedIdentity.callScope identityState.scope [("k", .closure d)]).lookup? "k" = none) ∧
    (∀ d last, eval 200 7 (.form [.symbol "id", .symbol "id"]) identityState ≠
      .ok (.closure d) last) ∧
    ∃ last, evaluate 200 (letForm [("id", functionForm "k" .lambda .lambda (.symbol "k"))]
        [.form [.symbol "id", .symbol "id"]]) (.initial .empty) =
      .ok (.entity ⟨.error, .str "Unbound variable: k", []⟩) last := by
  have hidentity : fixedIdentity.IsIdentity "k" := ⟨rfl, rfl, rfl⟩
  refine ⟨hidentity, rfl, ⟨pendingIdentity, _, hidentity.argumentsPass rfl, rfl⟩, ?_, _, rfl⟩
  rintro d last ⟨⟩

end EntityLisp
