import EntityLisp.Proofs.Calls
import EntityLisp.Proofs.Escape
import EntityLisp.Proofs.Frame
import EntityLisp.Proofs.Ledger

/-!
# The scope of a call

An application evaluates its arguments one after the other in the scope that the closure has
captured, merged with that of the caller, and its body in that scope with the parameters bound and
the closure's own names unbound.

* `ArgumentsPass`: arguments that are accepted by their parameters, one after the other, said
  without the loop that runs over them; `evalArguments_eq_ok_iff` equates the two.
* `Closure.isOfCall_callScope`: what each name is bound to when the body starts.
* `scope_of_call`: **a call looks up a name among its parameters, then among the captured names,
  then in the scope of the caller,** and does not find the closure itself; its arguments are
  evaluated without the parameters, and the first one that is refused is the last one that is
  evaluated.
-/

namespace EntityLisp

open Node Run

/-! ### What is found after several changes -/

namespace Table

variable {κ α : Type} [DecidableEq κ]

/-- A value that is filtered out is not found. -/
theorem get?_filter {table : Table κ α} (h : table.Distinct) (key : κ) (p : α → Bool) :
    get? key (table.filter fun entry => p entry.2) = (get? key table).filter p := by
  induction table with
  | nil => rfl
  | cons entry rest ih =>
    obtain ⟨k, v⟩ := entry
    obtain ⟨hnew, hrest⟩ := List.nodup_cons.mp h
    by_cases hk : k = key
    · -- there is no second entry that the first one hides
      have hnone : get? key rest = none := by
        rw [← Option.not_isSome_iff_eq_none, get?_isSome_iff, ← hk]
        exact hnew
      cases hp : p v with
      | true => simp [get?, hk, hp, Option.filter]
      | false => simp [get?, hk, hp, ih hrest, hnone, Option.filter]
    · cases hp : p v with
      | true => simp [get?, hk, hp, ih hrest]
      | false => simp [get?, hk, hp, ih hrest]

end Table

namespace Scope

variable {scope : Scope Node}

theorem bindings_defineAll (scope : Scope Node) (bindings : List (String × Node)) :
    (scope.defineAll bindings).bindings =
      Table.enter (fun _ value => value) bindings scope.bindings := by
  induction bindings generalizing scope with
  | nil => rfl
  | cons binding rest ih => exact ih (scope.define binding.1 binding.2)

theorem traits_defineAll (scope : Scope Node) (bindings : List (String × Node)) :
    (scope.defineAll bindings).traits = scope.traits := by
  induction bindings generalizing scope with
  | nil => rfl
  | cons binding rest ih => exact ih (scope.define binding.1 binding.2)

theorem lookup?_defineAll {bindings : List (String × Node)} (h : Table.Distinct bindings)
    (name : String) : (scope.defineAll bindings).lookup? name =
      (Table.get? name bindings).or (scope.lookup? name) := by
  rw [lookup?, bindings_defineAll, Table.get?_enter h]
  cases Table.get? name bindings <;> rfl

theorem IsDistinct.defineAll (h : scope.IsDistinct) (bindings : List (String × Node)) :
    (scope.defineAll bindings).IsDistinct := by
  induction bindings generalizing scope with
  | nil => exact h
  | cons binding rest ih => exact ih (h.define binding.1 binding.2)

theorem IsDistinct.lookup?_unbindOrigin (h : scope.IsDistinct) (origin : Nat) (name : String) :
    (scope.unbindOrigin origin).lookup? name =
      (scope.lookup? name).filter (!·.hasOrigin origin) :=
  Table.get?_filter h.bindings name (!·.hasOrigin origin)

end Scope

/-! ### Arguments and parameters -/

/-- **An argument for a parameter of the type:** a closure for the type `Lambda`, and else an entity
of the very type. -/
def Node.IsArgument (type : TypeTag) (value : Node) : Prop :=
  if type = .lambda then ∃ c, value = .closure c else ∃ e, value = .entity e ∧ e.kind = type

theorem takes_iff {type : TypeTag} {value : Node} :
    type.takes value = true ↔ value.IsArgument type := by
  unfold TypeTag.takes IsArgument
  split
  · cases value <;> simp
  · cases value <;> simp

/-- **A parameter accepts a value** and is bound to `bound`: the value is not nil, and becomes an
argument for the type if it is wrapped as far as it can be. -/
structure Accepts (type : TypeTag) (value bound : Node) : Prop where
  notNil : value ≠ .nil
  wrapped : argumentFor type value = .ok bound
  isArgument : bound.IsArgument type

/-- **A parameter refuses a value** with a failure: the value is nil, or does not become an argument
for the type. -/
inductive Refuses (name : String) (type : TypeTag) : Node → Failure → Prop where
  | nil : Refuses name type .nil (.nilArgument name)
  | mismatch {value found : Node} (notNil : value ≠ .nil)
      (wrapped : argumentFor type value = .ok found) (notArgument : ¬found.IsArgument type) :
      Refuses name type value (.argumentType name type found.describe)

section Parameters

variable {name : String} {type : TypeTag} {value : Node}

theorem bindArgument_of_ne_nil (h : value ≠ .nil) : bindArgument name type value =
    (argumentFor type value).map fun found =>
      if type.takes found then .ok found else .error (.argumentType name type found.describe) := by
  unfold bindArgument
  split
  · exact absurd rfl h
  · rfl

theorem bindArgument_accepts_iff {bound : Node} :
    bindArgument name type value = .ok (.ok bound) ↔ Accepts type value bound := by
  by_cases hnil : value = .nil
  · subst hnil
    exact iff_of_false (by rintro ⟨⟩) fun h => h.notNil rfl
  · rw [bindArgument_of_ne_nil hnil, Except.map_eq_ok_iff]
    constructor
    · rintro ⟨found, hfound, heq⟩
      split at heq
      · next htakes =>
        cases heq
        exact ⟨hnil, hfound, takes_iff.mp htakes⟩
      · cases heq
    · rintro ⟨-, hwrapped, hargument⟩
      exact ⟨bound, hwrapped, if_pos (takes_iff.mpr hargument)⟩

theorem bindArgument_refuses_iff {failure : Failure} :
    bindArgument name type value = .ok (.error failure) ↔ Refuses name type value failure := by
  by_cases hnil : value = .nil
  · subst hnil
    constructor
    · rintro ⟨⟩
      exact .nil
    · rintro (_ | ⟨hnot⟩)
      · rfl
      · exact absurd rfl hnot
  · rw [bindArgument_of_ne_nil hnil, Except.map_eq_ok_iff]
    constructor
    · rintro ⟨found, hfound, heq⟩
      split at heq
      · cases heq
      · next htakes =>
        cases heq
        exact .mismatch hnil hfound fun h => htakes (takes_iff.mpr h)
    · rintro (_ | @⟨_, found, _, hwrapped, hnot⟩)
      · exact absurd rfl hnil
      · exact ⟨found, hwrapped, if_neg fun h => hnot (takes_iff.mp h)⟩

end Parameters

/-- **Arguments pass:** one after the other, each in the state that the one before it has left, they
evaluate to values that their parameters accept. -/
inductive ArgumentsPass (eval : Node → Run Node) : List (String × TypeTag) → List Node →
    RunState → List (String × Node) → RunState → Prop where
  | nil (state : RunState) : ArgumentsPass eval [] [] state [] state
  | cons {name : String} {type : TypeTag} {params : List (String × TypeTag)} {argument : Node}
      {arguments : List Node} {state between after : RunState} {value bound : Node}
      {bindings : List (String × Node)} (evaluated : eval argument state = .ok value between)
      (accepted : Accepts type value bound)
      (rest : ArgumentsPass eval params arguments between bindings after) :
      ArgumentsPass eval ((name, type) :: params) (argument :: arguments) state
        ((name, bound) :: bindings) after

namespace ArgumentsPass

variable {eval : Node → Run Node} {params : List (String × TypeTag)} {arguments : List Node}
  {state after : RunState} {bindings : List (String × Node)}

theorem length_eq (h : ArgumentsPass eval params arguments state bindings after) :
    arguments.length = params.length := by
  induction h with
  | nil => rfl
  | cons _ _ _ ih => rw [List.length_cons, List.length_cons, ih]

/-- Each parameter is bound to an argument for its type. -/
theorem forall₂_isArgument (h : ArgumentsPass eval params arguments state bindings after) :
    List.Forall₂ (fun param binding => binding.1 = param.1 ∧ binding.2.IsArgument param.2) params
      bindings := by
  induction h with
  | nil => exact .nil
  | cons _ haccepted _ ih => exact .cons ⟨rfl, haccepted.isArgument⟩ ih

theorem keys_eq (h : ArgumentsPass eval params arguments state bindings after) :
    Table.keys bindings = params.map (·.1) := by
  induction h with
  | nil => rfl
  | cons _ _ _ ih => exact congrArg (_ :: ·) ih

/-- **An argument that is refused** behind arguments that pass is the last one that is
evaluated. -/
theorem evalArguments_of_refuses (h : ArgumentsPass eval params arguments state bindings after)
    {name : String} {type : TypeTag} {argument value : Node} {last : RunState} {failure : Failure}
    (hvalue : eval argument after = .ok value last) (hrefuses : Refuses name type value failure)
    (later : List (String × TypeTag)) (rest : List Node) :
    evalArguments eval (params ++ (name, type) :: later) (arguments ++ argument :: rest) state =
      .ok (.error failure) last := by
  induction h with
  | nil =>
    show evalArguments eval ((name, type) :: later) (argument :: rest) _ = _
    rw [evalArguments_cons, bind_of_ok hvalue, bindArgument_refuses_iff.mpr hrefuses]
    rfl
  | @cons first firstType _ _ _ _ _ _ _ bound _ hfirst haccepted _ ih =>
    rw [List.cons_append, List.cons_append, evalArguments_cons, bind_of_ok hfirst,
      bindArgument_accepts_iff.mpr haccepted]
    show (evalArguments eval _ _ >>= fun others => pure (others.map ((first, bound) :: ·))) _ = _
    rw [bind_of_ok (ih hvalue)]
    rfl

/-- Arguments are evaluated in a scope to which evaluation only adds declared traits. -/
theorem declaredFrom {limit levels : Nat} {start : Scope Node}
    (h : ArgumentsPass (EntityLisp.eval limit levels) params arguments state bindings after)
    (hstart : DeclaredFrom start state.scope) : DeclaredFrom start after.scope := by
  induction h with
  | nil => exact hstart
  | @cons _ _ _ argument _ state between _ _ _ _ hvalue _ _ ih =>
    have hbetween := declaredFrom_eval limit levels argument state
    rw [hvalue] at hbetween
    exact ih (hstart.trans hbetween)

end ArgumentsPass

/-- **The loop over the arguments binds them** if and only if they pass. -/
theorem evalArguments_eq_ok_iff {eval : Node → Run Node} {params : List (String × TypeTag)}
    {arguments : List Node} (hlength : arguments.length = params.length)
    {state after : RunState} {bindings : List (String × Node)} :
    evalArguments eval params arguments state = .ok (.ok bindings) after ↔
      ArgumentsPass eval params arguments state bindings after := by
  induction params generalizing arguments state bindings with
  | nil =>
    obtain rfl := List.length_eq_zero_iff.mp hlength
    constructor
    · rintro ⟨⟩
      exact .nil _
    · rintro ⟨⟩
      rfl
  | cons param params ih =>
    obtain ⟨name, type⟩ := param
    obtain ⟨argument, arguments, rfl⟩ := List.exists_cons_of_length_eq_add_one hlength
    have hrest : arguments.length = params.length := Nat.succ.inj hlength
    rw [evalArguments_cons_eq_ok_iff]
    constructor
    · rintro ⟨value, between, bound, others, hvalue, hbound, hothers, rfl⟩
      exact .cons hvalue (bindArgument_accepts_iff.mp hbound) ((ih hrest).mp hothers)
    · rintro (_ | ⟨hvalue, haccepted, hothers⟩)
      exact ⟨_, _, _, _, hvalue, bindArgument_accepts_iff.mpr haccepted, (ih hrest).mpr hothers,
        rfl⟩

/-! ### The scopes of a call -/

/-- **A closure that enters no key twice,** neither among its parameters nor in the scope that it
has captured. -/
structure Closure.IsDistinct (c : Closure Node) : Prop where
  params : (c.params.map (·.1)).Nodup
  captured : c.scope.IsDistinct

/-- **The scope in which the body of a closure starts,** where its parameters are bound. -/
def Closure.callScope (c : Closure Node) (caller : Scope Node) (bindings : List (String × Node)) :
    Scope Node :=
  bodyScope c ((c.scope.mergedWith caller).defineAll bindings)

/-- **The scope of a call, name by name.** A parameter comes first, then what the closure has
captured, then what the caller binds; a name that would so be bound to a state of the closure itself
is not bound. The traits are those that the closure has captured and those of the caller. -/
structure Scope.IsOfCall (scope : Scope Node) (c : Closure Node) (caller : Scope Node)
    (bindings : List (String × Node)) : Prop where
  values : ∀ name, scope.lookup? name = ((Table.get? name bindings).or
    ((c.scope.lookup? name).or (caller.lookup? name))).filter (!·.hasOrigin c.origin)
  traits : ∀ type, scope.traitsFor type = (c.scope.traitsFor type).union (caller.traitsFor type)

/-- **The scope of an argument:** what the closure has captured, then what the caller binds. Other
arguments may have declared traits in it. -/
structure Scope.IsOfArgument (scope : Scope Node) (c : Closure Node) (caller : Scope Node) :
    Prop where
  values : ∀ name, scope.lookup? name = (c.scope.lookup? name).or (caller.lookup? name)
  declared : DeclaredFrom (c.scope.mergedWith caller) scope

section Call

variable {c : Closure Node} {caller : Scope Node}

theorem TraitSet.union_comm (a b : TraitSet) : a.union b = b.union a :=
  TraitSet.ext_has fun trait => by simp [Bool.or_comm]

/-- The scope in which a body starts that is no function form. -/
theorem Closure.callScope_eq (hform : c.body.isLambdaForm = false)
    (bindings : List (String × Node)) : c.callScope caller bindings =
      ((c.scope.mergedWith caller).defineAll bindings).unbindOrigin c.origin := by
  rw [callScope, bodyScope, hform, if_neg Bool.false_ne_true]

/-- A parameter hides what its name is bound to in the merged scope, and then the closure itself is
not found. -/
theorem Closure.lookup?_callScope (hform : c.body.isLambdaForm = false)
    (hcaller : caller.IsDistinct) {bindings : List (String × Node)}
    (hbindings : Table.Distinct bindings) (name : String) :
    (c.callScope caller bindings).lookup? name = ((Table.get? name bindings).or
      ((c.scope.mergedWith caller).lookup? name)).filter (!·.hasOrigin c.origin) := by
  have hdistinct := (hcaller.mergedWith c.scope).defineAll bindings
  rw [callScope_eq hform, hdistinct.lookup?_unbindOrigin, Scope.lookup?_defineAll hbindings]

/-- The scope in which the body starts is the scope of the call. -/
theorem Closure.isOfCall_callScope (hform : c.body.isLambdaForm = false) (hc : c.IsDistinct)
    (hcaller : caller.IsDistinct) {bindings : List (String × Node)}
    (hbindings : Table.Distinct bindings) :
    (c.callScope caller bindings).IsOfCall c caller bindings := by
  have hmerged := hc.captured.mergesInOrder caller
  refine ⟨fun name => ?_, fun type => ?_⟩
  · rw [lookup?_callScope hform hcaller hbindings, hmerged.values]
  · rw [callScope_eq hform]
    show ((c.scope.mergedWith caller).defineAll bindings).traitsFor type = _
    rw [Scope.traitsFor, Scope.traits_defineAll, TraitSet.union_comm]
    exact hmerged.united type

variable {eval : Node → Run Node} {arguments : List Node} {state : RunState}

/-- The state in which an application evaluates its first argument. -/
def RunState.startArguments (state : RunState) (c : Closure Node) (count : Nat) : RunState :=
  (state.reporting (.applied c.signature count)).inScope (c.scope.mergedWith state.scope)

/-- What an application comes to where what it contains comes to `action`. -/
theorem applyClosure_of_callClosure {action : Run Node} {reached : RunState}
    (h : callClosure eval c arguments (state.reporting (.applied c.signature arguments.length)) =
      action reached) :
    applyClosure eval c arguments state = contain action (reportStopped c) reached := by
  rw [applyClosure, bind_of_ok (report_apply _ state), contain, h]
  rfl

/-- Arguments that are bound are followed by the body, and the scope of the caller is put back. -/
theorem callClosure_of_bound (hcount : arguments.length = c.arity)
    {bindings : List (String × Node)} {after : RunState}
    (h : evalArguments eval c.params arguments
      (state.inScope (c.scope.mergedWith state.scope)) = .ok (.ok bindings) after) :
    callClosure eval c arguments state =
      runCall eval c ((c.scope.mergedWith state.scope).defineAll bindings)
        (after.inScope state.scope) := by
  rw [callClosure, if_pos hcount, scope_bind_apply,
    bind_of_ok (within_eq_ok_iff.mpr ⟨after, h, rfl⟩)]

/-- The failure of an argument is the value of the call. -/
theorem callClosure_of_refused (hcount : arguments.length = c.arity) {failure : Failure}
    {after : RunState}
    (h : evalArguments eval c.params arguments
      (state.inScope (c.scope.mergedWith state.scope)) = .ok (.error failure) after) :
    callClosure eval c arguments state = .ok failure.toNode (after.inScope state.scope) := by
  rw [callClosure, if_pos hcount, scope_bind_apply,
    bind_of_ok (within_eq_ok_iff.mpr ⟨after, h, rfl⟩)]
  rfl

/-- **The body runs in the scope of the call** once all arguments have passed. -/
theorem ArgumentsPass.callClosure_eq {bindings : List (String × Node)} {after : RunState}
    (h : ArgumentsPass eval c.params arguments (state.startArguments c arguments.length) bindings
      after) (hform : c.body.isLambdaForm = false) :
    callClosure eval c arguments (state.reporting (.applied c.signature arguments.length)) =
      (within (c.callScope state.scope bindings) (eval c.body) >>= fun value =>
        pure (checkResult c.returns value)) (after.inScope state.scope) := by
  have hbody : runCall eval c ((c.scope.mergedWith state.scope).defineAll bindings) =
      within (c.callScope state.scope bindings) (eval c.body) >>= fun value =>
        pure (checkResult c.returns value) := by
    rw [runCall, Closure.callScope, bodyScope, hform]
    rfl
  rw [← hbody]
  exact callClosure_of_bound h.length_eq ((evalArguments_eq_ok_iff h.length_eq).mpr h)

theorem ArgumentsPass.applyClosure_eq {bindings : List (String × Node)} {after : RunState}
    (h : ArgumentsPass eval c.params arguments (state.startArguments c arguments.length) bindings
      after) (hform : c.body.isLambdaForm = false) :
    applyClosure eval c arguments state =
      contain (within (c.callScope state.scope bindings) (eval c.body) >>= fun value =>
        pure (checkResult c.returns value)) (reportStopped c) (after.inScope state.scope) :=
  applyClosure_of_callClosure (h.callClosure_eq hform)

/-- **A refused argument is answered** without a look at those behind it. -/
theorem applyClosure_of_refuses {earlier later : List (String × TypeTag)} {name : String}
    {type : TypeTag} {before rest : List Node} {argument value : Node}
    {bindings : List (String × Node)} {reached after : RunState} {failure : Failure}
    (hparams : c.params = earlier ++ (name, type) :: later)
    (hcount : (before ++ argument :: rest).length = c.arity)
    (hpass : ArgumentsPass eval earlier before
      (state.startArguments c (before ++ argument :: rest).length) bindings reached)
    (hvalue : eval argument reached = .ok value after)
    (hrefuses : Refuses name type value failure) :
    applyClosure eval c (before ++ argument :: rest) state =
      .ok failure.toNode (after.inScope state.scope) := by
  have hbound := hpass.evalArguments_of_refuses hvalue hrefuses later rest
  rw [← hparams] at hbound
  have hcall : callClosure eval c (before ++ argument :: rest)
      (state.reporting (.applied c.signature (before ++ argument :: rest).length)) =
        (pure failure.toNode : Run Node) (after.inScope state.scope) :=
    callClosure_of_refused hcount hbound
  exact applyClosure_of_callClosure hcall

/-- **The scope of a call.** Let a closure whose body is no function form be applied to as many
arguments as it takes.

Where the arguments pass, each parameter is bound to an argument for its type, and the body is
evaluated in the scope of the call: a name is a parameter, or else captured, or else bound by the
caller, unless it would be bound to a state of the closure itself.

Each argument, once those before it have passed, is evaluated in the scope of the closure merged
with that of the caller, in which no parameter of the call is bound. The first one that is refused
decides what the call gives, and those behind it are not evaluated. -/
theorem scope_of_call (hform : c.body.isLambdaForm = false) (hc : c.IsDistinct)
    (hstate : state.scope.IsDistinct) (hcount : arguments.length = c.arity) (limit levels : Nat) :
    (∀ bindings after, ArgumentsPass (EntityLisp.eval limit levels) c.params arguments
        (state.startArguments c arguments.length) bindings after →
      List.Forall₂ (fun param binding => binding.1 = param.1 ∧ binding.2.IsArgument param.2)
          c.params bindings ∧
        (c.callScope state.scope bindings).IsOfCall c state.scope bindings ∧
          applyClosure (EntityLisp.eval limit levels) c arguments state =
            contain (within (c.callScope state.scope bindings)
                (EntityLisp.eval limit levels c.body) >>= fun value =>
              pure (checkResult c.returns value)) (reportStopped c) (after.inScope state.scope)) ∧
    ∀ earlier name type later before argument rest bindings reached,
      c.params = earlier ++ (name, type) :: later → arguments = before ++ argument :: rest →
        ArgumentsPass (EntityLisp.eval limit levels) earlier before
          (state.startArguments c arguments.length) bindings reached →
        reached.scope.IsOfArgument c state.scope ∧
          ∀ value after failure, EntityLisp.eval limit levels argument reached = .ok value after →
            Refuses name type value failure →
              applyClosure (EntityLisp.eval limit levels) c arguments state =
                .ok failure.toNode (after.inScope state.scope) := by
  constructor
  · intro bindings after hpass
    have hdistinct : Table.Distinct bindings := by
      rw [Table.Distinct, hpass.keys_eq]
      exact hc.params
    exact ⟨hpass.forall₂_isArgument, Closure.isOfCall_callScope hform hc hstate hdistinct,
      hpass.applyClosure_eq hform⟩
  · rintro earlier name type later before argument rest bindings reached hparams rfl hpass
    have hdeclared : DeclaredFrom (c.scope.mergedWith state.scope) reached.scope :=
      hpass.declaredFrom (.refl _)
    refine ⟨⟨fun other => ?_, hdeclared⟩, fun value after failure hvalue hrefuses =>
      applyClosure_of_refuses hparams hcount hpass hvalue hrefuses⟩
    rw [Scope.lookup?, hdeclared.bindings_eq]
    exact (hc.captured.mergesInOrder state.scope).values other

end Call

/-- The function `(lambda ((y as Integer) (g as Lambda)) returns Integer (add x y))`, pending where
nothing is bound. -/
def pendingNamed : Closure Node :=
  ⟨[("y", .integer), ("g", .lambda)], .integer,
    .form [.symbol "add", .symbol "x", .symbol "y"], ⟨[], []⟩, false, 1⟩

/-- That function fixed where `x` is 1 and `f` is the function. -/
def fixedNamed : Closure Node :=
  pendingNamed.fix ⟨[("x", .entity (integerEntity 1)), ("f", .closure pendingNamed)], []⟩

/-- A state in which `f` and `h` are names of the fixed function, `x` is 5 and `z` is 7. -/
def namedState : RunState :=
  ⟨⟨[("x", .entity (integerEntity 5)), ("f", .closure fixedNamed), ("h", .closure fixedNamed),
    ("z", .entity (integerEntity 7))], []⟩, 2, []⟩

/-- With the arguments 2 and `f` the body finds `y`, the captured `x` and the `z` of the caller, but
neither of the names of the function, nor `g`, which is the function as well. With the arguments
`"two"` and `w` the call fails at the first, and does not find out that `w` is unbound. -/
theorem scope_of_call_fixedNamed : fixedNamed.body.isLambdaForm = false ∧
    fixedNamed.IsDistinct ∧ namedState.scope.IsDistinct ∧
    (∃ bindings after, ArgumentsPass (eval 200 5) fixedNamed.params [.int 2, .symbol "f"]
        (namedState.startArguments fixedNamed 2) bindings after ∧
      ["y", "x", "z", "f", "h", "g"].map
          (fixedNamed.callScope namedState.scope bindings).lookup? =
        [some (.entity (integerEntity 2)), some (.entity (integerEntity 1)),
          some (.entity (integerEntity 7)), none, none, none]) ∧
    ∃ after, applyClosure (eval 200 5) fixedNamed [.str "two", .symbol "w"] namedState =
      .ok (Failure.argumentType "y" .integer "string").toNode after := by
  have hfunction : fixedNamed.IsDistinct := ⟨by decide, by decide, by decide⟩
  have hstate : namedState.scope.IsDistinct := ⟨by decide, by decide⟩
  have hpass : ∃ after, ArgumentsPass (eval 200 5) fixedNamed.params [.int 2, .symbol "f"]
      (namedState.startArguments fixedNamed 2)
      [("y", .entity (integerEntity 2)), ("g", .closure pendingNamed)] after :=
    ⟨_, .cons rfl ⟨by rintro ⟨⟩, rfl, _, rfl, rfl⟩
      (.cons rfl ⟨by rintro ⟨⟩, rfl, _, rfl⟩ (.nil _))⟩
  obtain ⟨after, hpass⟩ := hpass
  refine ⟨rfl, hfunction, hstate, ⟨_, after, hpass, ?_⟩, ?_⟩
  · obtain ⟨-, hscope, -⟩ := (scope_of_call rfl hfunction hstate rfl 200 5).1 _ after hpass
    rw [List.map_congr_left fun name _ => hscope.values name]
    rfl
  · have hrefuses : Refuses "y" .integer (.str "two") (.argumentType "y" .integer "string") :=
      .mismatch (by rintro ⟨⟩) (rfl : argumentFor .integer (.str "two") = .ok (.str "two"))
        (by rintro ⟨e, ⟨⟩, -⟩)
    have hcount : [Node.str "two", .symbol "w"].length = fixedNamed.arity := rfl
    obtain ⟨-, hfirst⟩ := (scope_of_call rfl hfunction hstate hcount 200 5).2 [] "y" .integer _ []
      (.str "two") [.symbol "w"] [] _ rfl rfl (.nil _)
    exact ⟨_, hfirst _ _ _ rfl hrefuses⟩

end EntityLisp
