import EntityLisp.Proofs.Reachable
import EntityLisp.Proofs.Renumbering

/-!
# A `let` as a call

A `let` of one name and the call of a function with that parameter bind the same value and then
evaluate the same body: the one in a copy of the scope, in which the pending closures are fixed, and
the other in the scope that the function has captured, merged with that of the call, without the
names of the function itself. In a scope without pending closures these two are the same, and so
are the two results, where the function has taken one number for itself.

* `Scope.IsDistinct.mergedWith_self`, `Scope.fixClosures_define_entity`,
  `Scope.unbindOrigin_define_entity`: merging, fixing and unbinding change nothing there.
* `call_follows_let`: the two ways to the body.
* `call_agrees_with_let`: **the call gives what the `let` gives,** up to the numbers of closures,
  and an error entity where the body stops.
-/

namespace EntityLisp

open Node Run

/-! ### Steps that change nothing -/

namespace Table

variable {κ α : Type} [DecidableEq κ]

theorem get?_of_mem {table : Table κ α} (h : table.Distinct) {entry : κ × α}
    (hentry : entry ∈ table) : get? entry.1 table = some entry.2 := by
  induction table with
  | nil => exact absurd hentry List.not_mem_nil
  | cons first rest ih =>
    obtain ⟨k, v⟩ := first
    obtain ⟨hnew, hrest⟩ := List.nodup_cons.mp h
    rcases List.mem_cons.mp hentry with rfl | hmem
    · exact if_pos rfl
    · have hne : k ≠ entry.1 := by
        rintro rfl
        exact hnew (List.mem_map.mpr ⟨entry, hmem, rfl⟩)
      rw [get?, if_neg hne, ih hrest hmem]

theorem put_of_get? {table : Table κ α} {key : κ} {value : α} (h : get? key table = some value) :
    put key value table = table := by
  induction table with
  | nil => cases h
  | cons first rest ih =>
    obtain ⟨k, v⟩ := first
    unfold get? at h
    unfold put
    split at h
    · next hk =>
      cases h
      rw [if_pos hk]
    · next hk => rw [if_neg hk, ih h]

/-- **Entering a table into itself** changes nothing, if no value changes with itself. -/
theorem enter_self {combine : Option α → α → α} (hcombine : ∀ value, combine (some value) value =
    value) {table : Table κ α} (h : table.Distinct) : enter combine table table = table := by
  have hentries : ∀ entries : Table κ α, (∀ entry ∈ entries, entry ∈ table) →
      enter combine entries table = table := by
    intro entries
    induction entries with
    | nil => exact fun _ => rfl
    | cons entry rest ih =>
      intro hentries
      rw [List.forall_mem_cons] at hentries
      have hget := get?_of_mem h hentries.1
      show enter combine rest (put entry.1 (combine (get? entry.1 table) entry.2) table) = table
      rw [hget, hcombine, put_of_get? hget, ih hentries.2]
  exact hentries table fun _ hentry => hentry

end Table

/-- A node has no number that is still to be given out. -/
theorem Node.Avoids.hasOrigin {hidden : List String} {bound : Nat} {node : Node}
    (h : node.Avoids hidden bound) : node.hasOrigin bound = false := by
  cases node with
  | closure c =>
    cases h with
    | plain hplain => cases hplain
    | closure horigin => exact beq_eq_false_iff_ne.mpr (Nat.ne_of_lt horigin)
  | _ => rfl

namespace Scope

variable {scope : Scope Node}

theorem IsDistinct.mergedWith_self (h : scope.IsDistinct) : scope.mergedWith scope = scope := by
  have hbindings : (scope.mergedWith scope).bindings = scope.bindings := by
    rw [bindings_mergedWith]
    exact Table.enter_self (fun _ => rfl) h.bindings
  have htraits : (scope.mergedWith scope).traits = scope.traits := by
    rw [traits_mergedWith]
    exact Table.enter_self TraitSet.union_self h.traits
  exact congrArg₂ Scope.mk hbindings htraits

/-- Where no pending closure is bound there is nothing to fix. -/
theorem fixClosures_eq_self (h : ∀ binding ∈ scope.bindings, binding.2.isPending = false) :
    scope.fixClosures = scope := by
  refine fixClosures_induction (P := fun current => current = scope) rfl
    fun current name c _ hbinding hpending => ?_
  have hnot := h _ hbinding
  simp [Node.isPending, hpending] at hnot

theorem isPending_of_pendingNames_eq_nil (h : scope.pendingNames = []) :
    ∀ binding ∈ scope.bindings, binding.2.isPending = false := by
  rw [pendingNames, List.map_eq_nil_iff, List.filter_eq_nil_iff] at h
  exact fun binding hbinding => Bool.eq_false_iff.mpr (h binding hbinding)

/-- Binding an entity does not make anything pending. -/
theorem fixClosures_define_entity (h : scope.pendingNames = []) (name : String) (e : Entity Node) :
    (scope.define name (.entity e)).fixClosures = scope.define name (.entity e) := by
  refine fixClosures_eq_self fun binding hbinding => ?_
  rcases Table.mem_put hbinding with heq | hmem
  · rw [heq]
    rfl
  · exact isPending_of_pendingNames_eq_nil h binding hmem

/-- What is bound to a closure that has just been made is not in the scope from before. -/
theorem unbindOrigin_define_entity {bound : Nat} (h : scope.Avoids [] bound) (name : String)
    (e : Entity Node) :
    (scope.define name (.entity e)).unbindOrigin bound = scope.define name (.entity e) := by
  have hkept : ∀ binding ∈ (scope.define name (.entity e)).bindings,
      (!binding.2.hasOrigin bound) = true := by
    intro binding hbinding
    rcases Table.mem_put hbinding with heq | hmem
    · rw [heq]
      rfl
    · rw [(h binding hmem).hasOrigin]
      rfl
  exact congrArg (fun bindings => Scope.mk bindings scope.traits) (List.filter_eq_self.mpr hkept)

end Scope

/-! ### The call -/

/-- The form `(lambda ((name as Type)) returns Type body)` of a function of one parameter. -/
def functionForm (name : String) (type returns : TypeTag) (body : Node) : Node :=
  .form [.symbol CoreForm.lambda.name,
    .form [.form [.symbol name, .symbol "as", .symbol type.name]],
    .symbol "returns", .symbol returns.name, body]

/-- **The call** of that function on the spot, with one argument. -/
def callForm (name : String) (type returns : TypeTag) (body argument : Node) : Node :=
  .form [functionForm name type returns body, argument]

/-- The closure that the function form makes in a state. -/
def madeClosure (state : RunState) (name : String) (type returns : TypeTag) (body : Node) :
    Closure Node :=
  ⟨[(name, type)], returns, body, state.scope, false, state.nextOrigin⟩

/-- The state after the function form has made its closure. -/
def RunState.afterMaking (state : RunState) : RunState :=
  { state.reporting (.coreForm CoreForm.lambda.name) with nextOrigin := state.nextOrigin + 1 }

/-- The state in which a call of that closure evaluates its argument. -/
def RunState.startCall (state : RunState) (c : Closure Node) : RunState :=
  state.afterMaking.reporting (.applied c.signature 1)

section Call

variable {limit levels : Nat} {name : String} {type returns : TypeTag} {body argument : Node}
  {state : RunState}

theorem readSignature_functionForm (name : String) (type returns : TypeTag) :
    readSignature (.form [.form [.symbol name, .symbol "as", .symbol type.name]])
      (.symbol "returns") (.symbol returns.name) = .ok ([(name, type)], returns) := by
  have hparams : readParams [] [.form [.symbol name, .symbol "as", .symbol type.name]] =
      .ok [(name, type)] := by
    simp [readParams, readParam?, typeTag?, TypeTag.ofName?_name, Except.map]
  simp [readSignature, isSymbol, hparams, Except.bind, typeTag?, TypeTag.ofName?_name]

/-- **The function form** makes a closure over the scope, whose number is the next one. -/
theorem eval_functionForm (hself : body.isSymbol selfName = false) (limit levels : Nat) :
    eval limit (levels + 1) (functionForm name type returns body) state =
      .ok (.closure (madeClosure state name type returns body)) state.afterMaking := by
  rw [eval_succ, functionForm, evalNode_core, bind_of_ok (report_apply _ state)]
  simp only [runCore, runLambda, readSignature_functionForm, hself]
  rfl

/-- The call applies the closure in the state that making it has left. -/
theorem eval_callForm (hself : body.isSymbol selfName = false) :
    eval limit (levels + 2) (callForm name type returns body argument) state =
      applyClosure (eval limit levels) (madeClosure state name type returns body) [argument]
        state.afterMaking := by
  have hsteps : ∀ eval argEval : Node → Run Node,
      evalNode eval argEval (callForm name type returns body argument) =
        eval (functionForm name type returns body) >>= fun value =>
          applyHead argEval (functionForm name type returns body) value [argument] := by
    intro eval argEval
    rw [callForm, evalNode_form, desugar_of_sugar?_eq_none rfl]
    rfl
  rw [eval_succ, hsteps, bind_of_ok (eval_functionForm hself limit levels)]
  rfl

/-- An argument of the type is bound as it is. -/
theorem evalArguments_singleton {eval : Node → Run Node} {e : Entity Node} {after : RunState}
    (heval : eval argument state = .ok (.entity e) after) (hkind : e.kind = type)
    (htype : type ≠ .lambda) : evalArguments eval [(name, type)] [argument] state =
      .ok (.ok [(name, .entity e)]) after := by
  have hbind : bindArgument name type (.entity e) = .ok (.ok (.entity e)) := by
    simp [bindArgument, argumentFor, Except.map, TypeTag.takes, htype, hkind]
  rw [evalArguments, bind_of_ok heval, hbind]
  rfl

/-- **The steps of a call** whose argument has been evaluated. -/
theorem callClosure_singleton {eval : Node → Run Node} {c : Closure Node} {e : Entity Node}
    {after : RunState} (hparams : c.params = [(name, type)])
    (hmerged : c.scope.mergedWith state.scope = state.scope)
    (heval : eval argument state = .ok (.entity e) after) (hkind : e.kind = type)
    (htype : type ≠ .lambda) : callClosure eval c [argument] state =
      runCall eval c (state.scope.define name (.entity e)) (after.inScope state.scope) := by
  have harity : [argument].length = c.arity := by rw [Closure.arity, hparams]; rfl
  have hbound : within state.scope (evalArguments eval c.params [argument]) state =
      .ok (.ok [(name, .entity e)]) (after.inScope state.scope) := by
    rw [within_apply, hparams, show state.inScope state.scope = state from rfl,
      evalArguments_singleton heval hkind htype]
  rw [callClosure, if_pos harity, scope_bind_apply, hmerged, bind_of_ok hbound]
  rfl

/-- An entity of the type that is to be returned passes. -/
theorem checkResult_entity {e : Entity Node} (h : e.kind = returns) :
    checkResult returns (.entity e) = .entity e := if_pos h

theorem within_of_ok {α : Type} {action : Run α} {value : α} {inside after : RunState}
    (h : action inside = .ok value after) (outer : Scope Node) :
    within inside.scope action (inside.inScope outer) = .ok value (after.inScope outer) := by
  rw [within_apply, show (inside.inScope outer).inScope inside.scope = inside from rfl, h]
  rfl

theorem within_of_error {α : Type} {action : Run α} {error : EvalError} {inside after : RunState}
    (h : action inside = .error error after) (outer : Scope Node) :
    within inside.scope action (inside.inScope outer) = .error error (after.inScope outer) := by
  rw [within_apply, show (inside.inScope outer).inScope inside.scope = inside from rfl, h]
  rfl

theorem applyClosure_of_ok {eval : Node → Run Node} {c : Closure Node} {arguments : List Node}
    {value : Node} {after : RunState}
    (h : callClosure eval c arguments (state.reporting (.applied c.signature arguments.length)) =
      .ok value after) : applyClosure eval c arguments state = .ok value after := by
  rw [applyClosure, bind_of_ok (report_apply _ state), contain, h]

/-- A contained error becomes an error entity. -/
theorem applyClosure_of_error {eval : Node → Run Node} {c : Closure Node} {arguments : List Node}
    {error : EvalError} {after : RunState} (hcontained : error.isContained = true)
    (h : callClosure eval c arguments (state.reporting (.applied c.signature arguments.length)) =
      .error error after) : ∃ last, applyClosure eval c arguments state =
        .ok (Failure.stopped error).toNode last := by
  rw [applyClosure, bind_of_ok (report_apply _ state), contain, h]
  simp only [hcontained, if_true]
  exact ⟨_, rfl⟩

end Call

/-! ### Both ways side by side -/

/-- The correspondence of two runs of which the second has made some more closures before, where
traits have to be the same as well. -/
def Correspondence.shiftOnly (bound more : Nat) : Correspondence :=
  { Correspondence.shift bound more with traits := True }

section SideBySide

variable {bound more : Nat}

theorem keeps_shiftOnly (bound more : Nat) :
    (Correspondence.shiftOnly bound more).Keeps [] bound :=
  ⟨rfl, fun _ horigin => if_pos horigin⟩

theorem renumbers_shiftOnly (bound more : Nat) : (Correspondence.shiftOnly bound more).Renumbers
    fun origin => if origin < bound then origin else origin + more :=
  ⟨rfl, rfl, trivial⟩

variable {limit levels : Nat} {state start between : RunState} {a b : Node} {e : Entity Node}

/-- States with the same sound scope are in step, where one may have made more closures. -/
theorem RunState.IsSound.inStep (h : state.IsSound) (hscope : start.scope = state.scope)
    (hnext : start.nextOrigin = state.nextOrigin + more) :
    InStep (.shiftOnly state.nextOrigin more) (Scope.Agree (.shiftOnly state.nextOrigin more))
      state start := by
  refine ⟨?_, fun later => ?_⟩
  · rw [hscope]
    exact (keeps_shiftOnly _ _).agree h.avoids
  · rw [hnext]
    exact shift_origin_add state.nextOrigin more later

/-- **What an expression gives that declares nothing,** in another state with the same scope. -/
theorem exists_eval_of_scope_eq (start : RunState) (more : Nat) (h : state.IsSound)
    (ha : a.Avoids [] state.nextOrigin)
    (heval : eval limit levels a state = .ok (.entity e) between)
    (htraits : between.scope.traits = state.scope.traits) (hscope : start.scope = state.scope)
    (hnext : start.nextOrigin = state.nextOrigin + more) :
    ∃ e' after, eval limit levels a start = .ok (.entity e') after ∧
      AlikeEntity (.shiftOnly state.nextOrigin more) e e' ∧ after.scope = state.scope ∧
        ∀ later, (Correspondence.shiftOnly state.nextOrigin more).origin
          (between.nextOrigin + later) = after.nextOrigin + later := by
  have hkeeps := keeps_shiftOnly state.nextOrigin more
  have hrun := matchingEvals_eval limit levels a a (hkeeps.alike ha) state start
    (h.inStep hscope hnext)
  rw [heval] at hrun
  generalize houtcome : eval limit levels a start = outcome at hrun
  cases hrun with
  | @ok _ value' _ after hvalue hstep =>
    cases value' with
    | entity e' =>
      have hbindings : after.scope.bindings = state.scope.bindings := by
        rw [(eval_keeps houtcome).1, hscope]
      have hsame : after.scope.traits = state.scope.traits :=
        (hstep.scope.traits trivial).symm.trans htraits
      exact ⟨e', after, rfl, alike_entity_iff.mp hvalue, congrArg₂ Scope.mk hbindings hsame,
        hstep.origin⟩
    | _ => cases hvalue

/-- **The call follows the `let`:** one level deeper than in the `let`, both evaluate the value of
the name and then the body, in scopes that agree. -/
theorem call_follows_let {x : String} {T R : TypeTag} (h : state.IsSound)
    (hpending : state.scope.pendingNames = []) (hT : T ≠ .lambda)
    (ha : a.Avoids [] state.nextOrigin) (hform : b.isLambdaForm = false)
    (heval : eval limit levels a state = .ok (.entity e) between) (hkind : e.kind = T)
    (htraits : between.scope.traits = state.scope.traits) :
    ∃ inside inside' : RunState,
      eval limit (levels + 1) (letForm [(x, a)] [b]) state =
        within inside.scope (eval limit levels b) (inside.inScope state.scope) ∧
      callClosure (eval limit levels) (madeClosure state x T R b) [a]
        (state.startCall (madeClosure state x T R b)) =
          (within inside'.scope (eval limit levels b) >>= fun value => pure (checkResult R value))
            (inside'.inScope state.scope) ∧
      InStep (.shiftOnly state.nextOrigin 1) (Scope.Agree (.shiftOnly state.nextOrigin 1)) inside
        inside' := by
  -- the value of the name, first in the `let` and then as an argument
  have hstart : (state.startLet 1).IsSound := ⟨h.distinct, h.avoids⟩
  obtain ⟨e₁, after₁, heval₁, h₁, hscope₁, -⟩ :=
    exists_eval_of_scope_eq (state.startLet 1) 0 h ha heval htraits rfl rfl
  obtain ⟨e₂, after₂, heval₂, h₂, -, horigin⟩ :=
    exists_eval_of_scope_eq (state.startCall (madeClosure state x T R b)) 1 hstart ha heval₁
      (congrArg Scope.traits hscope₁) rfl rfl
  obtain ⟨journal, hlet⟩ := @eval_letForm_single limit levels x a _ state after₁ heval₁ b
  rw [hscope₁, Scope.fixClosures_define_entity hpending] at hlet
  have hkind₂ : e₂.kind = T := h₂.kind ▸ h₁.kind ▸ hkind
  -- the function has captured the scope that it is called in
  have hmerged : (madeClosure state x T R b).scope.mergedWith
      (state.startCall (madeClosure state x T R b)).scope =
        (state.startCall (madeClosure state x T R b)).scope := h.distinct.mergedWith_self
  have hcall := callClosure_singleton (c := madeClosure state x T R b) rfl hmerged heval₂ hkind₂ hT
  rw [runCall, show (madeClosure state x T R b).body.isLambdaForm = false from hform,
    if_neg Bool.false_ne_true] at hcall
  refine ⟨⟨state.scope.define x (.entity e₁), after₁.nextOrigin, journal⟩,
    after₂.inScope (state.scope.define x (.entity e₂)), hlet, ?_, ?_, horigin⟩
  · have hunbound : ((state.startCall (madeClosure state x T R b)).scope.define x
        (.entity e₂)).unbindOrigin (madeClosure state x T R b).origin =
          state.scope.define x (.entity e₂) := Scope.unbindOrigin_define_entity h.avoids x e₂
    rw [hcall, hunbound]
    rfl
  · exact ((keeps_shiftOnly _ _).agree h.avoids).define x (alike_entity_iff.mpr h₂)

/-- What the call gives, where what the `let` gives is known. -/
theorem call_of_let {x : String} {T R : TypeTag} (h : state.IsSound)
    (hpending : state.scope.pendingNames = []) (hT : T ≠ .lambda)
    (ha : a.Avoids [] state.nextOrigin) (hb : b.Avoids [] state.nextOrigin)
    (hform : b.isLambdaForm = false) (hself : b.isSymbol selfName = false)
    (heval : eval limit levels a state = .ok (.entity e) between) (hkind : e.kind = T)
    (htraits : between.scope.traits = state.scope.traits) :
    (∀ v after, eval limit (levels + 1) (letForm [(x, a)] [b]) state = .ok (.entity v) after →
      v.kind = R → ∃ last, eval limit (levels + 2) (callForm x T R b a) state =
        .ok ((Node.entity v).renumber fun origin =>
          if origin < state.nextOrigin then origin else origin + 1) last) ∧
    ∀ error after, eval limit (levels + 1) (letForm [(x, a)] [b]) state = .error error after →
      error.isContained = true → ∃ last, eval limit (levels + 2) (callForm x T R b a) state =
        .ok (Failure.stopped error).toNode last := by
  obtain ⟨inside, inside', hlet, hcall, hstep⟩ :=
    call_follows_let (x := x) (T := T) (R := R) h hpending hT ha hform heval hkind htraits
  have hbody := matchingEvals_eval limit levels b b ((keeps_shiftOnly _ _).alike hb) inside inside'
    hstep
  rw [eval_callForm hself, hlet]
  cases hrun : eval limit levels b inside with
  | ok value after =>
    rw [within_of_ok hrun]
    refine ⟨?_, by rintro error last ⟨⟩⟩
    rintro v _ ⟨⟩ hv
    rw [hrun] at hbody
    generalize hrun' : eval limit levels b inside' = outcome at hbody
    cases hbody with
    | @ok _ value' _ after' hvalue =>
      rw [bind_of_ok (within_of_ok hrun' state.scope)] at hcall
      have hsame := hvalue.eq_renumber (renumbers_shiftOnly state.nextOrigin 1)
      rw [hsame, Node.renumber, checkResult_entity (by rw [kind_renumberEntity, hv])] at hcall
      exact ⟨_, applyClosure_of_ok hcall⟩
  | error error after =>
    rw [within_of_error hrun]
    refine ⟨by rintro v last ⟨⟩, ?_⟩
    rintro _ _ ⟨⟩ hcontained
    rw [hrun] at hbody
    generalize hrun' : eval limit levels b inside' = outcome at hbody
    cases hbody with
    | error =>
      rw [bind_of_error (within_of_error hrun' state.scope)] at hcall
      exact applyClosure_of_error hcontained hcall

end SideBySide

/-- **A call agrees with a `let`.** In a reachable state in which no pending closure is bound, let a
form bind one name to an expression that gives an entity of the type `T` and declares nothing. What
the `let` gives, if it is an entity of the type `R`, is what the call gives of the function of that
parameter with the same body, but for the numbers of the closures made since, which are greater by
one. Where the body stops with an error that applications contain, the call gives the error entity
with its message. Both hold if neither reaches the limit of depth; such a failure in the journal
from before would count as well, but the journal of a reachable state may be put away. -/
theorem call_agrees_with_let [Stack] {state : RunState} (hreachable : state.Reachable)
    (hpending : state.scope.pendingNames = []) {limit levels : Nat} {x : String} {T R : TypeTag}
    (hT : T ≠ .lambda) {a b : Node} (ha : a.Avoids [] state.nextOrigin)
    (hb : b.Avoids [] state.nextOrigin) (hform : b.isLambdaForm = false)
    (hself : b.isSymbol selfName = false) {e : Entity Node} {between : RunState}
    (heval : eval limit levels a state = .ok (.entity e) between) (hkind : e.kind = T)
    (htraits : between.scope.traits = state.scope.traits)
    (hlet : ¬DepthFails (eval limit levels (letForm [(x, a)] [b]) state))
    (hcall : ¬DepthFails (eval limit levels (callForm x T R b a) state)) :
    (∀ v after, eval limit levels (letForm [(x, a)] [b]) state = .ok (.entity v) after →
      v.kind = R → ∃ last, eval limit levels (callForm x T R b a) state =
        .ok ((Node.entity v).renumber fun origin =>
          if origin < state.nextOrigin then origin else origin + 1) last) ∧
    ∀ error after, eval limit levels (letForm [(x, a)] [b]) state = .error error after →
      error.isContained = true → ∃ last, eval limit levels (callForm x T R b a) state =
        .ok (.entity ⟨.error, .str error.message, []⟩) last := by
  have hlater : ∀ more, levels ≤ levels + more := fun more => Nat.le_add_right levels more
  -- without a failure of depth, both evaluate the expression and the body at the same level
  rw [← eval_eq_of_not_depthFails (hlater 1) hlet, ← eval_eq_of_not_depthFails (hlater 2) hcall]
  exact call_of_let hreachable.isSound hpending hT ha hb hform hself heval hkind htraits

/-- A state in which `y` is 1. -/
def boundState : RunState := ⟨⟨[("y", .entity (integerEntity 1))], []⟩, 1, []⟩

theorem reachable_boundState : boundState.Reachable :=
  .defined .initial "y" (.entity (.plain rfl) fun _ hattr => absurd hattr List.not_mem_nil)

/-- The form `(Subject "n" :f (lambda () returns Integer x))`, which gives an entity that holds a
function. -/
def holdingForm : Node :=
  .form [.symbol "Subject", .str "n", .keyword "f",
    .form [.symbol "lambda", .form [], .symbol "returns", .symbol "Integer", .symbol "x"]]

/-- The form `(add x z)`. -/
def unboundForm : Node := .form [.symbol "add", .symbol "x", .symbol "z"]

theorem not_depthFails {outcome : EStateM.Result EvalError RunState Node}
    (hjournal : (finalState outcome).journal.any Event.isDepthFailure = false)
    (herror : ∀ limit after, outcome ≠ .error (.tooDeep limit) after) : ¬DepthFails outcome := by
  rintro (⟨limit, after, h⟩ | ⟨event, hevent, hfailure⟩)
  · exact herror limit after h
  · exact absurd (List.any_eq_true.mpr ⟨event, hevent, hfailure⟩) (by rw [hjournal]; simp)

/-- With `x` bound to 1, the first form gives a noun that holds the function 1 in a `let` and the
function 2 in a call, and the second form stops at `z`. -/
theorem call_agrees_with_let_subject : boundState.Reachable ∧ boundState.scope.pendingNames = [] ∧
    (∃ v after, eval 200 9 (letForm [("x", .symbol "y")] [holdingForm]) boundState =
      .ok (.entity v) after ∧ v.kind = .noun ∧
        ∃ last, eval 200 9 (callForm "x" .integer .noun holdingForm (.symbol "y")) boundState =
          .ok ((Node.entity v).renumber fun origin => if origin < 1 then origin else origin + 1)
            last) ∧
    ∃ last, eval 200 9 (callForm "x" .integer .integer unboundForm (.symbol "y")) boundState =
      .ok (.entity ⟨.error, .str "Unbound variable: z", []⟩) last := by
  have hy : (Node.symbol "y").Avoids [] boundState.nextOrigin := .symbol List.not_mem_nil
  have hstr : (Node.str "n").Avoids [] boundState.nextOrigin := .plain rfl
  have hkeyword : (Node.keyword "f").Avoids [] boundState.nextOrigin := .plain rfl
  have hholding : holdingForm.Avoids [] boundState.nextOrigin := by
    simp [holdingForm, avoids_form_iff, avoids_symbol_iff, hstr, hkeyword]
  have hunbound : unboundForm.Avoids [] boundState.nextOrigin := by
    simp [unboundForm, avoids_form_iff, avoids_symbol_iff]
  have hvalue : eval 200 9 (.symbol "y") boundState =
    .ok (.entity (integerEntity 1)) boundState := rfl
  have hlet : ∃ v after, eval 200 9 (letForm [("x", .symbol "y")] [holdingForm]) boundState =
      .ok (.entity v) after ∧ v.kind = .noun ∧
        after.journal.any Event.isDepthFailure = false := ⟨_, _, rfl, rfl, rfl⟩
  obtain ⟨v, after, hv, hkind, hquiet⟩ := hlet
  have hfirst := call_agrees_with_let reachable_boundState rfl (T := .integer) (R := .noun)
    (x := "x") (by decide) hy hholding rfl rfl hvalue rfl rfl
    (by rw [hv]; exact not_depthFails hquiet (fun _ _ h => by cases h))
    (not_depthFails rfl (fun _ _ h => by cases h))
  have hsecond := call_agrees_with_let reachable_boundState rfl (T := .integer) (R := .integer)
    (x := "x") (by decide) hy hunbound rfl rfl hvalue rfl rfl
    (not_depthFails rfl (fun _ _ h => by cases h)) (not_depthFails rfl (fun _ _ h => by cases h))
  exact ⟨reachable_boundState, rfl, ⟨v, after, hv, hkind, hfirst.1 v after hv hkind⟩,
    hsecond.2 (.unbound "z") _ rfl rfl⟩

end EntityLisp
