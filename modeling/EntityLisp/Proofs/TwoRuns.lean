import EntityLisp.Proofs.AlikeForms
import EntityLisp.Proofs.AlikePayloads
import EntityLisp.Proofs.Ensures

/-!
# Two runs side by side

`Run.Matches r S Q action action'` says of two actions: started in states that are in step, which
means that the scopes are related by `S` and that the closures made from then on correspond, they
end with the same error, or with values related by `Q`, in states that are in step again. There
is one rule for each way to build actions, and from these one lemma for each form.

The forms that only evaluate their arguments take what is known of these evaluations, whatever
`S` is; the others relate nodes that are alike in scopes that agree.

* `matchingEvals_eval`: **nodes that are alike, in scopes that agree, have outcomes that are
  alike.** So neither the numbers of closures nor declared traits nor names that no code mentions
  have any influence on what a program gives.
-/

namespace EntityLisp

open Except (Related)
open Node Run

/-! ### States in step -/

/-- **Two states are in step:** their scopes are related, and the closures made from then on
correspond. -/
structure InStep (r : Correspondence) (S : Scope Node → Scope Node → Prop)
    (state state' : RunState) : Prop where
  scope : S state.scope state'.scope
  origin : ∀ k, r.origin (state.nextOrigin + k) = state'.nextOrigin + k

/-- **Two outcomes are alike:** the same error or related values, in states that are in step. -/
inductive OutcomesAlike (r : Correspondence) (S : Scope Node → Scope Node → Prop) {α β : Type}
    (Q : α → β → Prop) :
    EStateM.Result EvalError RunState α → EStateM.Result EvalError RunState β → Prop where
  | ok {value : α} {value' : β} {after after' : RunState} (related : Q value value')
      (inStep : InStep r S after after') : OutcomesAlike r S Q (.ok value after) (.ok value' after')
  | error {error : EvalError} {after after' : RunState} (inStep : InStep r S after after') :
      OutcomesAlike r S Q (.error error after) (.error error after')

variable {r : Correspondence} {S T : Scope Node → Scope Node → Prop}

namespace Run

/-- **Two actions match** if they have outcomes that are alike in states that are in step. -/
def Matches (r : Correspondence) (S : Scope Node → Scope Node → Prop) {α β : Type}
    (Q : α → β → Prop) (action : Run α) (action' : Run β) : Prop :=
  ∀ state state', InStep r S state state' → OutcomesAlike r S Q (action state) (action' state')

variable {α β γ δ : Type} {Q : α → β → Prop} {P : γ → δ → Prop}

/-! ### The rules -/

theorem matches_pure {value : α} {value' : β} (h : Q value value') :
    Matches r S Q (pure value) (pure value') :=
  fun _ _ hstep => .ok h hstep

theorem matches_throw (error : EvalError) :
    Matches r S Q (throw error : Run α) (throw error : Run β) :=
  fun _ _ hstep => .error hstep

theorem matches_bind {action : Run α} {action' : Run β} {next : α → Run γ} {next' : β → Run δ}
    (haction : Matches r S Q action action')
    (hnext : ∀ value value', Q value value' → Matches r S P (next value) (next' value')) :
    Matches r S P (action >>= next) (action' >>= next') := by
  intro state state' hstep
  have hfirst := haction state state' hstep
  cases hrun : action state <;> cases hrun' : action' state' <;> rw [hrun, hrun'] at hfirst <;>
    cases hfirst
  · next hvalue hbetween =>
    rw [bind_of_ok hrun, bind_of_ok hrun']
    exact hnext _ _ hvalue _ _ hbetween
  · next hbetween =>
    rw [bind_of_error hrun, bind_of_error hrun']
    exact .error hbetween

theorem matches_ofResult {result : Except EvalError α} {result' : Except EvalError β}
    (h : Related Q result result') : Matches r S Q (ofResult result) (ofResult result') := by
  cases h with
  | error error => exact matches_throw error
  | ok h => exact matches_pure h

/-- The journals need not be alike. -/
theorem matches_report (event event' : Event) :
    Matches r S (fun _ _ => True) (report event) (report event') :=
  fun _ _ hstep => .ok trivial ⟨hstep.scope, hstep.origin⟩

theorem matches_scope : Matches r S S scope scope := fun _ _ hstep => .ok hstep.scope hstep

theorem matches_setScope {inner inner' : Scope Node} (h : S inner inner') :
    Matches r S (fun _ _ => True) (setScope inner) (setScope inner') :=
  fun _ _ hstep => .ok trivial ⟨h, hstep.origin⟩

/-- The next closures of two states in step correspond. -/
theorem matches_freshOrigin :
    Matches r S (fun origin origin' => origin' = r.origin origin) freshOrigin freshOrigin := by
  intro state state' hstep
  refine .ok (hstep.origin 0).symm ⟨hstep.scope, fun k => ?_⟩
  have hlater := hstep.origin (k + 1)
  rwa [Nat.add_comm k 1, ← Nat.add_assoc, ← Nat.add_assoc] at hlater

theorem matches_within {inner inner' : Scope Node} (hinner : T inner inner') {action : Run α}
    {action' : Run β} (h : Matches r T Q action action') :
    Matches r S Q (within inner action) (within inner' action') := by
  intro state state' hstep
  have hrun := h { state with scope := inner } { state' with scope := inner' }
    ⟨hinner, hstep.origin⟩
  unfold within
  cases hresult : action { state with scope := inner } <;>
    cases hresult' : action' { state' with scope := inner' } <;>
    rw [hresult, hresult'] at hrun <;> cases hrun
  · next hvalue hafter => exact .ok hvalue ⟨hstep.scope, hafter.origin⟩
  · next hafter => exact .error ⟨hstep.scope, hafter.origin⟩

theorem matches_contain {action : Run α} {action' : Run β} {handle : EvalError → Run α}
    {handle' : EvalError → Run β} (haction : Matches r S Q action action')
    (hhandle : ∀ error, Matches r S Q (handle error) (handle' error)) :
    Matches r S Q (contain action handle) (contain action' handle') := by
  intro state state' hstep
  have hrun := haction state state' hstep
  unfold contain
  cases hresult : action state <;> cases hresult' : action' state' <;>
    rw [hresult, hresult'] at hrun <;> cases hrun
  · next hvalue hafter => exact .ok hvalue hafter
  · next error _ _ hafter =>
    -- both errors are contained, or both pass
    show OutcomesAlike r S Q (if error.isContained then _ else _)
      (if error.isContained then _ else _)
    split
    · exact hhandle error _ _ hafter
    · exact .error hafter

theorem matches_lookup {name : String} (hname : name ∉ r.hidden) :
    Matches r (Scope.Agree r) (Alike r) (lookup name) (lookup name) := by
  refine matches_bind matches_scope fun scope scope' hscope => ?_
  have hlookup := hscope.lookup? hname
  cases hfound : scope.lookup? name <;> cases hfound' : scope'.lookup? name <;>
    rw [hfound, hfound'] at hlookup <;> cases hlookup
  · exact matches_throw _
  · next hvalue => exact matches_pure hvalue

end Run

/-- Evaluations of two nodes that match. -/
abbrev MatchingNodes (r : Correspondence) (S : Scope Node → Scope Node → Prop)
    (eval eval' : Node → Run Node) (node node' : Node) : Prop :=
  Matches r S (Alike r) (eval node) (eval' node')

/-- **Two evaluators match** on nodes that are alike, in scopes that agree. -/
def MatchingEvals (r : Correspondence) (eval eval' : Node → Run Node) : Prop :=
  ∀ node node', Alike r node node' → MatchingNodes r (Scope.Agree r) eval eval' node node'

theorem matches_failure (failure : Failure) :
    Matches r S (Alike r) (pure failure.toNode) (pure failure.toNode) :=
  matches_pure (alike_failure failure)

section Arguments

variable {eval eval' : Node → Run Node}

/-! ### Lists, arithmetic and comparison -/

theorem matches_evalOperands {β : Type} {accept : Nat → Node → Except Failure β}
    {P : β → β → Prop} (haccept : ∀ position value value', Alike r value value' →
      Related P (accept position value) (accept position value')) {arguments arguments' : List Node}
    (harguments : List.Forall₂ (MatchingNodes r S eval eval') arguments arguments')
    (position : Nat) :
    Matches r S (Related (List.Forall₂ P)) (evalOperands eval accept position arguments)
      (evalOperands eval' accept position arguments') := by
  induction harguments generalizing position with
  | nil => exact matches_pure (.ok .nil)
  | cons hargument _ ih =>
    refine matches_bind hargument fun value value' hvalue => ?_
    have haccepted := haccept position value value' hvalue
    cases hresult : accept position value <;> cases hresult' : accept position value' <;>
      rw [hresult, hresult'] at haccepted <;> cases haccepted
    · exact matches_pure (.error _)
    · next hfirst =>
      refine matches_bind (ih (position + 1)) fun others others' hothers => ?_
      exact matches_pure (hothers.map fun _ _ hrest => .cons hfirst hrest)

theorem matches_runList {arguments arguments' : List Node}
    (harguments : List.Forall₂ (MatchingNodes r S eval eval') arguments arguments') :
    Matches r S (Alike r) (runList eval arguments) (runList eval' arguments') := by
  refine matches_bind (matches_evalOperands (fun position _ _ h => related_listElement position h)
    harguments 1) fun result result' hresult => ?_
  cases hresult with
  | error failure => exact matches_failure failure
  | ok hes => exact matches_pure (alike_entities_iff.mpr ⟨rfl, hes⟩)

theorem matches_runNumeric (op : NumericOp) {arguments arguments' : List Node}
    (harguments : List.Forall₂ (MatchingNodes r S eval eval') arguments arguments') :
    Matches r S (Alike r) (runNumeric op eval arguments) (runNumeric op eval' arguments') := by
  refine matches_bind (matches_evalOperands
    (fun position _ _ h => related_numericOperand op position h) harguments 1)
    fun result result' hresult => ?_
  cases hresult with
  | error failure => exact matches_failure failure
  | ok hes =>
    cases hes with
    | nil => exact matches_failure _
    | cons hfirst hrest =>
      exact matches_ofResult ((related_foldPayloads op hfirst hrest).mapError EvalError.arithmetic)

theorem matches_runEq {arguments arguments' : List Node}
    (harguments : List.Forall₂ (MatchingNodes r S eval eval') arguments arguments') :
    Matches r S (Alike r) (runEq eval arguments) (runEq eval' arguments') := by
  have hlength := harguments.length_eq
  rcases harguments with _ | ⟨hleft, _ | ⟨hright, _ | _⟩⟩
  · exact matches_failure _
  · exact matches_failure _
  · refine matches_bind hleft fun a a' ha => matches_bind hright fun b b' hb => ?_
    have hresult := related_compareValues ha hb
    generalize compareValues a b = result, compareValues a' b' = result' at hresult
    cases hresult with
    | error failure => exact matches_failure failure
    | ok h => exact matches_pure h
  · simp only [runEq, hlength]
    exact matches_failure _

/-! ### The steps of a `let` -/

theorem matches_bindInOrder {bindings bindings' : List (String × Node)}
    (hdefine : ∀ scope scope' name value value', S scope scope' → Alike r value value' →
      S (scope.define name value) (scope'.define name value'))
    (hbindings : List.Forall₂ (fun binding binding' => binding.1 = binding'.1 ∧
      MatchingNodes r S eval eval' binding.2 binding'.2) bindings bindings') :
    Matches r S (fun _ _ => True) (bindInOrder eval bindings) (bindInOrder eval' bindings') := by
  induction hbindings with
  | nil => exact matches_pure trivial
  | @cons binding binding' rest rest' hbinding _ ih =>
    obtain ⟨name, value⟩ := binding
    obtain ⟨name', value'⟩ := binding'
    obtain ⟨rfl, hvalue⟩ := hbinding
    refine matches_bind hvalue fun evaluated evaluated' hevaluated => ?_
    refine matches_bind matches_scope fun scope scope' hscope => ?_
    exact matches_bind (matches_setScope (hdefine _ _ name _ _ hscope hevaluated)) fun _ _ _ => ih

/-- Reports only change the journal. -/
theorem forM_report_apply (names : List String) (state : RunState) :
    ∃ journal, (names.forM fun name => report (.closureFixed name)) state =
      .ok () { state with journal := journal } := by
  induction names generalizing state with
  | nil => exact ⟨state.journal, rfl⟩
  | cons name rest ih =>
    obtain ⟨journal, hrest⟩ := ih (state.reporting (.closureFixed name))
    exact ⟨journal, (bind_of_ok (report_apply _ state)).trans hrest⟩

/-- How many closures are reported as fixed need not be the same. -/
theorem matches_fixCurrent (hfix : ∀ scope scope', S scope scope' →
      S scope.fixClosures scope'.fixClosures) :
    Matches r S (fun _ _ => True) fixCurrent fixCurrent := by
  refine matches_bind matches_scope fun scope scope' hscope => ?_
  refine matches_bind (matches_setScope (hfix _ _ hscope)) fun _ _ _ => ?_
  intro state state' hstep
  obtain ⟨journal, hrun⟩ := forM_report_apply scope.pendingNames state
  obtain ⟨journal', hrun'⟩ := forM_report_apply scope'.pendingNames state'
  rw [hrun, hrun']
  exact .ok trivial ⟨hstep.scope, hstep.origin⟩

theorem matches_evalSequence {nodes nodes' : List Node}
    (hnodes : List.Forall₂ (MatchingNodes r S eval eval') nodes nodes') {value value' : Node}
    (hvalue : Alike r value value') :
    Matches r S (Alike r) (evalSequence eval value nodes) (evalSequence eval' value' nodes') := by
  induction hnodes generalizing value value' with
  | nil => exact matches_pure hvalue
  | cons hnode _ ih => exact matches_bind hnode fun _ _ hnext => ih hnext

theorem matches_runBody {bindings bindings' : List (String × Node)} {body body' : List Node}
    (hdefine : ∀ scope scope' name value value', S scope scope' → Alike r value value' →
      S (scope.define name value) (scope'.define name value'))
    (hfix : ∀ scope scope', S scope scope' → S scope.fixClosures scope'.fixClosures)
    (hbindings : List.Forall₂ (fun binding binding' => binding.1 = binding'.1 ∧
      MatchingNodes r S eval eval' binding.2 binding'.2) bindings bindings')
    (hbody : List.Forall₂ (MatchingNodes r S eval eval') body body') :
    Matches r S (Alike r) (runBody eval bindings body) (runBody eval' bindings' body') := by
  refine matches_bind (matches_report _ _) fun _ _ _ => ?_
  refine matches_bind (matches_bindInOrder hdefine hbindings) fun _ _ _ => ?_
  exact matches_bind (matches_fixCurrent hfix) fun _ _ _ => matches_evalSequence hbody .nil

end Arguments

section Forms

variable {eval eval' argEval argEval' : Node → Run Node} (heval : MatchingEvals r eval eval')

include heval

theorem MatchingEvals.forall₂ {nodes nodes' : List Node}
    (h : List.Forall₂ (Alike r) nodes nodes') :
    List.Forall₂ (MatchingNodes r (Scope.Agree r) eval eval') nodes nodes' :=
  List.Forall₂.imp (fun node node' hnode => heval node node' hnode) h

/-! ### The `entity` form -/

theorem matches_attributeValue (key : String) {value value' : Node} (h : Alike r value value') :
    Matches r (Scope.Agree r) (Related (Alike r)) (attributeValue eval key value)
      (attributeValue eval' key value') := by
  unfold attributeValue
  split
  · refine matches_bind (heval _ _ h) fun kept kept' hkept => ?_
    have hsame := hkept
    have hdescribe := hkept.describe
    cases hkept with
    | ofEntity hkind =>
      simp only [hkind, hdescribe]
      split
      · exact matches_pure (.ok hsame)
      · exact matches_pure (.error _)
    | _ => simp only [hdescribe]; exact matches_pure (.error _)
  · exact matches_pure (.ok h)

theorem matches_enterAttributes {attrs attrs' : Table String Node} {pairs pairs' : List Node}
    (hattrs : Table.Pointwise (Alike r) attrs attrs')
    (hpairs : List.Forall₂ (Alike r) pairs pairs') :
    Matches r (Scope.Agree r) (Related (Table.Pointwise (Alike r)))
      (enterAttributes eval attrs pairs) (enterAttributes eval' attrs' pairs') := by
  match pairs, pairs', hpairs with
  | [], [], _ => exact matches_pure (.ok hattrs)
  | [_], [_], _ => exact matches_pure (.ok hattrs)
  | key :: value :: rest, key' :: value' :: rest', .cons hkey (.cons hvalue hrest) =>
    unfold enterAttributes
    rw [hkey.mapKey?, hkey.shown]
    split
    · exact matches_pure (.error _)
    · next name _ =>
      refine matches_bind (matches_attributeValue heval name hvalue) fun result result' h => ?_
      cases h with
      | error failure => exact matches_pure (.error failure)
      | ok hkept => exact matches_enterAttributes (hattrs.put name hkept) hrest

theorem matches_buildAttributes {pairs pairs' : List Node}
    (hpairs : List.Forall₂ (Alike r) pairs pairs') :
    Matches r (Scope.Agree r) (Related (Table.Pointwise (Alike r))) (buildAttributes eval pairs)
      (buildAttributes eval' pairs') := by
  have hunpaired := related_unpairedKey? hpairs
  unfold buildAttributes
  generalize unpairedKey? pairs = key, unpairedKey? pairs' = key' at hunpaired
  cases hunpaired with
  | some hkey =>
    simp only [hkey.shown]
    exact matches_pure (.error _)
  | none => exact matches_enterAttributes heval .nil hpairs

theorem matches_payloadOf {node node' : Node} (h : Alike r node node') :
    Matches r (Scope.Agree r) (Alike r) (payloadOf eval node) (payloadOf eval' node') := by
  unfold payloadOf
  rw [h.isEvaluatedPayload]
  split
  · exact matches_bind (heval _ _ h) fun value value' hvalue =>
      matches_pure (alike_lentPayload hvalue)
  · exact matches_pure h

omit heval in
theorem matches_refuseEntity {e e' : Entity Node} (h : AlikeEntity r e e') :
    Matches r S (Alike r) (refuseEntity e) (refuseEntity e') :=
  matches_bind (matches_report _ _) fun _ _ _ => matches_pure (alike_entity_iff.mpr h)

theorem matches_finishEntity (typeName : String) {payload payload' : Node}
    (hpayload : Alike r payload payload') {attrs? attrs?' : Option Node}
    (hattrs : Option.Rel (Alike r) attrs? attrs?') :
    Matches r (Scope.Agree r) (Alike r) (finishEntity eval typeName payload attrs?)
      (finishEntity eval' typeName payload' attrs?') := by
  have hmade := related_makeEntity typeName hpayload
  unfold finishEntity
  generalize makeEntity typeName payload [] = made, makeEntity typeName payload' [] = made' at hmade
  cases hmade with
  | error failure => exact matches_refuseEntity (alike_entity_iff.mp (alike_failure failure))
  | @ok e e' he =>
    simp only [he.isError]
    split
    · exact matches_refuseEntity he
    · have hpairs := related_attributePairs? hattrs
      generalize attributePairs? attrs? = pairs, attributePairs? attrs?' = pairs' at hpairs
      cases hpairs with
      | none => exact matches_pure (alike_entity_iff.mpr he)
      | some hpairs =>
        refine matches_bind (matches_buildAttributes heval hpairs) fun result result' h => ?_
        cases h with
        | error failure => exact matches_failure failure
        | ok hattrs => exact matches_pure (alike_entity_iff.mpr ⟨he.kind, he.payload, hattrs⟩)

theorem matches_buildEntity {kind kind' value value' : Node} (hkind : Alike r kind kind')
    (hvalue : Alike r value value') {attrs? attrs?' : Option Node}
    (hattrs : Option.Rel (Alike r) attrs? attrs?') :
    Matches r (Scope.Agree r) (Alike r) (buildEntity eval kind value attrs?)
      (buildEntity eval' kind' value' attrs?') := by
  refine matches_bind (matches_payloadOf heval hvalue) fun payload payload' hpayload => ?_
  have hfinish := matches_finishEntity heval (typeNameOf kind) hpayload hattrs
  have hsame := hpayload
  rw [hkind.typeNameOf] at hfinish ⊢
  cases hpayload with
  | @ofEntity e e' =>
    have herror := (alike_entity_iff.mp hsame).isError
    show Matches r (Scope.Agree r) (Alike r) (if e.isError then _ else _)
      (if e'.isError then _ else _)
    rw [herror]
    split
    · exact matches_pure hsame
    · exact hfinish
  | _ => exact hfinish

theorem matches_runEntity {arguments arguments' : List Node}
    (h : List.Forall₂ (Alike r) arguments arguments') :
    Matches r (Scope.Agree r) (Alike r) (runEntity eval arguments)
      (runEntity eval' arguments') := by
  rcases h with _ | ⟨hkind, _ | ⟨hvalue, _ | ⟨hattrs, _ | _⟩⟩⟩
  · exact matches_failure _
  · exact matches_failure _
  · exact matches_buildEntity heval hkind hvalue .none
  · exact matches_buildEntity heval hkind hvalue (.some hattrs)
  · exact matches_failure _

/-! ### The `let`, `impl` and `lambda` forms -/

theorem matches_runLet {arguments arguments' : List Node}
    (h : List.Forall₂ (Alike r) arguments arguments') :
    Matches r (Scope.Agree r) (Alike r) (runLet eval arguments) (runLet eval' arguments') := by
  cases h with
  | nil => exact matches_failure _
  | cons hnodes hbody =>
    cases hnodes with
    | ofForm hlength heach =>
      have hread := readBindings_of_alike (alike_form_iff.mp (.ofForm hlength heach))
      unfold runLet
      rcases hread with ⟨bindings, bindings', hok, hok', hbindings⟩ | ⟨node, node', herror, herror',
        hnode⟩
      · simp only [hok, hok']
        refine matches_bind matches_scope fun scope scope' hscope => matches_within hscope ?_
        refine matches_runBody (fun _ _ name _ _ hscope hvalue => hscope.define name hvalue)
          (fun _ _ hscope => hscope.fixClosures) ?_ (heval.forall₂ hbody)
        exact List.Forall₂.imp (fun _ _ h => ⟨h.1, heval _ _ h.2⟩) hbindings
      · simp only [herror, herror', hnode.shown]
        exact matches_failure _
    | _ => exact matches_failure _

omit heval in
/-- Whether a declaration is new or not, it only changes traits and the journal. -/
theorem matches_declareTrait (type : TypeTag) (trait : TraitTag) :
    Matches r (Scope.Agree r) (fun _ _ => True) (declareTrait type trait)
      (declareTrait type trait) := by
  have happly : ∀ state : RunState, ∃ journal, declareTrait type trait state =
      .ok () { state with scope := state.scope.implement type trait, journal := journal } := by
    intro state
    have hrun : declareTrait type trait state = (if state.scope.hasTrait type trait then pure ()
        else setScope (state.scope.implement type trait) >>= fun _ =>
          report (.implemented trait type)) state := rfl
    rw [hrun]
    split
    · next hhas => exact ⟨state.journal, by rw [Scope.implement, if_pos hhas]; rfl⟩
    · exact ⟨_, rfl⟩
  intro state state' hstep
  obtain ⟨journal, hrun⟩ := happly state
  obtain ⟨journal', hrun'⟩ := happly state'
  rw [hrun, hrun']
  exact .ok trivial ⟨hstep.scope.implement type trait, hstep.origin⟩

omit heval in
theorem matches_runImpl {arguments arguments' : List Node}
    (h : List.Forall₂ (Alike r) arguments arguments') :
    Matches r (Scope.Agree r) (Alike r) (runImpl arguments) (runImpl arguments') := by
  rcases h with _ | ⟨htrait, _ | ⟨hword, _ | ⟨htype, _ | _⟩⟩⟩
  · exact matches_failure _
  · exact matches_failure _
  · cases hword <;> exact matches_failure _
  · cases hword with
    | symbol =>
      simp only [runImpl, htrait.traitTag?, htype.typeTag?, htrait.shown, htype.shown]
      split
      · split
        · exact matches_bind (matches_declareTrait _ _) fun _ _ _ => matches_pure
            (alike_entity_iff.mpr ⟨rfl, .bool true, .nil⟩)
        · exact matches_failure _
      · exact matches_failure _
    | _ => exact matches_failure _
  · cases hword <;> exact matches_failure _

omit heval in
theorem matches_runLambda {arguments arguments' : List Node}
    (h : List.Forall₂ (Alike r) arguments arguments') :
    Matches r (Scope.Agree r) (Alike r) (runLambda arguments) (runLambda arguments') := by
  rcases h with _ | ⟨hparams, _ | ⟨hreturns, _ | ⟨htype, _ | ⟨hbody, _ | _⟩⟩⟩⟩
  · exact matches_failure _
  · exact matches_failure _
  · exact matches_failure _
  · exact matches_failure _
  · simp only [runLambda, readSignature_eq_of_alike hparams hreturns htype, hbody.isSymbol]
    split
    · exact matches_failure _
    · split
      · exact matches_throw _
      · refine matches_bind matches_scope fun scope scope' hscope => ?_
        refine matches_bind matches_freshOrigin fun origin origin' horigin => ?_
        exact matches_pure (alike_closure_iff.mpr ⟨rfl, rfl, rfl, hbody, horigin, hscope⟩)
  · exact matches_failure _

/-! ### Applications -/

theorem matches_evalArguments (params : List (String × TypeTag)) {arguments arguments' : List Node}
    (h : List.Forall₂ (Alike r) arguments arguments') :
    Matches r (Scope.Agree r) (Related (List.Forall₂ (AlikeBinding r)))
      (evalArguments eval params arguments) (evalArguments eval' params arguments') := by
  induction params generalizing arguments arguments' with
  | nil => exact matches_pure (.ok .nil)
  | cons param params ih =>
    obtain ⟨name, type⟩ := param
    cases h with
    | nil => exact matches_pure (.ok .nil)
    | cons hargument hrest =>
      refine matches_bind (heval _ _ hargument) fun value value' hvalue => ?_
      refine matches_bind (matches_ofResult (related_bindArgument name type hvalue))
        fun bound bound' hbound => ?_
      cases hbound with
      | error failure => exact matches_pure (.error failure)
      | ok hbound =>
        refine matches_bind (ih hrest) fun others others' hothers => matches_pure ?_
        exact hothers.map fun _ _ hall => .cons ⟨rfl, hbound⟩ hall

theorem matches_runCall {c c' : Closure Node} (hc : AlikeClosure r c c')
    {scope scope' : Scope Node} (hscope : scope.Agree r scope') :
    Matches r S (Alike r) (runCall eval c scope) (runCall eval' c' scope') := by
  unfold runCall
  rw [hc.body.isLambdaForm, hc.origin, hc.returns]
  split
  · exact matches_within hscope (heval _ _ hc.body)
  · refine matches_bind (matches_within (hscope.unbindOrigin c.origin) (heval _ _ hc.body))
      fun value value' hvalue => ?_
    exact matches_pure (alike_checkResult c'.returns hvalue)

/-- Of the scopes of the callers it only matters that they agree once they are folded in. -/
theorem matches_callClosure {c c' : Closure Node} (hc : AlikeClosure r c c')
    (hmerged : ∀ scope scope', S scope scope' →
      (c.scope.mergedWith scope).Agree r (c'.scope.mergedWith scope'))
    {arguments arguments' : List Node} (h : List.Forall₂ (Alike r) arguments arguments') :
    Matches r S (Alike r) (callClosure eval c arguments) (callClosure eval' c' arguments') := by
  have harity : c.arity = c'.arity := by
    unfold Closure.arity
    rw [hc.params]
  unfold callClosure
  rw [harity, hc.params, h.length_eq]
  split
  · refine matches_bind matches_scope fun scope scope' hscope => ?_
    have hinner := hmerged _ _ hscope
    refine matches_bind (matches_within hinner (matches_evalArguments heval c'.params h))
      fun result result' hresult => ?_
    cases hresult with
    | error failure => exact matches_failure failure
    | ok hbindings => exact matches_runCall heval hc (hinner.defineAll hbindings)
  · exact matches_failure _

/-- **Applications of closures that are alike,** to arguments that are alike. -/
theorem matches_applyClosure {c c' : Closure Node} (hc : AlikeClosure r c c')
    (hmerged : ∀ scope scope', S scope scope' →
      (c.scope.mergedWith scope).Agree r (c'.scope.mergedWith scope'))
    {arguments arguments' : List Node} (h : List.Forall₂ (Alike r) arguments arguments') :
    Matches r S (Alike r) (applyClosure eval c arguments) (applyClosure eval' c' arguments') := by
  refine matches_bind (matches_report _ _) fun _ _ _ => ?_
  refine matches_contain (matches_callClosure heval hc hmerged h) fun error => ?_
  exact matches_bind (matches_report _ _) fun _ _ _ => matches_failure _

/-! ### Forms in general -/

theorem matches_evalValues {pairs pairs' : List Node} (h : List.Forall₂ (Alike r) pairs pairs') :
    Matches r (Scope.Agree r) (List.Forall₂ (Alike r)) (evalValues eval pairs)
      (evalValues eval' pairs') := by
  match pairs, pairs', h with
  | [], [], _ => exact matches_pure .nil
  | [_], [_], _ => exact matches_pure .nil
  | key :: value :: rest, key' :: value' :: rest', .cons hkey (.cons hvalue hrest) =>
    refine matches_bind (heval _ _ hvalue) fun evaluated evaluated' hevaluated => ?_
    refine matches_bind (matches_evalValues hrest) fun others others' hothers => ?_
    exact matches_pure (.cons hkey (.cons hevaluated hothers))

/-- A head and arguments that are alike. -/
structure AlikeForm (r : Correspondence) (form form' : Node × List Node) : Prop where
  head : Alike r form.1 form'.1
  arguments : List.Forall₂ (Alike r) form.2 form'.2

omit heval in
theorem alikeForm_entityForm {arguments arguments' : List Node}
    (h : List.Forall₂ (Alike r) arguments arguments') :
    AlikeForm r (entityForm arguments) (entityForm arguments') :=
  ⟨alike_reserved (by simp [reservedNames]), h⟩

theorem matches_desugar {head head' : Node} (hhead : Alike r head head')
    {arguments arguments' : List Node} (h : List.Forall₂ (Alike r) arguments arguments') :
    Matches r (Scope.Agree r) (Related (AlikeForm r)) (desugar eval head arguments)
      (desugar eval' head' arguments') := by
  unfold desugar
  rw [hhead.sugar?]
  split
  · exact matches_pure (.ok ⟨hhead, h⟩)
  · exact matches_pure (.ok (alikeForm_entityForm (forall₂_foldAttributes (.cons hhead h))))
  · next role _ =>
    cases h with
    | nil => exact matches_pure (.error _)
    | @cons value value' pairs pairs' hvalue hpairs =>
      have hunpaired := related_unpairedKey? hpairs
      simp only
      generalize unpairedKey? pairs = key, unpairedKey? pairs' = key' at hunpaired
      cases hunpaired with
      | some hkey =>
        simp only [hkey.shown]
        exact matches_pure (.error _)
      | none =>
        refine matches_bind (matches_evalValues heval hpairs) fun attrs attrs' hattrs => ?_
        exact matches_pure (.ok (alikeForm_entityForm (forall₂_roleArguments role hvalue hattrs)))

theorem matches_runCore (form : CoreForm) {arguments arguments' : List Node}
    (h : List.Forall₂ (Alike r) arguments arguments') :
    Matches r (Scope.Agree r) (Alike r) (runCore eval form arguments)
      (runCore eval' form arguments') := by
  cases form with
  | entity => exact matches_runEntity heval h
  | list => exact matches_runList (heval.forall₂ h)
  | numeric op => exact matches_runNumeric op (heval.forall₂ h)
  | eq => exact matches_runEq (heval.forall₂ h)
  | letIn => exact matches_runLet heval h
  | impl => exact matches_runImpl h
  | lambda => exact matches_runLambda h

variable (hargEval : MatchingEvals r argEval argEval')

include hargEval

omit heval in
theorem matches_applyHead (hS : ∀ scope scope', S scope scope' → scope.Agree r scope')
    {head head' value value' : Node} (hhead : head.shown = head'.shown)
    (hvalue : Alike r value value') {arguments arguments' : List Node}
    (h : List.Forall₂ (Alike r) arguments arguments') :
    Matches r S (Alike r) (applyHead argEval head value arguments)
      (applyHead argEval' head' value' arguments') := by
  have hsame := hvalue
  unfold applyHead
  rw [hhead]
  cases hvalue with
  | ofClosure =>
    have hc := alike_closure_iff.mp hsame
    exact matches_applyClosure hargEval hc (fun _ _ h => hc.scope.mergedWith (hS _ _ h)) h
  | @ofEntity e e' =>
    have herror := (alike_entity_iff.mp hsame).isError
    simp only [herror]
    split
    · exact matches_pure hsame
    · exact matches_throw _
  | _ => exact matches_throw _

theorem matches_runForm {head head' : Node} (hhead : Alike r head head')
    {arguments arguments' : List Node} (h : List.Forall₂ (Alike r) arguments arguments') :
    Matches r (Scope.Agree r) (Alike r) (runForm eval argEval head arguments)
      (runForm eval' argEval' head' arguments') := by
  have hsame := hhead
  unfold runForm
  cases hhead with
  | @symbol name hname =>
    simp only
    split
    · exact matches_bind (matches_report _ _) fun _ _ _ => matches_runCore heval _ h
    · exact matches_bind (matches_lookup hname) fun value value' hvalue =>
        matches_applyHead hargEval (fun _ _ h => h) rfl hvalue h
  | ofForm =>
    exact matches_bind (heval _ _ hsame) fun value value' hvalue =>
      matches_applyHead hargEval (fun _ _ h => h) hsame.shown hvalue h
  | _ => exact matches_applyHead hargEval (fun _ _ h => h) hsame.shown hsame h

/-- **One step of evaluation** matches if the evaluators that it calls do. -/
theorem matchingEvals_evalNode :
    MatchingEvals r (evalNode eval argEval) (evalNode eval' argEval') := by
  intro node node' hnode
  have hsame := hnode
  cases hnode with
  | symbol hname => exact matches_lookup hname
  | ofForm hlength heach =>
    cases alike_form_iff.mp (.ofForm hlength heach) with
    | nil => exact matches_throw _
    | cons hhead harguments =>
      refine matches_bind (matches_desugar heval hhead harguments) fun result result' h => ?_
      cases h with
      | error failure => exact matches_failure failure
      | ok hfreed => exact matches_runForm heval hargEval hfreed.head hfreed.arguments
  | _ => exact matches_pure hsame

end Forms

/-- **Evaluation of nodes that are alike,** in scopes that agree. -/
theorem matchingEvals_eval (limit levels : Nat) :
    MatchingEvals r (eval limit levels) (eval limit levels) := by
  induction levels using Nat.strongRecOn with
  | ind levels ih =>
    cases levels with
    | zero => exact fun _ _ _ => matches_throw _
    | succ levels =>
      rw [MatchingEvals, eval_succ]
      exact matchingEvals_evalNode (ih levels (by omega)) (ih (levels - 1) (by omega))

end EntityLisp
