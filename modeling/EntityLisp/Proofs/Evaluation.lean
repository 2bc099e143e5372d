import EntityLisp.Proofs.Arithmetic
import EntityLisp.Proofs.Ensures
import EntityLisp.Proofs.Values

/-!
# Evaluation gives values

Evaluation of a well-formed program in a well-formed scope gives a well-formed value, in a scope
that is well formed again, or ends with an error that applications contain or because an integer
is too large for floating point (`givesValues_eval`).  The law is proved for each form from what its
sub-evaluations ensure, and for `eval` by induction on the levels.

* `eval_isValue`: the value of a well-formed program is well formed, hence neither a form nor a
  symbol, and it evaluates to itself in every state and at every level.
-/

namespace EntityLisp

open Node Run

/-- **The errors that are foreseen:** the contained ones, and that of rounding an integer. -/
def EvalError.Foreseen (error : EvalError) : Prop :=
  error.isContained = true ∨ error = .arithmetic .integerTooLarge

open EvalError (Foreseen)

/-- **An evaluator that gives values:** from well-formed programs and scopes it makes well-formed
values and scopes, and its errors are foreseen. -/
def GivesValues (eval : Node → Run Node) : Prop :=
  ∀ node, node.IsProgram → Ensures Scope.IsFit IsValue Foreseen (eval node)

section Forms

variable {eval : Node → Run Node} (heval : GivesValues eval)

theorem ensures_failure (failure : Failure) :
    Ensures Scope.IsFit IsValue Foreseen (pure failure.toNode) :=
  ensures_pure failure.isValue_toNode

include heval

/-! ### Lists, arithmetic and comparison -/

theorem ensures_evalOperands {β : Type} {accept : Nat → Node → Except Failure β} {P : β → Prop}
    (haccept : ∀ position value accepted, value.IsValue → accept position value = .ok accepted →
      P accepted) {arguments : List Node} (harguments : ∀ a ∈ arguments, IsProgram a)
    (position : Nat) :
    Ensures Scope.IsFit (fun result => ∀ accepted, result = .ok accepted → ∀ b ∈ accepted, P b)
      Foreseen (evalOperands eval accept position arguments) := by
  induction arguments generalizing position with
  | nil =>
    refine ensures_pure fun accepted h => ?_
    cases h
    simp
  | cons argument rest ih =>
    rw [List.forall_mem_cons] at harguments
    unfold evalOperands
    refine ensures_bind (heval argument harguments.1) fun value hvalue => ?_
    cases haccepted : accept position value with
    | error failure => exact ensures_pure (by simp)
    | ok first =>
      refine ensures_bind (ih harguments.2 (position + 1)) fun others hothers => ?_
      refine ensures_pure fun accepted h => ?_
      obtain ⟨bs, hbs, rfl⟩ := Except.map_eq_ok_iff.mp h
      rw [List.forall_mem_cons]
      exact ⟨haccept position value first hvalue haccepted, hothers bs hbs⟩

theorem ensures_runList {arguments : List Node} (harguments : ∀ a ∈ arguments, IsProgram a) :
    Ensures Scope.IsFit IsValue Foreseen (runList eval arguments) := by
  have haccept : ∀ position value e, value.IsValue → listElement position value = .ok e →
      e.IsFit ∧ e.kind.isListable = true := by
    intro position value e hvalue h
    unfold listElement at h
    split at h
    · split at h
      · next hlistable =>
        cases h
        cases hvalue with
        | entity hfit => exact ⟨hfit, hlistable⟩
      · cases h
    · cases h
  unfold runList
  refine ensures_bind (ensures_evalOperands heval haccept harguments 1) fun result hresult => ?_
  cases result with
  | ok entities => exact ensures_pure (IsValue.entities (hresult entities rfl))
  | error failure => exact ensures_failure failure

omit heval in
/-- The payload of a well-formed operand is a number of the sort that its type says. -/
theorem Entity.IsFit.isNumeric {e : Entity Node} (h : e.IsFit) (hkind : e.kind.isNumeric = true) :
    e.IsNumeric := by
  have haccepts := h.accepts
  obtain ⟨kind, payload, attrs⟩ := e
  cases kind with
  | integer =>
    cases payload with
    | int n => exact isNumber_int n
    | _ => cases haccepts
  | float =>
    cases payload with
    | float x => exact isNumber_float x
    | _ => cases haccepts
  | _ => cases hkind

theorem ensures_runNumeric (op : NumericOp) {arguments : List Node}
    (harguments : ∀ a ∈ arguments, IsProgram a) :
    Ensures Scope.IsFit IsValue Foreseen (runNumeric op eval arguments) := by
  -- what arithmetic takes up is a well-formed entity of a numeric type
  have haccept : ∀ position value e, value.IsValue → numericOperand op position value = .ok e →
      e.IsNumeric := by
    intro position value e hvalue h
    unfold numericOperand at h
    split at h
    · split at h
      · next hnumeric =>
        cases h
        cases hvalue with
        | entity hfit => exact hfit.isNumeric hnumeric
      · cases h
    · cases h
  unfold runNumeric
  refine ensures_bind (ensures_evalOperands heval haccept harguments 1) fun result hresult => ?_
  cases result with
  | error failure => exact ensures_failure failure
  | ok operands =>
    cases operands with
    | nil => exact ensures_failure _
    | cons first rest =>
      have hoperands := hresult _ rfl
      rw [List.forall_mem_cons] at hoperands
      show Ensures _ _ _ (ofResult ((foldPayloads op first rest).mapError .arithmetic))
      rcases foldPayloads_of_isNumeric op hoperands.1 hoperands.2 with
        ⟨n, hn⟩ | ⟨x, hx⟩ | herror
      · rw [hn]
        exact ensures_pure (isValue_plain rfl)
      · rw [hx]
        exact ensures_pure (isValue_plain rfl)
      · rw [herror]
        exact ensures_throw (Or.inr rfl)

theorem ensures_runEq {arguments : List Node} (harguments : ∀ a ∈ arguments, IsProgram a) :
    Ensures Scope.IsFit IsValue Foreseen (runEq eval arguments) := by
  unfold runEq
  split
  · next left right =>
    refine ensures_bind (heval left (harguments left (by simp))) fun a _ => ?_
    refine ensures_bind (heval right (harguments right (by simp))) fun b _ => ?_
    split
    · next value heq => exact ensures_pure (isValue_compareValues heq)
    · exact ensures_failure _
  · exact ensures_failure _

/-! ### The `entity` form -/

theorem ensures_attributeValue (key : String) {value : Node} (hvalue : value.IsProgram) :
    Ensures Scope.IsFit (fun result => ∀ kept, result = .ok kept → key = adjectiveKey →
      kept.isAdjective = true) Foreseen (attributeValue eval key value) := by
  unfold attributeValue
  split
  · refine ensures_bind (heval value hvalue) fun evaluated _ => ?_
    split
    · next e =>
      split
      · next hkind =>
        refine ensures_pure fun kept h _ => ?_
        cases h
        exact beq_iff_eq.mpr hkind
      · exact ensures_pure (by simp)
    · exact ensures_pure (by simp)
  · next hkey => exact ensures_pure fun _ _ h => absurd h hkey

theorem ensures_enterAttributes {attrs : Table String Node} {pairs : List Node}
    (hattrs : ∀ value, Table.get? adjectiveKey attrs = some value → value.isAdjective = true)
    (hpairs : ∀ node ∈ pairs, IsProgram node) :
    Ensures Scope.IsFit (fun result => ∀ attrs, result = .ok attrs →
      ∀ value, Table.get? adjectiveKey attrs = some value → value.isAdjective = true) Foreseen
      (enterAttributes eval attrs pairs) := by
  fun_induction enterAttributes eval attrs pairs with
  | case1 attrs key value rest hkey => exact ensures_pure (by simp)
  | case2 attrs key value rest name hkey ih =>
    rw [List.forall_mem_cons, List.forall_mem_cons] at hpairs
    refine ensures_bind (ensures_attributeValue heval name hpairs.2.1) fun result hresult => ?_
    cases result with
    | error failure => exact ensures_pure (by simp)
    | ok kept =>
      refine ih kept (fun value hget => ?_) hpairs.2.2
      -- an entry under another key leaves the adjective as it was
      rw [Table.get?_put] at hget
      split at hget
      · next heq =>
        cases hget
        exact hresult kept rfl heq.symm
      · exact hattrs value hget
  | case3 attrs pairs hshort =>
    refine ensures_pure ?_
    rintro result ⟨⟩
    exact hattrs

theorem ensures_buildAttributes {pairs : List Node} (hpairs : ∀ node ∈ pairs, IsProgram node) :
    Ensures Scope.IsFit (fun result => ∀ attrs, result = .ok attrs →
      ∀ value, Table.get? adjectiveKey attrs = some value → value.isAdjective = true) Foreseen
      (buildAttributes eval pairs) := by
  unfold buildAttributes
  split
  · exact ensures_pure (by simp)
  · exact ensures_enterAttributes heval (fun _ h => by cases h) hpairs

theorem ensures_payloadOf {node : Node} (hnode : node.IsProgram) :
    Ensures Scope.IsFit IsValue Foreseen (payloadOf eval node) := by
  unfold payloadOf
  split
  · exact ensures_bind (heval node hnode) fun value hvalue =>
      ensures_pure (isValue_lentPayload hvalue)
  · next hplain =>
    refine ensures_pure (hnode.isValue ?_ ?_)
    · cases node with
      | form items => exact absurd rfl hplain
      | _ => rfl
    · rintro name rfl
      exact hplain rfl

omit heval in
theorem ensures_refuseEntity {e : Entity Node} (h : e.IsFit) :
    Ensures Scope.IsFit IsValue Foreseen (refuseEntity e) :=
  ensures_bind (ensures_report _) fun _ _ => ensures_pure (IsValue.entity h)

omit heval in
theorem isProgram_of_attributePairs? {attrs? : Option Node} {pairs : List Node}
    (hattrs : ∀ attrs, attrs? = some attrs → attrs.IsProgram)
    (h : attributePairs? attrs? = some pairs) : ∀ node ∈ pairs, IsProgram node := by
  unfold attributePairs? at h
  split at h
  · split at h
    · cases h
      have hall := isProgram_form_iff.mp (hattrs _ rfl)
      exact fun node hnode => hall node (List.mem_cons_of_mem _ hnode)
    · cases h
  · cases h

theorem ensures_finishEntity (typeName : String) (payload : Node) {attrs? : Option Node}
    (hattrs : ∀ attrs, attrs? = some attrs → attrs.IsProgram) :
    Ensures Scope.IsFit IsValue Foreseen (finishEntity eval typeName payload attrs?) := by
  unfold finishEntity
  split
  · next failure _ => exact ensures_refuseEntity failure.isFit_toEntity
  · next entity hentity =>
    have hfit := isFit_of_makeEntity hentity
    split
    · exact ensures_refuseEntity hfit
    · split
      · exact ensures_pure (IsValue.entity hfit)
      · next pairs hpairs =>
        refine ensures_bind (ensures_buildAttributes heval
          (isProgram_of_attributePairs? hattrs hpairs)) fun result hresult => ?_
        cases result with
        | error failure => exact ensures_failure failure
        | ok attrs =>
          exact ensures_pure (IsValue.entity ⟨hfit.accepts, hresult attrs rfl⟩)

theorem ensures_buildEntity {kind value : Node} {attrs? : Option Node}
    (hvalue : value.IsProgram) (hattrs : ∀ attrs, attrs? = some attrs → attrs.IsProgram) :
    Ensures Scope.IsFit IsValue Foreseen (buildEntity eval kind value attrs?) := by
  unfold buildEntity
  refine ensures_bind (ensures_payloadOf heval hvalue) fun payload hpayload => ?_
  split
  · next e =>
    split
    · exact ensures_pure hpayload
    · exact ensures_finishEntity heval _ _ hattrs
  · exact ensures_finishEntity heval _ _ hattrs

theorem ensures_runEntity {arguments : List Node} (harguments : ∀ a ∈ arguments, IsProgram a) :
    Ensures Scope.IsFit IsValue Foreseen (runEntity eval arguments) := by
  unfold runEntity
  split
  · next kind value =>
    exact ensures_buildEntity heval (harguments value (by simp)) (by simp)
  · next kind value attrs =>
    refine ensures_buildEntity heval (harguments value (by simp)) ?_
    rintro other ⟨⟩
    exact harguments attrs (by simp)
  · exact ensures_failure _

/-! ### The `let`, `impl` and `lambda` forms -/

omit heval in
theorem isProgram_of_readBindings {nodes : List Node} {bindings : List (String × Node)}
    (hnodes : ∀ node ∈ nodes, IsProgram node) (h : readBindings nodes = .ok bindings) :
    ∀ binding ∈ bindings, binding.2.IsProgram := by
  intro binding hbinding
  obtain ⟨items, hitems, hvalue⟩ := exists_mem_of_readBindings h binding hbinding
  exact isProgram_form_iff.mp (hnodes _ hitems) _ hvalue

theorem ensures_runLet {arguments : List Node} (harguments : ∀ a ∈ arguments, IsProgram a) :
    Ensures Scope.IsFit IsValue Foreseen (runLet eval arguments) := by
  unfold runLet
  split
  · next nodes body =>
    rw [List.forall_mem_cons, isProgram_form_iff] at harguments
    split
    · exact ensures_failure _
    · next bindings hbindings =>
      have hvalues := isProgram_of_readBindings harguments.1 hbindings
      refine ensures_bind ensures_scope fun scope hscope => ensures_within hscope ?_
      exact ensures_runBody heval (fun _ name _ h hvalue => h.define name hvalue)
        (fun _ h => h.fixClosures) hvalues harguments.2 IsValue.nil
  · exact ensures_failure _

omit heval in
theorem ensures_runImpl (arguments : List Node) :
    Ensures Scope.IsFit IsValue Foreseen (runImpl arguments) := by
  unfold runImpl
  split
  · split
    · split
      · next t k _ _ =>
        refine ensures_bind (Q := fun _ => True) ?_ fun _ _ => ensures_pure (isValue_truth true)
        refine ensures_bind ensures_scope fun scope hscope => ?_
        split
        · exact ensures_pure trivial
        · exact ensures_bind (ensures_setScope (hscope.implement k t)) fun _ _ =>
            ensures_report _
      · exact ensures_failure _
    · exact ensures_failure _
  · exact ensures_failure _

omit heval in
theorem ensures_runLambda {arguments : List Node} (harguments : ∀ a ∈ arguments, IsProgram a) :
    Ensures Scope.IsFit IsValue Foreseen (runLambda arguments) := by
  unfold runLambda
  split
  · next params returns type body =>
    split
    · exact ensures_failure _
    · next params' type' hsignature =>
      split
      · exact ensures_throw (Or.inl rfl)
      · refine ensures_bind ensures_scope fun scope hscope => ?_
        refine ensures_bind ensures_freshOrigin fun origin _ => ensures_pure ?_
        refine IsValue.closure ?_ hscope (harguments body (by simp))
        exact nodup_of_readSignature hsignature
  · exact ensures_failure _

/-! ### Applications -/

theorem ensures_evalArguments {params : List (String × TypeTag)} {arguments : List Node}
    (harguments : ∀ a ∈ arguments, IsProgram a) :
    Ensures Scope.IsFit (fun result => ∀ bindings, result = .ok bindings →
      ∀ binding ∈ bindings, binding.2.IsValue) Foreseen
      (evalArguments eval params arguments) := by
  induction params generalizing arguments with
  | nil =>
    refine ensures_pure ?_
    rintro bindings ⟨⟩
    simp
  | cons param params ih =>
    obtain ⟨name, type⟩ := param
    cases arguments with
    | nil =>
      refine ensures_pure ?_
      rintro bindings ⟨⟩
      simp
    | cons argument arguments =>
      rw [List.forall_mem_cons] at harguments
      unfold evalArguments
      refine ensures_bind (heval argument harguments.1) fun value hvalue => ?_
      refine ensures_bind (ensures_ofResult (Q := fun bound => ∀ result, bound = .ok result →
        result.IsValue) ?_ fun error herror =>
          Or.inr (bindArgument_eq_error_iff.mp herror).1)
          fun bound hbound => ?_
      · rintro bound hbound result rfl
        exact isValue_bindArgument hvalue hbound
      cases bound with
      | error failure => exact ensures_pure (by simp)
      | ok bound =>
        refine ensures_bind (ih harguments.2) fun others hothers => ensures_pure ?_
        intro bindings h
        obtain ⟨rest, hrest, rfl⟩ := Except.map_eq_ok_iff.mp h
        rw [List.forall_mem_cons]
        exact ⟨hbound bound rfl, hothers rest hrest⟩

theorem ensures_runCall {c : Closure Node} (hbody : c.body.IsProgram) {scope : Scope Node}
    (hscope : scope.IsFit) : Ensures Scope.IsFit IsValue Foreseen (runCall eval c scope) := by
  unfold runCall
  split
  · exact ensures_within hscope (heval c.body hbody)
  · exact ensures_bind (ensures_within (hscope.unbindOrigin c.origin) (heval c.body hbody))
      fun value hvalue => ensures_pure (isValue_checkResult hvalue)

theorem ensures_callClosure {c : Closure Node} (hc : (Node.closure c).IsValue)
    {arguments : List Node} (harguments : ∀ a ∈ arguments, IsProgram a) :
    Ensures Scope.IsFit IsValue Foreseen (callClosure eval c arguments) := by
  cases hc with
  | closure distinct captured body =>
    unfold callClosure
    split
    · refine ensures_bind ensures_scope fun scope hscope => ?_
      -- both the captured scope and that of the caller are well formed
      have hmerged : (c.scope.mergedWith scope).IsFit :=
        Scope.IsFit.mergedWith captured hscope
      refine ensures_bind (ensures_within hmerged (ensures_evalArguments heval harguments))
        fun result hresult => ?_
      cases result with
      | error failure => exact ensures_failure failure
      | ok bindings =>
        exact ensures_runCall heval body (hmerged.defineAll (hresult bindings rfl))
    · exact ensures_failure _

/-- **The only error that escapes an application** is that of rounding an integer. -/
theorem ensures_applyClosure {c : Closure Node} (hc : (Node.closure c).IsValue)
    {arguments : List Node} (harguments : ∀ a ∈ arguments, IsProgram a) :
    Ensures Scope.IsFit IsValue (· = .arithmetic .integerTooLarge)
      (applyClosure eval c arguments) := by
  unfold applyClosure
  refine ensures_bind (ensures_report _) fun _ _ => ?_
  refine ensures_contain (ensures_callClosure heval hc harguments) ?_ fun error _ => ?_
  · rintro error (hcontained | rfl) hescape
    · rw [hcontained] at hescape
      cases hescape
    · rfl
  · exact ensures_bind (ensures_report _) fun _ _ => ensures_pure (Failure.isValue_toNode _)

/-! ### Forms in general -/

theorem ensures_evalValues {pairs : List Node} (hpairs : ∀ node ∈ pairs, IsProgram node) :
    Ensures Scope.IsFit (fun result => ∀ node ∈ result, IsProgram node) Foreseen
      (evalValues eval pairs) := by
  fun_induction evalValues eval pairs with
  | case1 key value rest ih =>
    rw [List.forall_mem_cons, List.forall_mem_cons] at hpairs
    refine ensures_bind (heval value hpairs.2.1) fun evaluated hevaluated => ?_
    refine ensures_bind (ih hpairs.2.2) fun others hothers => ensures_pure ?_
    rw [List.forall_mem_cons, List.forall_mem_cons]
    exact ⟨hpairs.1, IsProgram.value hevaluated, hothers⟩
  | case2 pairs hshort => exact ensures_pure (by simp)

omit heval in
theorem isProgram_foldAttributes {arguments : List Node}
    (h : ∀ a ∈ arguments, IsProgram a) : ∀ a ∈ foldAttributes arguments, IsProgram a := by
  unfold foldAttributes
  split
  · next kind value first rest =>
    split
    · exact h
    · rw [List.forall_mem_cons, List.forall_mem_cons, List.forall_mem_cons] at h
      intro a ha
      simp only [List.mem_cons, List.not_mem_nil, or_false] at ha
      rcases ha with rfl | rfl | rfl
      · exact h.1
      · exact h.2.1
      · refine IsProgram.form fun item hitem => ?_
        rcases List.mem_cons.mp hitem with rfl | hitem
        · exact IsProgram.symbol mapHead
        · rcases List.mem_cons.mp hitem with rfl | hitem
          · exact h.2.2.1
          · exact h.2.2.2 item hitem
  · exact h

omit heval in
theorem isProgram_roleArguments (role : Role) {value : Node} {attrs : List Node}
    (hvalue : value.IsProgram) (hattrs : ∀ node ∈ attrs, IsProgram node) :
    ∀ a ∈ roleArguments role value attrs, IsProgram a := by
  intro a ha
  simp only [roleArguments, List.mem_cons, List.not_mem_nil, or_false] at ha
  rcases ha with rfl | rfl | rfl
  · exact IsProgram.symbol _
  · exact hvalue
  · refine IsProgram.form fun item hitem => ?_
    simp only [List.cons_append, List.mem_cons, List.mem_append, List.not_mem_nil,
      or_false] at hitem
    rcases hitem with rfl | hitem | rfl | rfl
    · exact IsProgram.symbol mapHead
    · exact hattrs item hitem
    · exact IsProgram.value (IsValue.keyword _)
    · exact IsProgram.value (IsValue.str _)

theorem ensures_desugar {head : Node} {arguments : List Node} (hhead : head.IsProgram)
    (harguments : ∀ a ∈ arguments, IsProgram a) :
    Ensures Scope.IsFit (fun result => ∀ freed, result = .ok freed →
      freed.1.IsProgram ∧ ∀ a ∈ freed.2, IsProgram a) Foreseen (desugar eval head arguments) := by
  unfold desugar
  split
  · refine ensures_pure ?_
    rintro freed ⟨⟩
    exact ⟨hhead, harguments⟩
  · refine ensures_pure ?_
    rintro freed ⟨⟩
    exact ⟨IsProgram.symbol _,
      isProgram_foldAttributes (List.forall_mem_cons.mpr ⟨hhead, harguments⟩)⟩
  · next role _ =>
    split
    · exact ensures_pure (by simp)
    · next value pairs =>
      rw [List.forall_mem_cons] at harguments
      split
      · exact ensures_pure (by simp)
      · refine ensures_bind (ensures_evalValues heval harguments.2) fun attrs hattrs => ?_
        refine ensures_pure ?_
        rintro freed ⟨⟩
        exact ⟨IsProgram.symbol _, isProgram_roleArguments role harguments.1 hattrs⟩

theorem ensures_runCore (form : CoreForm) {arguments : List Node}
    (harguments : ∀ a ∈ arguments, IsProgram a) :
    Ensures Scope.IsFit IsValue Foreseen (runCore eval form arguments) := by
  cases form with
  | entity => exact ensures_runEntity heval harguments
  | list => exact ensures_runList heval harguments
  | numeric op => exact ensures_runNumeric heval op harguments
  | eq => exact ensures_runEq heval harguments
  | letIn => exact ensures_runLet heval harguments
  | impl => exact ensures_runImpl arguments
  | lambda => exact ensures_runLambda harguments

variable {argEval : Node → Run Node} (hargEval : GivesValues argEval)

include hargEval

omit heval in
theorem ensures_applyHead (head : Node) {value : Node} (hvalue : value.IsValue)
    {arguments : List Node} (harguments : ∀ a ∈ arguments, IsProgram a) :
    Ensures Scope.IsFit IsValue Foreseen (applyHead argEval head value arguments) := by
  unfold applyHead
  split
  · exact (ensures_applyClosure hargEval hvalue harguments).mono (fun _ h => h)
      fun _ h => Or.inr h
  · split
    · exact ensures_pure hvalue
    · exact ensures_throw (Or.inl rfl)
  · exact ensures_throw (Or.inl rfl)

omit heval hargEval in
theorem ensures_lookup_isValue (name : String) :
    Ensures Scope.IsFit IsValue Foreseen (lookup name) :=
  ensures_lookup name (fun _ hscope _ hlookup => hscope.lookup? hlookup) (Or.inl rfl)

theorem ensures_runForm {head : Node} (hhead : head.IsProgram) {arguments : List Node}
    (harguments : ∀ a ∈ arguments, IsProgram a) :
    Ensures Scope.IsFit IsValue Foreseen (runForm eval argEval head arguments) := by
  unfold runForm
  split
  · next name =>
    split
    · next form _ =>
      exact ensures_bind (ensures_report _) fun _ _ => ensures_runCore heval form harguments
    · exact ensures_bind (ensures_lookup_isValue name) fun value hvalue =>
        ensures_applyHead hargEval _ hvalue harguments
  · next items =>
    exact ensures_bind (heval _ hhead) fun value hvalue =>
      ensures_applyHead hargEval _ hvalue harguments
  · next hsymbol hform =>
    refine ensures_applyHead hargEval head (hhead.isValue ?_ ?_) harguments
    · cases head with
      | form items => exact absurd rfl (hform items)
      | _ => rfl
    · exact hsymbol

/-- **One step of evaluation** gives values if the evaluators it calls do. -/
theorem givesValues_evalNode : GivesValues (evalNode eval argEval) := by
  intro node hnode
  unfold evalNode
  split
  · exact ensures_throw (Or.inl rfl)
  · next head arguments =>
    rw [isProgram_form_iff, List.forall_mem_cons] at hnode
    refine ensures_bind (ensures_desugar heval hnode.1 hnode.2) fun result hresult => ?_
    cases result with
    | error failure => exact ensures_failure failure
    | ok freed =>
      obtain ⟨hhead, harguments⟩ := hresult freed rfl
      exact ensures_runForm heval hargEval hhead harguments
  · next name => exact ensures_lookup_isValue name
  · next hempty hform hsymbol =>
    refine ensures_pure (hnode.isValue ?_ hsymbol)
    cases node with
    | form items =>
      cases items with
      | nil => exact absurd rfl hempty
      | cons head arguments => exact absurd rfl (hform head arguments)
    | _ => rfl

end Forms

/-! ### Evaluation -/

/-- **Evaluation at any level gives values.** -/
theorem givesValues_eval (limit levels : Nat) : GivesValues (eval limit levels) := by
  -- the evaluators inside have one and two levels less
  induction levels using Nat.strongRecOn with
  | ind levels ih =>
    cases levels with
    | zero => exact fun _ _ => ensures_throw (Or.inl rfl)
    | succ levels =>
      rw [GivesValues, eval_succ]
      exact givesValues_evalNode (ih levels (by omega)) (ih (levels - 1) (by omega))

/-- A value evaluates to itself. -/
theorem eval_of_isValue {value : Node} (h : value.IsValue) (limit levels : Nat)
    (state : RunState) : eval limit (levels + 1) value state = .ok value state := by
  rw [eval_succ]
  cases h <;> rfl

theorem Node.IsValue.ne_form {value : Node} (h : value.IsValue) (items : List Node) :
    value ≠ .form items := by
  rintro rfl
  cases h

theorem Node.IsValue.ne_symbol {value : Node} (h : value.IsValue) (name : String) :
    value ≠ .symbol name := by
  rintro rfl
  cases h

/-- **Soundness of values.** The value of a well-formed program in a well-formed scope is well
formed, so it is neither a form nor a symbol, and it evaluates to itself wherever a level is
left. -/
theorem eval_isValue {limit levels : Nat} {node value : Node} {state after : RunState}
    (hnode : node.IsProgram) (hscope : state.scope.IsFit)
    (h : eval limit levels node state = .ok value after) :
    value.IsValue ∧ (∀ items, value ≠ .form items) ∧ (∀ name, value ≠ .symbol name) ∧
      ∀ (limit' levels' : Nat) (state' : RunState),
        eval limit' (levels' + 1) value state' = .ok value state' := by
  have hvalue := ((givesValues_eval limit levels node hnode).of_ok hscope h).1
  exact ⟨hvalue, hvalue.ne_form, hvalue.ne_symbol, eval_of_isValue hvalue⟩

/-- The program `(let ((f be (lambda ((x as Integer)) returns Integer (add x (Integer 1)))))
(f 41))`. -/
def incrementProgram : Node :=
  .form [.symbol "let",
    .form [.form [.symbol "f", .symbol "be", .form [.symbol "lambda",
      .form [.form [.symbol "x", .symbol "as", .symbol "Integer"]],
      .symbol "returns", .symbol "Integer",
      .form [.symbol "add", .symbol "x", .form [.symbol "Integer", .int 1]]]]],
    .form [.symbol "f", .int 41]]

theorem isProgram_incrementProgram : incrementProgram.IsProgram := by
  simp [incrementProgram, isProgram_form_iff, IsProgram.symbol, IsProgram.value, IsValue.int]

/-- The law at a program that binds a closure and applies it to a bare number. -/
theorem eval_isValue_incrementProgram :
    incrementProgram.IsProgram ∧ (Scope.empty : Scope Node).IsFit ∧
      ∃ after, eval 200 9 incrementProgram (.initial .empty) =
          .ok (.plain .integer (.int 42)) after ∧
        (Node.plain .integer (.int 42)).IsValue := by
  have hrun : ∃ after, eval 200 9 incrementProgram (.initial .empty) =
      .ok (.plain .integer (.int 42)) after := ⟨_, rfl⟩
  obtain ⟨after, hafter⟩ := hrun
  exact ⟨isProgram_incrementProgram, Scope.isFit_empty, after, hafter,
    (eval_isValue isProgram_incrementProgram Scope.isFit_empty hafter).1⟩

end EntityLisp
