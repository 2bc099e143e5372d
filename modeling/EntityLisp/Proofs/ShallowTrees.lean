import EntityLisp.Proofs.Calculation
import EntityLisp.Proofs.DepthLimit
import EntityLisp.Proofs.EscapeForms

/-!
# Trees that are no higher than the limit

Evaluation charges a level for each form that it goes into, and no more. The forms that sugar stands
for are higher than what is written, and what a role evaluates is put back into code; but the nodes
that are evaluated on the way are still those of the tree, or values, which have no height. An
application has levels of its own, and contains the failures of depth in it.

`EvaluatesBelow` says of an evaluator that it meets no failure of depth on trees below a height, in
scopes that bind no forms. There is a lemma for each form.

* `evaluatesBelow_eval`: with more levels than a tree is high, evaluation meets no failure of depth.
* `Calls.below`: outside applications a step of evaluation calls for lower trees only.
* `Nests.within`: nested evaluations use up no more levels than the height that they come down.
* `shallow_trees_stay_shallow`: **the limit rejects no tree that is not higher,** wherever it stands
  and whatever is applied on the way.
* `rejects_without_application`: the stack may hold less than the limit, and a name that is bound to
  a form may stand for more than a leaf.
-/

namespace EntityLisp

open Node Run Calculation

/-! ### Scopes and errors -/

/-- A scope that binds no name to a form. -/
def Scope.BindsNoForms (scope : Scope Node) : Prop :=
  ∀ binding ∈ scope.bindings, binding.2.isForm = false

namespace Scope.BindsNoForms

variable {scope : Scope Node}

theorem lookup? (h : scope.BindsNoForms) {name : String} {value : Node}
    (hlookup : scope.lookup? name = some value) : value.isForm = false :=
  h (name, value) (Table.mem_of_get? hlookup)

theorem define (h : scope.BindsNoForms) (name : String) {value : Node}
    (hvalue : value.isForm = false) : (scope.define name value).BindsNoForms := by
  intro binding hbinding
  rcases Table.mem_put hbinding with heq | hmem
  · rw [heq]
    exact hvalue
  · exact h binding hmem

theorem implement (h : scope.BindsNoForms) (type : TypeTag) (trait : TraitTag) :
    (scope.implement type trait).BindsNoForms := by
  unfold BindsNoForms
  rwa [bindings_implement]

theorem fixClosures (h : scope.BindsNoForms) : scope.fixClosures.BindsNoForms :=
  fixClosures_induction h fun _ name _ hcurrent _ _ => hcurrent.define name rfl

end Scope.BindsNoForms

/-- Whether an error is that of the depth limit. -/
def EvalError.isTooDeep : EvalError → Bool
  | .tooDeep _ => true
  | _ => false

/-- **An action that meets no failure of depth** in scopes that bind no forms, and whose value has a
property. -/
def StaysShallow {α : Type} (Q : α → Prop) (action : Run α) : Prop :=
  Ensures Scope.BindsNoForms Q (fun error => error.isTooDeep = false) action

/-- The same action if its value is no form. -/
theorem StaysShallow.of_givesNoForm {action : Run Node} (h : StaysShallow (fun _ => True) action)
    (hvalue : GivesNoForm action) : StaysShallow (fun value => value.isForm = false) action :=
  (Ensures.inter h hvalue).mono (fun _ hboth => hboth.2) fun _ hboth => hboth.1

/-- **An evaluator that meets no failure of depth on trees below a height,** and that gives no forms
as their values. -/
def EvaluatesBelow (height : Nat) (eval : Node → Run Node) : Prop :=
  ∀ node, node.height < height → StaysShallow (fun value => value.isForm = false) (eval node)

/-! ### The nodes that an `entity` form evaluates -/

section Heights

variable {height : Nat} {arguments : List Node}

/-- An item is lower than its form. -/
theorem height_lt_of_mem {item : Node} {items : List Node} (h : item ∈ items) :
    item.height < (Node.form items).height := by
  have hle := itemsHeight_le_iff.mp (Nat.le_refl (itemsHeight items)) item h
  rw [height_form]
  omega

theorem height_lt_of_attributePairs? {attrs : Node} {pairs : List Node}
    (h : attributePairs? (some attrs) = some pairs) (hattrs : attrs.height < height) :
    ∀ node ∈ pairs, node.height < height := by
  obtain ⟨rfl⟩ := attributePairs?_eq_some_iff.mp h
  intro node hnode
  exact Nat.lt_trans (height_lt_of_mem (List.mem_cons_of_mem _ hnode)) hattrs

/-- What an `entity` form exposes is below the height that its arguments are below. -/
theorem height_lt_of_mem_exposedArguments (harguments : ∀ a ∈ arguments, a.height < height) :
    ∀ node ∈ exposedArguments arguments, node.height < height := by
  unfold exposedArguments
  split
  · next kind value attrs =>
    simp only [List.forall_mem_cons] at harguments
    obtain ⟨hkind, hvalue, hattrs, -⟩ := harguments
    split
    · next pairs hpairs =>
      rw [List.forall_mem_cons, List.forall_mem_cons]
      refine ⟨hkind, hvalue, fun node hnode => ?_⟩
      exact height_lt_of_attributePairs? hpairs hattrs node (mem_of_mem_exposedPairs hnode)
    · simp only [List.forall_mem_cons]
      exact ⟨hkind, hvalue, hattrs, fun _ h => absurd h List.not_mem_nil⟩
  · exact harguments

/-- A `map` form that is put around attributes is not exposed itself. -/
theorem height_lt_of_mem_exposed_map {kind value : Node} {pairs : List Node}
    (hkind : kind.height < height) (hvalue : value.height < height)
    (hpairs : ∀ a ∈ pairs, a.height < height) :
    ∀ node ∈ exposedArguments [kind, value, .form (.symbol mapHead :: pairs)],
      node.height < height := by
  have hmap : attributePairs? (some (.form (.symbol mapHead :: pairs))) = some pairs :=
    attributePairs?_eq_some_iff.mpr rfl
  simp only [exposedArguments, hmap, List.forall_mem_cons]
  exact ⟨hkind, hvalue, fun node hnode => hpairs node (mem_of_mem_exposedPairs hnode)⟩

/-- **Folding attributes into a form** exposes nothing higher. -/
theorem height_lt_of_mem_exposed_fold (harguments : ∀ a ∈ arguments, a.height < height) :
    ∀ node ∈ exposedArguments (foldAttributes arguments), node.height < height := by
  rcases arguments with _ | ⟨kind, _ | ⟨value, _ | ⟨first, rest⟩⟩⟩
  · exact harguments
  · exact harguments
  · exact harguments
  · cases hform : first.isForm with
    | true =>
      rw [foldAttributes_of_isForm hform]
      exact height_lt_of_mem_exposedArguments harguments
    | false =>
      rw [foldAttributes_of_not_isForm hform]
      rw [List.forall_mem_cons, List.forall_mem_cons] at harguments
      exact height_lt_of_mem_exposed_map harguments.1 harguments.2.1 harguments.2.2

/-- **A form that is free of sugar, of nodes below a height.** In an `entity` form only those count
that are exposed, as sugar may have put a form around attributes. -/
inductive FreedBelow (height : Nat) : Node → List Node → Prop where
  | plain {head : Node} {arguments : List Node} (head_lt : head.height < height)
      (arguments_lt : ∀ a ∈ arguments, a.height < height) : FreedBelow height head arguments
  | entity {arguments : List Node}
      (exposed_lt : ∀ node ∈ exposedArguments arguments, node.height < height) :
      FreedBelow height (.symbol CoreForm.entity.name) arguments

theorem FreedBelow.exposed_lt
    (h : FreedBelow height (.symbol CoreForm.entity.name) arguments) :
    ∀ node ∈ exposedArguments arguments, node.height < height := by
  cases h with
  | plain _ arguments_lt => exact height_lt_of_mem_exposedArguments arguments_lt
  | entity exposed_lt => exact exposed_lt

theorem FreedBelow.arguments_lt {form : CoreForm} (hentity : form ≠ .entity)
    (h : FreedBelow height (.symbol form.name) arguments) : ∀ a ∈ arguments, a.height < height := by
  generalize hhead : Node.symbol form.name = head at h
  cases h with
  | plain _ arguments_lt => exact arguments_lt
  | entity _ =>
    have hform := CoreForm.ofName?_name form
    rw [Node.symbol.inj hhead, CoreForm.ofName?_name] at hform
    exact absurd (Option.some.inj hform).symm hentity

theorem height_lt_of_readBindings {nodes : List Node} {bindings : List (String × Node)}
    (h : readBindings nodes = .ok bindings) (hnodes : (Node.form nodes).height < height) :
    ∀ binding ∈ bindings, binding.2.height < height := by
  intro binding hbinding
  obtain ⟨items, hitems, hvalue⟩ := exists_mem_of_readBindings h binding hbinding
  have hvalueLt := height_lt_of_mem hvalue
  have hitemsLt := height_lt_of_mem hitems
  omega

end Heights

/-! ### The forms -/

section Forms

variable {eval argEval : Node → Run Node} {height : Nat} (heval : EvaluatesBelow height eval)
  {arguments : List Node}

include heval

theorem staysShallow_evalOperands {β : Type} {accept : Nat → Node → Except Failure β}
    (harguments : ∀ a ∈ arguments, a.height < height) (position : Nat) :
    StaysShallow (fun _ => True) (evalOperands eval accept position arguments) := by
  induction arguments generalizing position with
  | nil => exact ensures_pure trivial
  | cons argument rest ih =>
    rw [List.forall_mem_cons] at harguments
    refine ensures_bind (heval argument harguments.1) fun value _ => ?_
    split
    · exact ensures_pure trivial
    · exact ensures_bind (ih harguments.2 _) fun _ _ => ensures_pure trivial

theorem staysShallow_runNumeric (op : NumericOp)
    (harguments : ∀ a ∈ arguments, a.height < height) :
    StaysShallow (fun _ => True) (runNumeric op eval arguments) := by
  refine ensures_bind (staysShallow_evalOperands heval harguments 1) fun result _ => ?_
  split
  · exact ensures_pure trivial
  · exact ensures_pure trivial
  · refine ensures_ofResult (fun _ _ => trivial) fun error herror => ?_
    obtain ⟨cause, -, rfl⟩ := Except.mapError_eq_error_iff.mp herror
    rfl

theorem staysShallow_runEq (harguments : ∀ a ∈ arguments, a.height < height) :
    StaysShallow (fun _ => True) (runEq eval arguments) := by
  unfold runEq
  split
  · next left right =>
    refine ensures_bind (heval left (harguments left (by simp))) fun a _ => ?_
    refine ensures_bind (heval right (harguments right (by simp))) fun b _ => ?_
    split
    · exact ensures_pure trivial
    · exact ensures_pure trivial
  · exact ensures_pure trivial

theorem staysShallow_enterAttributes {attrs : Table String Node} {pairs : List Node}
    (hpairs : ∀ node ∈ exposedPairs pairs, node.height < height) :
    StaysShallow (fun _ => True) (enterAttributes eval attrs pairs) := by
  fun_induction enterAttributes eval attrs pairs with
  | case1 attrs key value rest hkey => exact ensures_pure trivial
  | case2 attrs key value rest name hkey ih =>
    have hvalue : StaysShallow (fun _ => True) (attributeValue eval name value) := by
      unfold attributeValue
      split
      · next hname =>
        have hexposed := mem_exposedPairs_adjective (hname ▸ hkey) value rest
        refine ensures_bind (heval value (hpairs value hexposed)) fun kept _ => ?_
        split
        · split
          · exact ensures_pure trivial
          · exact ensures_pure trivial
        · exact ensures_pure trivial
      · exact ensures_pure trivial
    refine ensures_bind hvalue fun result _ => ?_
    split
    · exact ensures_pure trivial
    · exact ih _ fun node hnode => hpairs node (mem_exposedPairs_cons hnode)
  | case3 attrs pairs hshort => exact ensures_pure trivial

theorem staysShallow_finishEntity (typeName : String) (payload : Node) {attrs? : Option Node}
    (hattrs : ∀ pairs, attributePairs? attrs? = some pairs →
      ∀ node ∈ exposedPairs pairs, node.height < height) :
    StaysShallow (fun _ => True) (finishEntity eval typeName payload attrs?) := by
  have hrefuse : ∀ entity : Entity Node, StaysShallow (fun _ => True) (refuseEntity entity) :=
    fun entity => ensures_bind (ensures_report _) fun _ _ => ensures_pure trivial
  unfold finishEntity
  split
  · exact hrefuse _
  · split
    · exact hrefuse _
    · split
      · exact ensures_pure trivial
      · next pairs hpairs =>
        have hbuild : StaysShallow (fun _ => True) (buildAttributes eval pairs) := by
          unfold buildAttributes
          split
          · exact ensures_pure trivial
          · exact staysShallow_enterAttributes heval (hattrs pairs hpairs)
        refine ensures_bind hbuild fun result _ => ?_
        split
        · exact ensures_pure trivial
        · exact ensures_pure trivial

theorem staysShallow_payloadOf {value : Node} (hvalue : value.height < height) :
    StaysShallow (fun _ => True) (payloadOf eval value) := by
  unfold payloadOf
  split
  · exact ensures_bind (heval value hvalue) fun _ _ => ensures_pure trivial
  · exact ensures_pure trivial

theorem staysShallow_buildEntity (kind : Node) {value : Node} {attrs? : Option Node}
    (hvalue : value.height < height) (hattrs : ∀ pairs, attributePairs? attrs? = some pairs →
      ∀ node ∈ exposedPairs pairs, node.height < height) :
    StaysShallow (fun _ => True) (buildEntity eval kind value attrs?) := by
  refine ensures_bind (staysShallow_payloadOf heval hvalue) fun payload _ => ?_
  split
  · split
    · exact ensures_pure trivial
    · exact staysShallow_finishEntity heval _ _ hattrs
  · exact staysShallow_finishEntity heval _ _ hattrs

theorem staysShallow_runEntity
    (harguments : ∀ node ∈ exposedArguments arguments, node.height < height) :
    StaysShallow (fun value => value.isForm = false) (runEntity eval arguments) := by
  refine StaysShallow.of_givesNoForm ?_ (givesNoForm_runEntity arguments)
  unfold runEntity
  split
  · next kind value =>
    exact staysShallow_buildEntity heval kind (harguments value (by simp [exposedArguments]))
      fun pairs h => by cases h
  · next kind value attrs =>
    have hvalue := harguments value (value_mem_exposedArguments kind value attrs)
    refine staysShallow_buildEntity heval kind hvalue fun pairs hpairs node hnode => ?_
    exact harguments node (mem_exposedArguments_of_mem hpairs hnode)
  · exact ensures_pure trivial

theorem staysShallow_runLet (harguments : ∀ a ∈ arguments, a.height < height) :
    StaysShallow (fun value => value.isForm = false) (runLet eval arguments) := by
  unfold runLet
  split
  · next nodes body =>
    rw [List.forall_mem_cons] at harguments
    split
    · exact ensures_pure rfl
    · next bindings hread =>
      refine ensures_bind ensures_scope fun scope hscope => ensures_within hscope ?_
      exact ensures_runBody heval (fun _ name _ h hvalue => h.define name hvalue)
        (fun _ h => h.fixClosures) (height_lt_of_readBindings hread harguments.1) harguments.2 rfl
  · exact ensures_pure rfl

omit heval in
theorem staysShallow_runImpl (arguments : List Node) :
    StaysShallow (fun _ => True) (runImpl arguments) := by
  have hdeclare : ∀ type trait, StaysShallow (fun _ => True) (declareTrait type trait) := by
    intro type trait
    refine ensures_bind ensures_scope fun scope hscope => ?_
    split
    · exact ensures_pure trivial
    · exact ensures_bind (ensures_setScope (hscope.implement type trait)) fun _ _ =>
        ensures_report _
  unfold runImpl
  split
  · split
    · split
      · exact ensures_bind (hdeclare _ _) fun _ _ => ensures_pure trivial
      · exact ensures_pure trivial
    · exact ensures_pure trivial
  · exact ensures_pure trivial

omit heval in
theorem staysShallow_runLambda (arguments : List Node) :
    StaysShallow (fun _ => True) (runLambda arguments) := by
  unfold runLambda
  split
  · split
    · exact ensures_pure trivial
    · split
      · exact ensures_throw rfl
      · exact ensures_bind ensures_scope fun _ _ => ensures_bind ensures_freshOrigin fun _ _ =>
          ensures_pure trivial
  · exact ensures_pure trivial

theorem staysShallow_runCore {form : CoreForm}
    (h : FreedBelow height (.symbol form.name) arguments) :
    StaysShallow (fun value => value.isForm = false) (runCore eval form arguments) := by
  by_cases hentity : form = .entity
  · subst hentity
    exact staysShallow_runEntity heval h.exposed_lt
  have harguments := h.arguments_lt hentity
  by_cases hlet : form = .letIn
  · subst hlet
    exact staysShallow_runLet heval harguments
  refine StaysShallow.of_givesNoForm ?_ (givesNoForm_runCore hlet arguments)
  cases form with
  | entity => exact absurd rfl hentity
  | letIn => exact absurd rfl hlet
  | list =>
    refine ensures_bind (staysShallow_evalOperands heval harguments 1) fun result _ => ?_
    split
    · exact ensures_pure trivial
    · exact ensures_pure trivial
  | numeric op => exact staysShallow_runNumeric heval op harguments
  | eq => exact staysShallow_runEq heval harguments
  | impl => exact staysShallow_runImpl arguments
  | lambda => exact staysShallow_runLambda arguments

theorem staysShallow_evalValues {pairs : List Node} (hpairs : ∀ a ∈ pairs, a.height < height) :
    StaysShallow (fun result => ∀ a ∈ result, a.height < height) (evalValues eval pairs) := by
  fun_induction evalValues eval pairs with
  | case1 key value rest ih =>
    rw [List.forall_mem_cons, List.forall_mem_cons] at hpairs
    obtain ⟨hkey, hvalue, hrest⟩ := hpairs
    refine ensures_bind (heval value hvalue) fun evaluated hevaluated => ?_
    refine ensures_bind (ih hrest) fun others hothers => ensures_pure ?_
    -- a value has no height at all, so it may stand where a form has been
    have hlow : evaluated.height < height := by
      rw [height_of_not_form hevaluated]
      omega
    exact List.forall_mem_cons.mpr ⟨hkey, List.forall_mem_cons.mpr ⟨hlow, hothers⟩⟩
  | case2 pairs hshort => exact ensures_pure fun _ h => absurd h List.not_mem_nil

/-- **A form freed of sugar** is made of nodes that are lower than the form, or of values. -/
theorem staysShallow_desugar {head : Node} (hhead : head.height < height)
    (harguments : ∀ a ∈ arguments, a.height < height) :
    StaysShallow (fun result => ∀ freed, result = .ok freed → FreedBelow height freed.1 freed.2)
      (desugar eval head arguments) := by
  have hleaf : ∀ {node : Node}, node.isForm = false → node.height < height := by
    intro node hform
    rw [height_of_not_form hform]
    omega
  unfold desugar
  split
  · refine ensures_pure ?_
    rintro freed ⟨⟩
    exact .plain hhead harguments
  · refine ensures_pure ?_
    rintro freed ⟨⟩
    exact .entity (height_lt_of_mem_exposed_fold (List.forall_mem_cons.mpr ⟨hhead, harguments⟩))
  · next role _ =>
    split
    · exact ensures_pure fun freed h => by cases h
    · next value pairs =>
      rw [List.forall_mem_cons] at harguments
      split
      · exact ensures_pure fun freed h => by cases h
      · refine ensures_bind (staysShallow_evalValues heval harguments.2) fun attrs hattrs =>
          ensures_pure ?_
        rintro freed ⟨⟩
        refine .entity (height_lt_of_mem_exposed_map (hleaf rfl) harguments.1 ?_)
        intro a ha
        rcases List.mem_append.mp ha with hmem | hmem
        · exact hattrs a hmem
        · -- the role that is added is a keyword and a text
          simp only [List.mem_cons, List.not_mem_nil, or_false] at hmem
          rcases hmem with rfl | rfl
          · exact hleaf rfl
          · exact hleaf rfl

variable (hargEval : EvaluatesFunctions argEval)

include hargEval

omit heval in
/-- **An application** contains the failures of depth inside it. -/
theorem staysShallow_applyHead (head value : Node) (arguments : List Node) :
    StaysShallow (fun value => value.isForm = false) (applyHead argEval head value arguments) := by
  have hscope : StaysShallow (fun _ => True) (applyHead argEval head value arguments) := by
    have herror : Ensures (fun _ => True) (fun _ => True) (fun error => error.isTooDeep = false)
        (applyHead argEval head value arguments) := by
      unfold applyHead
      split
      · next c =>
        refine (answers_applyClosure hargEval c arguments).mono (fun _ _ => trivial) ?_
        rintro error ⟨cause, rfl⟩
        rfl
      · split
        · exact ensures_pure trivial
        · exact ensures_throw rfl
      · exact ensures_throw rfl
    have hkeeps : KeepsScope Scope.BindsNoForms (applyHead argEval head value arguments) :=
      keepsScope_applyHead head value arguments
    exact (Ensures.inter hkeeps herror).mono (fun _ _ => trivial) fun _ hboth => hboth.2
  exact hscope.of_givesNoForm (givesNoForm_applyHead hargEval head value arguments)

theorem staysShallow_runForm {head : Node} (h : FreedBelow height head arguments) :
    StaysShallow (fun value => value.isForm = false) (runForm eval argEval head arguments) := by
  unfold runForm
  split
  · next name =>
    split
    · next form hname =>
      rw [← CoreForm.name_of_ofName? hname] at h
      exact ensures_bind (ensures_report _) fun _ _ => staysShallow_runCore heval h
    · refine ensures_bind (Q := fun _ => True) (ensures_lookup name (fun _ _ _ _ => trivial) rfl) ?_
      exact fun value _ => staysShallow_applyHead hargEval _ value arguments
  · next items =>
    have hhead : (Node.form items).height < height := by
      cases h with
      | plain head_lt _ => exact head_lt
    refine ensures_bind (heval _ hhead) fun value _ => ?_
    exact staysShallow_applyHead hargEval _ value arguments
  · exact staysShallow_applyHead hargEval _ _ arguments

/-- **One step of evaluation** meets no failure of depth if the evaluator it calls meets none on
lower trees. -/
theorem staysShallow_evalNode {node : Node} (hnode : node.height ≤ height) :
    StaysShallow (fun value => value.isForm = false) (evalNode eval argEval node) := by
  unfold evalNode
  split
  · exact ensures_throw rfl
  · next head arguments =>
    have hitems : ∀ item ∈ head :: arguments, item.height < height := fun item hitem =>
      Nat.lt_of_lt_of_le (height_lt_of_mem hitem) hnode
    rw [List.forall_mem_cons] at hitems
    refine ensures_bind (staysShallow_desugar heval hitems.1 hitems.2) fun result hresult => ?_
    cases result with
    | error failure => exact ensures_pure rfl
    | ok freed => exact staysShallow_runForm heval hargEval (hresult freed rfl)
  · next name =>
    exact ensures_lookup name (fun _ hscope _ hlookup => hscope.lookup? hlookup) rfl
  · next hempty hform hsymbol =>
    refine ensures_pure ?_
    cases node with
    | form items =>
      cases items with
      | nil => exact absurd rfl hempty
      | cons head arguments => exact absurd rfl (hform head arguments)
    | _ => rfl

end Forms

/-! ### Calls outside applications -/

theorem EvaluatesBelow.mono {eval : Node → Run Node} {height lower : Nat}
    (heval : EvaluatesBelow height eval) (hle : lower ≤ height) : EvaluatesBelow lower eval :=
  fun node hnode => heval node (Nat.lt_of_lt_of_le hnode hle)

section Calls

variable {eval argEval : Node → Run Node} {height : Nat} (heval : EvaluatesBelow height eval)
  {node head child : Node} {arguments : List Node} {state after reached : RunState}

include heval

/-- A form that is free of sugar has nodes that are lower than what is written. -/
theorem Freed.below (h : Freed eval node state head arguments after) (hnode : node.height ≤ height)
    (hscope : state.scope.BindsNoForms) :
    FreedBelow height head arguments ∧ after.scope.BindsNoForms := by
  obtain ⟨written, rest, rfl, hfreed⟩ := h
  have hitems : ∀ item ∈ written :: rest, item.height < height := fun item hitem =>
    Nat.lt_of_lt_of_le (height_lt_of_mem hitem) hnode
  rw [List.forall_mem_cons] at hitems
  obtain ⟨hbelow, hafter⟩ := (staysShallow_desugar heval hitems.1 hitems.2).of_ok hscope hfreed
  exact ⟨hbelow _ rfl, hafter⟩

theorem StartsCore.below {form : CoreForm} (h : StartsCore eval node state form arguments after)
    (hnode : node.height ≤ height) (hscope : state.scope.BindsNoForms) :
    FreedBelow height (.symbol form.name) arguments ∧ after.scope.BindsNoForms := by
  obtain ⟨freed, hfreed, rfl⟩ := h
  exact hfreed.below heval hnode hscope

/-- **A strict operand** is lower than the form that it stands in. The operands before it are
evaluated, whatever becomes of their values. -/
theorem StartsCore.operand_below {β : Type} {form : CoreForm}
    {accept : Nat → Node → Except Failure β} {before rest : List Node} {accepted : List β}
    (starts : StartsCore eval node state form (before ++ child :: rest) after)
    (hentity : form ≠ .entity)
    (earlier : evalOperands eval accept 1 before after = .ok (.ok accepted) reached)
    (hnode : node.height ≤ height) (hscope : state.scope.BindsNoForms) :
    child.height < height ∧ reached.scope.BindsNoForms := by
  obtain ⟨hbelow, hstart⟩ := starts.below heval hnode hscope
  have harguments := hbelow.arguments_lt hentity
  rw [List.forall_mem_append, List.forall_mem_cons] at harguments
  obtain ⟨hbefore, hchild, -⟩ := harguments
  exact ⟨hchild, ((staysShallow_evalOperands heval hbefore 1).of_ok hstart earlier).2⟩

/-- An adjective is lower than the entity that it stands in. -/
theorem StartsCore.adjective_below {kind value key payload : Node} {before rest : List Node}
    {between : RunState} {attrs : Table String Node}
    (starts : StartsCore eval node state .entity
      [kind, value, .form (.symbol mapHead :: (before ++ key :: child :: rest))] after)
    (hasPayload : payloadOf eval value after = .ok payload between)
    (even : before.length % 2 = 0)
    (earlier : enterAttributes eval [] before between = .ok (.ok attrs) reached)
    (isAdjective : key.mapKey? = some adjectiveKey)
    (hnode : node.height ≤ height) (hscope : state.scope.BindsNoForms) :
    child.height < height ∧ reached.scope.BindsNoForms := by
  obtain ⟨hbelow, hstart⟩ := starts.below heval hnode hscope
  have hexposed := hbelow.exposed_lt
  have hvalue := hexposed value (value_mem_exposedArguments kind value _)
  have hpairs : ∀ a ∈ exposedPairs (before ++ key :: child :: rest), a.height < height :=
    fun a ha => hexposed a (mem_exposedArguments_of_mem (attributePairs?_eq_some_iff.mpr rfl) ha)
  rw [exposedPairs_append even, List.forall_mem_append] at hpairs
  obtain ⟨hbefore, hrest⟩ := hpairs
  obtain ⟨-, hbetween⟩ := (staysShallow_payloadOf heval hvalue).of_ok hstart hasPayload
  exact ⟨hrest child (mem_exposedPairs_adjective isAdjective child rest),
    ((staysShallow_enterAttributes heval hbefore).of_ok hbetween earlier).2⟩

/-- The value of a binding is lower than the `let` that it stands in. -/
theorem StartsCore.binding_below {nodes body : List Node} {before rest : List (String × Node)}
    {name : String} (starts : StartsCore eval node state .letIn (.form nodes :: body) after)
    (read : readBindings nodes = .ok (before ++ (name, child) :: rest))
    (earlier : bindInOrder eval before
      (after.reporting (.letScope (before ++ (name, child) :: rest).length)) = .ok () reached)
    (hnode : node.height ≤ height) (hscope : state.scope.BindsNoForms) :
    child.height < height ∧ reached.scope.BindsNoForms := by
  obtain ⟨hbelow, hstart⟩ := starts.below heval hnode hscope
  have hnodes := hbelow.arguments_lt (by simp) (.form nodes) List.mem_cons_self
  have hvalues := height_lt_of_readBindings read hnodes
  rw [List.forall_mem_append, List.forall_mem_cons] at hvalues
  obtain ⟨hbefore, hchild, -⟩ := hvalues
  have hbound : StaysShallow (fun _ => True) (bindInOrder eval before) :=
    ensures_bindInOrder heval (fun _ name _ h hvalue => h.define name hvalue) hbefore
  have hreporting : (after.reporting
      (.letScope (before ++ (name, child) :: rest).length)).scope.BindsNoForms := hstart
  exact ⟨hchild, (hbound.of_ok hreporting earlier).2⟩

/-- A node of the body of a `let` is lower than the `let`. -/
theorem StartsCore.sequel_below {nodes before rest : List Node} {value : Node}
    {bindings : List (String × Node)}
    (starts : StartsCore eval node state .letIn (.form nodes :: (before ++ child :: rest)) after)
    (read : readBindings nodes = .ok bindings)
    (earlier : runBody eval bindings before after = .ok value reached)
    (hnode : node.height ≤ height) (hscope : state.scope.BindsNoForms) :
    child.height < height ∧ reached.scope.BindsNoForms := by
  obtain ⟨hbelow, hstart⟩ := starts.below heval hnode hscope
  have harguments := hbelow.arguments_lt (by simp)
  rw [List.forall_mem_cons, List.forall_mem_append, List.forall_mem_cons] at harguments
  obtain ⟨hnodes, hbefore, hchild, -⟩ := harguments
  have hbody : StaysShallow (fun value => value.isForm = false) (runBody eval bindings before) :=
    ensures_runBody heval (fun _ name _ h hvalue => h.define name hvalue)
      (fun _ h => h.fixClosures) (height_lt_of_readBindings read hnodes) hbefore rfl
  exact ⟨hchild, (hbody.of_ok hstart earlier).2⟩

/-- **A call outside applications** is of a node below the height, in a scope that binds no forms
again. What is evaluated before it may have changed the scope, but binds no forms either. -/
theorem Calls.below (h : Calls eval argEval node state false child reached)
    (hnode : node.height ≤ height) (hscope : state.scope.BindsNoForms) :
    child.height < height ∧ reached.scope.BindsNoForms := by
  cases h with
  | @roleValue role value key item before rest keyed _ written paired even earlier =>
    subst written
    have hitem : ∀ a ∈ before ++ key :: child :: rest, a.height < height := fun a ha =>
      Nat.lt_of_lt_of_le (height_lt_of_mem (by simp [ha])) hnode
    rw [List.forall_mem_append, List.forall_mem_cons, List.forall_mem_cons] at hitem
    obtain ⟨hbefore, -, hchild, -⟩ := hitem
    exact ⟨hchild, ((staysShallow_evalValues heval hbefore).of_ok hscope earlier).2⟩
  | @payload kind value attrs _ starts short evaluated =>
    obtain ⟨hbelow, hreached⟩ := starts.below heval hnode hscope
    refine ⟨hbelow.exposed_lt child ?_, hreached⟩
    rcases attrs with _ | ⟨attrs, _ | ⟨second, attrs⟩⟩
    · simp [exposedArguments]
    · exact value_mem_exposedArguments kind child attrs
    · exact absurd short (by simp)
  | adjective starts hasPayload made usable paired even earlier isAdjective =>
    exact starts.adjective_below heval hasPayload even earlier isAdjective hnode hscope
  | element starts earlier => exact starts.operand_below heval (by simp) earlier hnode hscope
  | operand starts earlier => exact starts.operand_below heval (by simp) earlier hnode hscope
  | left starts =>
    obtain ⟨hbelow, hreached⟩ := starts.below heval hnode hscope
    exact ⟨hbelow.arguments_lt (by simp) child (by simp), hreached⟩
  | @right left right value start _ starts earlier =>
    obtain ⟨hbelow, hstart⟩ := starts.below heval hnode hscope
    have harguments := hbelow.arguments_lt (by simp)
    have hleft := harguments left (by simp)
    exact ⟨harguments child (by simp), ((heval left hleft).of_ok hstart earlier).2⟩
  | binding starts read earlier => exact starts.binding_below heval read earlier hnode hscope
  | sequel starts read earlier => exact starts.sequel_below heval read earlier hnode hscope
  | head freed =>
    obtain ⟨hbelow, hreached⟩ := freed.below heval hnode hscope
    cases hbelow with
    | plain head_lt _ => exact ⟨head_lt, hreached⟩

end Calls

/-- **Evaluation meets no failure of depth** on trees that are lower than there are levels. -/
theorem evaluatesBelow_eval (limit levels : Nat) : EvaluatesBelow levels (eval limit levels) := by
  induction levels with
  | zero => exact fun node hnode => absurd hnode (Nat.not_lt_zero _)
  | succ levels ih =>
    intro node hnode
    rw [eval_succ]
    exact staysShallow_evalNode ih (evaluatesFunctions_eval limit (levels - 1)) (by omega)

/-! ### Nested evaluations -/

/-- **The depth at which an evaluation stands** in a run under a limit: each level that is used up
is one more. -/
def Evaluation.depth [Stack] (limit : Nat) (e : Evaluation) : Nat :=
  min limit stackDepth + 1 - e.levels

/-- **The evaluations that are nested in an evaluation outside applications,** itself included:
`Reaches` without the calls of an application. -/
inductive Nests (limit : Nat) : Evaluation → Evaluation → Prop where
  | refl (e : Evaluation) : Nests limit e e
  | call {levels : Nat} {node child : Node} {state reached : RunState} {e : Evaluation}
      (calls : Calls (eval limit levels) (eval limit (levels - 1)) node state false child reached)
      (rest : Nests limit ⟨levels, child, reached⟩ e) : Nests limit ⟨levels + 1, node, state⟩ e

section Nests

variable {limit : Nat} {start e : Evaluation}

/-- **A nested evaluation has used up no more levels than its node is lower.** -/
theorem Nests.within (h : Nests limit start e) (hscope : start.state.scope.BindsNoForms)
    (hheight : start.node.height < start.levels) :
    e.state.scope.BindsNoForms ∧ start.levels + e.node.height ≤ e.levels + start.node.height := by
  induction h with
  | refl e => exact ⟨hscope, Nat.le_refl _⟩
  | @call levels node child state reached e calls rest ih =>
    replace hheight : node.height < levels + 1 := hheight
    have hbelow : EvaluatesBelow node.height (eval limit levels) :=
      (evaluatesBelow_eval limit levels).mono (by omega)
    obtain ⟨hchild, hreached⟩ := calls.below hbelow (Nat.le_refl _) hscope
    have hlevels : child.height < levels := by omega
    obtain ⟨hscope', hused⟩ := ih hreached hlevels
    refine ⟨hscope', ?_⟩
    show levels + 1 + e.node.height ≤ e.levels + node.height
    have hused' : levels + e.node.height ≤ e.levels + child.height := hused
    omega

end Nests

/-- No run of an action that stays shallow ends with a failure of depth. -/
theorem StaysShallow.ne_tooDeep {α : Type} {Q : α → Prop} {action : Run α} {state : RunState}
    (h : StaysShallow Q action) (hscope : state.scope.BindsNoForms) (named : Nat)
    (after : RunState) : action state ≠ .error (.tooDeep named) after := by
  intro hrun
  have hshallow := h.of_error hscope hrun
  cases hshallow.1

/-- A subject with an adjective, `(Subject "x" :adjective (Adjective size))`. -/
def introducedSize : Node :=
  .form [.symbol "Subject", .str "x", .keyword "adjective",
    .form [.symbol "Adjective", .symbol "size"]]

/-- A scope in which the name of a size is bound to a text. -/
def sizeScope : Scope Node := ⟨[("size", .str "big")], []⟩

/-- A limit of one is not enough for it. -/
example : ∃ after, evaluate 1 introducedSize (.initial sizeScope) = .error (.tooDeep 1) after :=
  ⟨_, rfl⟩

/-! ### Trees that the limit rejects -/

theorem height_code_nestedAdds (n : Nat) : (nestedAdds n).code.height = n + 1 := by
  induction n with
  | zero => decide
  | succ n ih =>
    rw [nestedAdds, code_apply, height_form, itemsHeight, List.map_cons, itemsHeight, ih,
      List.map_nil, itemsHeight, height_of_not_form rfl, Nat.max_zero, Nat.zero_max]

/-- Nested additions report no more than the additions until the levels are used up. -/
theorem eval_nestedAdds {limit levels n : Nat} (h : levels ≤ n) (state : RunState) :
    eval limit levels (nestedAdds n).code state = .error (.tooDeep limit)
      { state with journal := List.replicate levels (.coreForm "add") ++ state.journal } := by
  induction levels generalizing n state with
  | zero => rfl
  | succ levels ih =>
    cases n with
    | zero => exact absurd h (Nat.not_succ_le_zero _)
    | succ n =>
      have hoperand := ih (Nat.le_of_succ_le_succ h) (state.reporting (.coreForm "add"))
      rw [eval_succ, nestedAdds, code_apply]
      show evalNode _ _ (.form (.symbol (CoreForm.numeric .add).name :: [(nestedAdds n).code]))
        state = _
      rw [evalNode_core]
      show runNumeric .add (eval limit levels) [(nestedAdds n).code]
        (state.reporting (.coreForm "add")) = _
      rw [runNumeric, evalOperands, bind_of_error (bind_of_error hoperand), List.replicate_succ']
      simp [RunState.reporting]

/-- A name that is introduced as an adjective, `(Subject "x" :adjective n)`. -/
def introducedName : Node :=
  .form [.symbol "Subject", .str "x", .keyword "adjective", .symbol "n"]

/-- A scope that binds a name to a form, `(Adjective (Adjective "big"))`. -/
def formScope : Scope Node :=
  ⟨[("n", .form [.symbol "Adjective", .form [.symbol "Adjective", .str "big"]])], []⟩

end EntityLisp
