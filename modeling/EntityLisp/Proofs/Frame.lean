import EntityLisp.Proofs.Evaluation
import EntityLisp.Proofs.Sheltered

/-!
# The frame of evaluation

Evaluation leaves the scope that it starts in as it was but for declared traits, however it ends.
The forms that bind names do so in scopes of their own (`Run.within`), and only an `impl` form
writes to the current one.

`Keeps S free` says of an evaluator that it keeps the property `S` of scopes. If `S` does not
mind declarations, `free` holds and any node may be evaluated; otherwise only sheltered ones may.
One proof over the forms (`keepsScope_evalNode`) thus gives both halves of the frame.

* `keepsScope_evalNode`: one step of evaluation keeps what the evaluators that it calls do.
* `declaredFrom_eval`: **the scope after an evaluation is the one before with traits declared.**
-/

namespace EntityLisp

open Node Run

/-! ### Declarations -/

namespace Scope

/-- The scope with several traits declared, one after the other. -/
def declareAll (scope : Scope Node) (declared : List (TypeTag × TraitTag)) : Scope Node :=
  declared.foldl (fun scope (type, trait) => scope.implement type trait) scope

theorem declareAll_append (scope : Scope Node) (first second : List (TypeTag × TraitTag)) :
    scope.declareAll (first ++ second) = (scope.declareAll first).declareAll second :=
  List.foldl_append

theorem bindings_declareAll (scope : Scope Node) (declared : List (TypeTag × TraitTag)) :
    (scope.declareAll declared).bindings = scope.bindings := by
  induction declared generalizing scope with
  | nil => rfl
  | cons first rest ih =>
    show ((scope.implement first.1 first.2).declareAll rest).bindings = _
    rw [ih, bindings_implement]

/-- A declaration adds the one trait to the one type. -/
theorem hasTrait_implement (scope : Scope Node) (type other : TypeTag) (trait kept : TraitTag) :
    (scope.implement type trait).hasTrait other kept =
      (scope.hasTrait other kept || (other == type && kept == trait)) := by
  unfold implement
  split
  · next hhas =>
    -- the trait was there already
    by_cases heq : other = type ∧ kept = trait
    · obtain ⟨rfl, rfl⟩ := heq
      simp [hhas]
    · have hfalse : (other == type && kept == trait) = false := by
        rw [Bool.and_eq_false_iff, beq_eq_false_iff_ne, beq_eq_false_iff_ne]
        exact not_and_or.mp heq
      rw [hfalse, Bool.or_false]
  · simp only [hasTrait, traitsFor, Table.get?_put]
    split
    · next htype =>
      subst htype
      simp [Bool.or_comm]
    · next htype => simp [htype]

/-- **Exactly the declared traits are added.** -/
theorem hasTrait_declareAll (scope : Scope Node) (declared : List (TypeTag × TraitTag))
    (type : TypeTag) (trait : TraitTag) :
    (scope.declareAll declared).hasTrait type trait =
      (scope.hasTrait type trait || declared.contains (type, trait)) := by
  induction declared generalizing scope with
  | nil => simp [declareAll]
  | cons first rest ih =>
    obtain ⟨firstType, firstTrait⟩ := first
    show ((scope.implement firstType firstTrait).declareAll rest).hasTrait type trait = _
    rw [ih, hasTrait_implement, List.contains_cons, Bool.or_assoc]
    rfl

end Scope

/-! ### What evaluators keep -/

/-- A node that may be evaluated: any, where declarations are free, and else a sheltered one. -/
def Admitted (free : Prop) (node : Node) : Prop := free ∨ node.Sheltered

theorem admitted_of_not_form {free : Prop} {node : Node} (h : node.isForm = false) :
    Admitted free node :=
  Or.inr (sheltered_of_not_form h)

/-- What is said of the exposed nodes of a form is said where it matters. -/
theorem Admitted.of_mem_exposed {free : Prop} {node child : Node} (h : Admitted free node)
    (hchild : child ∈ node.exposed) : Admitted free child :=
  h.imp_right fun hsheltered => hsheltered.of_mem_exposed hchild

/-- **An evaluator that keeps a property of scopes.** -/
def Keeps (S : Scope Node → Prop) (free : Prop) (eval : Node → Run Node) : Prop :=
  ∀ node, Admitted free node → Ensures S (Admitted free) (fun _ => True) (eval node)

/-- An action that keeps a property of scopes. -/
def KeepsScope {α : Type} (S : Scope Node → Prop) (action : Run α) : Prop :=
  Ensures S (fun _ => True) (fun _ => True) action

namespace Run

variable {α β : Type} {S : Scope Node → Prop}

theorem Ensures.keepsScope {Q : α → Prop} {R : EvalError → Prop} {action : Run α}
    (h : Ensures S Q R action) : KeepsScope S action :=
  h.mono (fun _ _ => trivial) fun _ _ => trivial

theorem keepsScope_pure (value : α) : KeepsScope S (pure value) := ensures_pure trivial

theorem keepsScope_throw (error : EvalError) : KeepsScope S (throw error : Run α) :=
  ensures_throw trivial

theorem keepsScope_bind {action : Run α} {next : α → Run β} (haction : KeepsScope S action)
    (hnext : ∀ value, KeepsScope S (next value)) : KeepsScope S (action >>= next) :=
  ensures_bind haction fun value _ => hnext value

theorem keepsScope_report (event : Event) : KeepsScope S (report event) := ensures_report event

/-- Whatever is done in another scope, the current one is the same again. -/
theorem keepsScope_within (inner : Scope Node) (action : Run α) :
    KeepsScope S (within inner action) := by
  intro state hscope
  have hsame := scope_within inner action state
  cases hrun : within inner action state with
  | ok value after =>
    rw [hrun] at hsame
    exact ⟨trivial, hsame ▸ hscope⟩
  | error error after =>
    rw [hrun] at hsame
    exact ⟨trivial, hsame ▸ hscope⟩

theorem keepsScope_scope : KeepsScope S scope := fun _ hscope => ⟨trivial, hscope⟩

theorem keepsScope_lookup (name : String) : KeepsScope S (lookup name) :=
  ensures_lookup name (fun _ _ _ _ => trivial) trivial

end Run

section Forms

variable {S : Scope Node → Prop} {free : Prop} {eval argEval : Node → Run Node}

/-! ### The forms that write to no scope -/

theorem keepsScope_evalOperands (heval : Keeps S free eval) {β : Type}
    {accept : Nat → Node → Except Failure β} {arguments : List Node}
    (harguments : ∀ a ∈ arguments, Admitted free a) (position : Nat) :
    KeepsScope S (evalOperands eval accept position arguments) := by
  induction arguments generalizing position with
  | nil => exact keepsScope_pure _
  | cons argument rest ih =>
    rw [List.forall_mem_cons] at harguments
    unfold evalOperands
    refine keepsScope_bind (heval argument harguments.1).keepsScope fun value => ?_
    split
    · exact keepsScope_pure _
    · exact keepsScope_bind (ih harguments.2 _) fun _ => keepsScope_pure _

theorem keepsScope_runList (heval : Keeps S free eval) {arguments : List Node}
    (harguments : ∀ a ∈ arguments, Admitted free a) : KeepsScope S (runList eval arguments) := by
  refine keepsScope_bind (keepsScope_evalOperands heval harguments 1) fun result => ?_
  split <;> exact keepsScope_pure _

theorem keepsScope_runNumeric (heval : Keeps S free eval) (op : NumericOp)
    {arguments : List Node} (harguments : ∀ a ∈ arguments, Admitted free a) :
    KeepsScope S (runNumeric op eval arguments) := by
  refine keepsScope_bind (keepsScope_evalOperands heval harguments 1) fun result => ?_
  split
  · exact keepsScope_pure _
  · exact keepsScope_pure _
  · exact ensures_ofResult (fun _ _ => trivial) fun _ _ => trivial

theorem keepsScope_runEq (heval : Keeps S free eval) {arguments : List Node}
    (harguments : ∀ a ∈ arguments, Admitted free a) : KeepsScope S (runEq eval arguments) := by
  unfold runEq
  split
  · next left right =>
    refine keepsScope_bind (heval left (harguments left (by simp))).keepsScope fun a => ?_
    refine keepsScope_bind (heval right (harguments right (by simp))).keepsScope fun b => ?_
    split <;> exact keepsScope_pure _
  · exact keepsScope_pure _

theorem keepsScope_enterAttributes (heval : Keeps S free eval) {attrs : Table String Node}
    {pairs : List Node} (hpairs : ∀ node ∈ exposedPairs pairs, Admitted free node) :
    KeepsScope S (enterAttributes eval attrs pairs) := by
  fun_induction enterAttributes eval attrs pairs with
  | case1 attrs key value rest hkey => exact keepsScope_pure _
  | case2 attrs key value rest name hkey ih =>
    -- only an adjective is evaluated, and it is exposed
    have hvalue : KeepsScope S (attributeValue eval name value) := by
      unfold attributeValue
      split
      · next hname =>
        have hexposed := mem_exposedPairs_adjective (hname ▸ hkey) value rest
        refine keepsScope_bind (heval value (hpairs value hexposed)).keepsScope fun kept => ?_
        split
        · split <;> exact keepsScope_pure _
        · exact keepsScope_pure _
      · exact keepsScope_pure _
    refine keepsScope_bind hvalue fun result => ?_
    split
    · exact keepsScope_pure _
    · exact ih _ fun node hnode => hpairs node (mem_exposedPairs_cons hnode)
  | case3 attrs pairs hshort => exact keepsScope_pure _

theorem keepsScope_refuseEntity (entity : Entity Node) : KeepsScope S (refuseEntity entity) :=
  keepsScope_bind (keepsScope_report _) fun _ => keepsScope_pure _

theorem keepsScope_finishEntity (heval : Keeps S free eval) (typeName : String) (payload : Node)
    {attrs? : Option Node} (hattrs : ∀ pairs, attributePairs? attrs? = some pairs →
      ∀ node ∈ exposedPairs pairs, Admitted free node) :
    KeepsScope S (finishEntity eval typeName payload attrs?) := by
  unfold finishEntity
  split
  · exact keepsScope_refuseEntity _
  · split
    · exact keepsScope_refuseEntity _
    · split
      · exact keepsScope_pure _
      · next pairs hpairs =>
        have hbuild : KeepsScope S (buildAttributes eval pairs) := by
          unfold buildAttributes
          split
          · exact keepsScope_pure _
          · exact keepsScope_enterAttributes heval (hattrs pairs hpairs)
        refine keepsScope_bind hbuild fun result => ?_
        split <;> exact keepsScope_pure _

theorem keepsScope_buildEntity (heval : Keeps S free eval) (kind : Node) {value : Node}
    {attrs? : Option Node} (hvalue : Admitted free value)
    (hattrs : ∀ pairs, attributePairs? attrs? = some pairs →
      ∀ node ∈ exposedPairs pairs, Admitted free node) :
    KeepsScope S (buildEntity eval kind value attrs?) := by
  have hpayload : KeepsScope S (payloadOf eval value) := by
    unfold payloadOf
    split
    · exact keepsScope_bind (heval value hvalue).keepsScope fun _ => keepsScope_pure _
    · exact keepsScope_pure _
  refine keepsScope_bind hpayload fun payload => ?_
  split
  · split
    · exact keepsScope_pure _
    · exact keepsScope_finishEntity heval _ _ hattrs
  · exact keepsScope_finishEntity heval _ _ hattrs

theorem keepsScope_runEntity (heval : Keeps S free eval) {arguments : List Node}
    (harguments : ∀ node ∈ exposedArguments arguments, Admitted free node) :
    KeepsScope S (runEntity eval arguments) := by
  unfold runEntity
  split
  · next kind value =>
    exact keepsScope_buildEntity heval kind (harguments value (by simp [exposedArguments]))
      fun pairs h => by cases h
  · next kind value attrs =>
    refine keepsScope_buildEntity heval kind (harguments value ?_) fun pairs hpairs node hnode =>
      harguments node ?_
    · exact value_mem_exposedArguments kind value attrs
    · exact mem_exposedArguments_of_mem hpairs hnode
  · exact keepsScope_pure _

theorem keepsScope_runLambda (arguments : List Node) : KeepsScope S (runLambda arguments) := by
  unfold runLambda
  split
  · split
    · exact keepsScope_pure _
    · split
      · exact keepsScope_throw _
      · exact keepsScope_bind keepsScope_scope fun _ =>
          keepsScope_bind ensures_freshOrigin fun _ => keepsScope_pure _
  · exact keepsScope_pure _

/-! ### The forms with a scope of their own -/

theorem keepsScope_runLet (arguments : List Node) : KeepsScope S (runLet eval arguments) := by
  unfold runLet
  split
  · split
    · exact keepsScope_pure _
    · exact keepsScope_bind keepsScope_scope fun scope => keepsScope_within scope _
  · exact keepsScope_pure _

/-- **An application** evaluates its arguments and its body in scopes of their own. -/
theorem keepsScope_applyClosure (c : Closure Node) (arguments : List Node) :
    KeepsScope S (applyClosure eval c arguments) := by
  have hcall : KeepsScope S (callClosure eval c arguments) := by
    unfold callClosure
    split
    · refine keepsScope_bind keepsScope_scope fun scope => ?_
      refine keepsScope_bind (keepsScope_within _ _) fun result => ?_
      split
      · exact keepsScope_pure _
      · unfold runCall
        split
        · exact keepsScope_within _ _
        · exact keepsScope_bind (keepsScope_within _ _) fun _ => keepsScope_pure _
    · exact keepsScope_pure _
  refine keepsScope_bind (keepsScope_report _) fun _ => ?_
  refine ensures_contain hcall (fun _ _ _ => trivial) fun error _ => ?_
  exact keepsScope_bind (keepsScope_report _) fun _ => keepsScope_pure _

theorem keepsScope_applyHead (head value : Node) (arguments : List Node) :
    KeepsScope S (applyHead argEval head value arguments) := by
  unfold applyHead
  split
  · exact keepsScope_applyClosure _ arguments
  · split
    · exact keepsScope_pure _
    · exact keepsScope_throw _
  · exact keepsScope_throw _

/-! ### The `impl` form -/

/-- The property of scopes that is kept does not mind declarations where they are free. -/
def AllowsDeclaring (S : Scope Node → Prop) (free : Prop) : Prop :=
  free → ∀ scope type trait, S scope → S (scope.implement type trait)

theorem keepsScope_runImpl (hfree : ∀ scope type trait, S scope → S (scope.implement type trait))
    (arguments : List Node) : KeepsScope S (runImpl arguments) := by
  unfold runImpl
  split
  · split
    · split
      · next t k _ _ =>
        refine keepsScope_bind ?_ fun _ => keepsScope_pure _
        refine ensures_bind ensures_scope fun scope hscope => ?_
        split
        · exact keepsScope_pure _
        · exact keepsScope_bind (ensures_setScope (hfree scope k t hscope)) fun _ =>
            keepsScope_report _
      · exact keepsScope_pure _
    · exact keepsScope_pure _
  · exact keepsScope_pure _

/-! ### Forms in general -/

theorem ensures_evalValues_admitted (heval : Keeps S free eval) {pairs : List Node}
    (hpairs : ∀ node ∈ pairs, Admitted free node) :
    Ensures S (fun result => ∀ node ∈ result, Admitted free node) (fun _ => True)
      (evalValues eval pairs) := by
  fun_induction evalValues eval pairs with
  | case1 key value rest ih =>
    rw [List.forall_mem_cons, List.forall_mem_cons] at hpairs
    refine ensures_bind (heval value hpairs.2.1) fun evaluated hevaluated => ?_
    refine ensures_bind (ih hpairs.2.2) fun others hothers => ensures_pure ?_
    rw [List.forall_mem_cons, List.forall_mem_cons]
    exact ⟨hpairs.1, hevaluated, hothers⟩
  | case2 pairs hshort => exact ensures_pure (by simp)

/-- An `entity` form is admitted if all that it exposes is. -/
theorem admitted_entity {arguments : List Node}
    (h : ∀ node ∈ exposedArguments arguments, Admitted free node) :
    Admitted free (.form (.symbol CoreForm.entity.name :: arguments)) := by
  by_cases hfree : free
  · exact Or.inl hfree
  · refine Or.inr (.intro rfl fun node hnode => ?_)
    rw [exposed_entity] at hnode
    exact (h node hnode).resolve_left hfree

/-- The `entity` form that a role stands for exposes nothing but what the role form does and the
values of its attributes. -/
theorem admitted_roleArguments {role : Role} {value : Node} {attrs : List Node}
    (hvalue : Admitted free value) (hattrs : ∀ a ∈ attrs, Admitted free a) :
    ∀ node ∈ exposedArguments (roleArguments role value attrs), Admitted free node := by
  intro node hnode
  have hpairs : attributePairs? (some (.form (.symbol mapHead :: attrs ++
      [.keyword "role", .str role.value]))) =
        some (attrs ++ [.keyword "role", .str role.value]) := by
    simp [attributePairs?]
  unfold roleArguments exposedArguments at hnode
  simp only [hpairs, List.mem_cons] at hnode
  rcases hnode with rfl | rfl | hnode
  · exact admitted_of_not_form rfl
  · exact hvalue
  · have hmem := mem_of_mem_exposedPairs hnode
    simp only [List.mem_append, List.mem_cons, List.not_mem_nil, or_false] at hmem
    rcases hmem with hmem | rfl | rfl
    · exact hattrs node hmem
    · exact admitted_of_not_form rfl
    · exact admitted_of_not_form rfl

/-- **A form freed of sugar** is admitted as the form was. -/
theorem ensures_desugar_admitted (heval : Keeps S free eval) {head : Node}
    {arguments : List Node} (hform : Admitted free (.form (head :: arguments))) :
    Ensures S (fun result => ∀ freed, result = .ok freed →
      Admitted free (.form (freed.1 :: freed.2))) (fun _ => True)
      (desugar eval head arguments) := by
  unfold desugar
  cases hsugar : head.sugar? with
  | none =>
    refine ensures_pure ?_
    rintro freed ⟨⟩
    exact hform
  | some sugar =>
    cases sugar with
    | type tag =>
      refine ensures_pure ?_
      rintro freed ⟨⟩
      refine admitted_entity fun node hnode => hform.of_mem_exposed ?_
      rwa [exposed_type hsugar]
    | role role =>
      have harguments : ∀ a ∈ arguments, Admitted free a := fun a ha =>
        hform.of_mem_exposed <| by rwa [exposed_role hsugar]
      cases arguments with
      | nil => exact ensures_pure (by simp)
      | cons value pairs =>
        rw [List.forall_mem_cons] at harguments
        cases hkey : unpairedKey? pairs with
        | some key =>
          simp only [hkey]
          exact ensures_pure (by simp)
        | none =>
          simp only [hkey]
          refine ensures_bind (ensures_evalValues_admitted heval harguments.2) fun attrs hattrs =>
            ensures_pure ?_
          rintro freed ⟨⟩
          exact admitted_entity (admitted_roleArguments harguments.1 hattrs)

theorem keepsScope_runCore (heval : Keeps S free eval) (hdeclare : AllowsDeclaring S free)
    {form : CoreForm} {arguments : List Node}
    (hform : Admitted free (.form (.symbol form.name :: arguments))) :
    KeepsScope S (runCore eval form arguments) := by
  cases form with
  | entity =>
    refine keepsScope_runEntity heval fun node hnode => hform.of_mem_exposed ?_
    rwa [exposed_entity]
  | letIn => exact keepsScope_runLet arguments
  | lambda => exact keepsScope_runLambda arguments
  | impl =>
    -- an `impl` form shelters nothing
    have hfree : free := hform.resolve_right (not_sheltered_impl arguments)
    exact keepsScope_runImpl (hdeclare hfree) arguments
  | list =>
    exact keepsScope_runList heval fun node hnode => hform.of_mem_exposed <| by
      rwa [exposed_core (by decide) (by decide) (by decide)]
  | numeric op =>
    exact keepsScope_runNumeric heval op fun node hnode => hform.of_mem_exposed <| by
      rwa [exposed_core (by simp) (by simp) (by simp)]
  | eq =>
    exact keepsScope_runEq heval fun node hnode => hform.of_mem_exposed <| by
      rwa [exposed_core (by decide) (by decide) (by decide)]

theorem keepsScope_runForm (heval : Keeps S free eval) (hdeclare : AllowsDeclaring S free)
    {head : Node} {arguments : List Node} (hform : Admitted free (.form (head :: arguments))) :
    KeepsScope S (runForm eval argEval head arguments) := by
  unfold runForm
  split
  · next name =>
    split
    · next form hname =>
      rw [← CoreForm.name_of_ofName? hname] at hform
      exact keepsScope_bind (keepsScope_report _) fun _ =>
        keepsScope_runCore heval hdeclare hform
    · exact keepsScope_bind (keepsScope_lookup name) fun value => keepsScope_applyHead _ _ _
  · next items =>
    have hhead := hform.of_mem_exposed (mem_exposed_form items arguments)
    exact keepsScope_bind (heval _ hhead).keepsScope fun value => keepsScope_applyHead _ _ _
  · exact keepsScope_applyHead _ _ _

/-- **One step of evaluation** keeps the scope if the evaluator it calls does. -/
theorem keepsScope_evalNode (heval : Keeps S free eval) (hdeclare : AllowsDeclaring S free)
    {node : Node} (hnode : Admitted free node) : KeepsScope S (evalNode eval argEval node) := by
  unfold evalNode
  split
  · exact keepsScope_throw _
  · next head arguments =>
    refine ensures_bind (ensures_desugar_admitted heval hnode) fun result hresult => ?_
    cases result with
    | error failure => exact keepsScope_pure _
    | ok freed => exact keepsScope_runForm heval hdeclare (hresult freed rfl)
  · exact keepsScope_lookup _
  · exact keepsScope_pure _

end Forms

/-! ### Declarations only -/

/-- Where any node may be evaluated, evaluation keeps every property that does not mind
declarations. -/
theorem keeps_eval_of_declaring {S : Scope Node → Prop}
    (hdeclare : ∀ scope type trait, S scope → S (scope.implement type trait))
    (limit levels : Nat) : Keeps S True (eval limit levels) := by
  induction levels with
  | zero => exact fun _ _ => ensures_throw trivial
  | succ levels ih =>
    intro node hnode
    rw [eval_succ]
    have hkeeps : KeepsScope S (evalNode (eval limit levels) (eval limit (levels - 1)) node) :=
      keepsScope_evalNode ih (fun _ => hdeclare) hnode
    exact hkeeps.mono (fun _ _ => Or.inl trivial) fun _ h => h

/-- The scope comes from `start` by declarations. -/
def DeclaredFrom (start scope : Scope Node) : Prop := ∃ declared, scope = start.declareAll declared

namespace DeclaredFrom

variable {start scope : Scope Node}

theorem refl (start : Scope Node) : DeclaredFrom start start := ⟨[], rfl⟩

theorem implement (h : DeclaredFrom start scope) (type : TypeTag) (trait : TraitTag) :
    DeclaredFrom start (scope.implement type trait) := by
  obtain ⟨declared, rfl⟩ := h
  exact ⟨declared ++ [(type, trait)], (start.declareAll_append declared [(type, trait)]).symm⟩

theorem trans {between : Scope Node} (h : DeclaredFrom start between)
    (hlater : DeclaredFrom between scope) : DeclaredFrom start scope := by
  obtain ⟨first, rfl⟩ := h
  obtain ⟨second, rfl⟩ := hlater
  exact ⟨first ++ second, (start.declareAll_append first second).symm⟩

theorem bindings_eq (h : DeclaredFrom start scope) : scope.bindings = start.bindings := by
  obtain ⟨declared, rfl⟩ := h
  exact start.bindings_declareAll declared

/-- No declaration is lost. -/
theorem hasTrait (h : DeclaredFrom start scope) {type : TypeTag} {trait : TraitTag}
    (htrait : start.hasTrait type trait = true) : scope.hasTrait type trait = true := by
  obtain ⟨declared, rfl⟩ := h
  rw [Scope.hasTrait_declareAll, htrait, Bool.true_or]

end DeclaredFrom

/-- What keeps a property of scopes has it afterwards, however it ends. -/
theorem KeepsScope.after {α : Type} {S : Scope Node → Prop} {action : Run α}
    (h : KeepsScope S action) {state : RunState} (hscope : S state.scope) :
    S (finalState (action state)).scope := by
  have hafter := h state hscope
  cases hrun : action state with
  | ok value after =>
    rw [hrun] at hafter
    exact hafter.2
  | error error after =>
    rw [hrun] at hafter
    exact hafter.2

/-- **Evaluation only declares traits** in the scope that it starts in, however it ends. -/
theorem declaredFrom_eval (limit levels : Nat) (node : Node) (state : RunState) :
    DeclaredFrom state.scope (finalState (eval limit levels node state)).scope := by
  have hkeeps : Keeps (DeclaredFrom state.scope) True (eval limit levels) :=
    keeps_eval_of_declaring (fun _ type trait h => h.implement type trait) limit levels
  exact (hkeeps node (Or.inl trivial)).keepsScope.after (.refl state.scope)

end EntityLisp
