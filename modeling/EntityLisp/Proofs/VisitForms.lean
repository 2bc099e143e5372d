import EntityLisp.Proofs.Visits

/-!
# The visits of a step of evaluation

The visits of each form, in the words of `Calls`, and from them those of a step of evaluation.
A `lambda` form that makes a closure visits nothing, and it is the only step that enters something
itself: the function of the new closure, under the number that the closure gets.

* `follows_evalNode`: **the visits of a step of evaluation are its calls,** in order, unless the
  step makes a closure.
-/

namespace EntityLisp

open Node Run

/-! ### Core forms -/

/-- **The visits of a core form** on arguments, from the state in which it starts. -/
def CoreVisit (eval : Node → Run Node) (arguments : List Node) (start : RunState) (v : Visit) :
    CoreForm → Prop
  | .entity =>
    (∃ kind value attrs, arguments = kind :: value :: attrs ∧ attrs.length ≤ 1 ∧
      value.isEvaluatedPayload = true ∧ v = ⟨false, value, start⟩) ∨
    ∃ kind value pairs payload between e, arguments =
        [kind, value, .form (.symbol mapHead :: pairs)] ∧
      payloadOf eval value start = .ok payload between ∧
      makeEntity (typeNameOf kind) payload [] = .ok e ∧ e.isError = false ∧
      unpairedKey? pairs = none ∧ AdjectiveVisit eval [] pairs between v
  | .list => OperandVisit eval listElement 1 arguments start v
  | .numeric op => OperandVisit eval (numericOperand op) 1 arguments start v
  | .eq => ∃ left right, arguments = [left, right] ∧ (v = ⟨false, left, start⟩ ∨
      ∃ value reached, eval left start = .ok value reached ∧ v = ⟨false, right, reached⟩)
  | .letIn => ∃ nodes body bindings, arguments = .form nodes :: body ∧
      readBindings nodes = .ok bindings ∧
        (BindingVisit eval bindings (start.reporting (.letScope bindings.length)) v ∨
        ∃ before item rest, body = before ++ item :: rest ∧ ∃ value reached,
          runBody eval bindings before start = .ok value reached ∧ v = ⟨false, item, reached⟩)
  | .impl | .lambda => False

section Forms

variable {ev : Bool → Node → Run Node} {known arguments : List Node}

theorem follows_runList (harguments : arguments ⊆ known) (start : RunState) :
    Follows ev known itself start (runList (ev false) arguments start)
      fun v => CoreVisit (ev false) arguments start v .list := by
  refine follows_bind_of_kept (follows_evalOperands (fun _ _ _ => eq_entity_of_listElement)
    harguments 1 start) fun result between _ ledger _ hresult hbetween => ?_
  cases result with
  | ok es =>
    exact kept_ok hbetween (recordedAll_itself (.entities (List.forall_mem_map.mp hresult)))
  | error failure => exact kept_failure failure hbetween

theorem follows_runNumeric (op : NumericOp) (harguments : arguments ⊆ known) (start : RunState) :
    Follows ev known itself start (runNumeric op (ev false) arguments start)
      fun v => CoreVisit (ev false) arguments start v (.numeric op) := by
  refine follows_bind_of_kept (follows_evalOperands (fun _ _ _ => eq_entity_of_numericOperand)
    harguments 1 start) fun result between _ ledger _ hresult hbetween => ?_
  match result with
  | .error failure => exact kept_failure failure hbetween
  | .ok [] => exact kept_failure _ hbetween
  | .ok (first :: rest) =>
    have hoperands : ∀ e ∈ first :: rest, (Node.entity e).Recorded ledger :=
      List.forall_mem_map.mp hresult
    rw [List.forall_mem_cons] at hoperands
    refine kept_ofResult hbetween fun total htotal => recordedAll_itself ?_
    exact recorded_foldPayloads op hoperands.1 hoperands.2 (Except.mapError_eq_ok_iff.mp htotal)

theorem follows_runEq (harguments : arguments ⊆ known) (start : RunState) :
    Follows ev known itself start (runEq (ev false) arguments start)
      fun v => CoreVisit (ev false) arguments start v .eq := by
  unfold runEq
  split
  · next left right =>
    simp only [List.cons_subset] at harguments
    refine (follows_bind (follows_visit false harguments.1) fun a between _ =>
      follows_bind_of_kept (follows_visit false (List.mem_append_left _ harguments.2.1))
        fun b last _ ledger _ _ hlast => ?_).congr fun v => ?_
    · cases heq : compareValues a b with
      | ok value => exact kept_ok hlast (recordedAll_itself (recorded_compareValues heq))
      | error failure => exact kept_failure failure hlast
    · refine ⟨fun h => ⟨left, right, rfl, h⟩, ?_⟩
      rintro ⟨_, _, ⟨⟩, h⟩
      exact h
  · next hcount =>
    refine follows_end (fun ledger _ hstate => kept_failure _ hstate) ?_
    rintro v ⟨left, right, rfl, -⟩
    exact hcount left right rfl

/-! ### The `entity` form -/

theorem follows_payloadOf {node : Node} (hnode : node ∈ known) (state : RunState) :
    Follows ev known itself state (payloadOf (ev false) node state) fun v =>
      node.isEvaluatedPayload = true ∧ v = ⟨false, node, state⟩ := by
  unfold payloadOf
  split
  · next hevaluated =>
    refine (follows_bind_of_kept (follows_visit false hnode)
      fun value between _ ledger _ hvalue hbetween => ?_).congr fun v => by simp [hevaluated]
    have hrecorded : value.Recorded ledger := hvalue value List.mem_cons_self
    exact kept_ok hbetween (recordedAll_itself hrecorded.lentPayload)
  · next hplain =>
    refine follows_end (fun ledger hknown hstate => kept_ok hstate ?_) fun v h => hplain h.1
    exact recordedAll_itself (hknown node hnode)

theorem kept_refuseEntity {ledger : Ledger} {e : Entity Node} {state : RunState}
    (he : (Node.entity e).Recorded ledger) (hstate : state.Recorded ledger) :
    Kept ledger itself (refuseEntity e state) :=
  kept_ok (hstate.reporting _) (recordedAll_itself he)

theorem follows_buildAttributes {pairs : List Node} (hpairs : pairs ⊆ known) (state : RunState) :
    Follows ev known (resultParts fun attrs => attrs.map (·.2)) state
      (buildAttributes (ev false) pairs state) fun v =>
        unpairedKey? pairs = none ∧ AdjectiveVisit (ev false) [] pairs state v := by
  unfold buildAttributes
  cases hkey : unpairedKey? pairs with
  | some key =>
    refine follows_end (fun ledger _ hstate => kept_ok hstate recordedAll_nil) ?_
    rintro v ⟨⟨⟩, -⟩
  | none =>
    refine (follows_enterAttributes ?_ hpairs state).congr fun v => ⟨fun h => ⟨rfl, h⟩, And.right⟩
    exact fun attr hattr => absurd hattr List.not_mem_nil

/-- The visits of an entity that gets attributes are its adjectives. -/
theorem follows_withAttributes {e : Entity Node} {pairs : List Node} (hpayload : e.payload ∈ known)
    (hpairs : pairs ⊆ known) (state : RunState) :
    Follows ev known itself state
      ((buildAttributes (ev false) pairs >>= fun result =>
        match result with
        | .error failure => pure failure.toNode
        | .ok attrs => pure (.entity { e with attrs := attrs }) : Run Node) state) fun v =>
      unpairedKey? pairs = none ∧ AdjectiveVisit (ev false) [] pairs state v := by
  refine follows_bind_of_kept (follows_buildAttributes hpairs state)
    fun result between _ ledger hknown hresult hbetween => ?_
  cases result with
  | error failure => exact kept_failure failure hbetween
  | ok attrs =>
    refine kept_ok hbetween (recordedAll_itself (.entity ?_ ?_))
    · exact hknown e.payload hpayload
    · exact List.forall_mem_map.mp hresult

/-- The visits of an entity that has its payload are its adjectives. -/
theorem follows_finishEntity (typeName : String) {payload : Node} (hpayload : payload ∈ known)
    {attrs? : Option Node} (hattrs : ∀ attrs, attrs? = some attrs → attrs ∈ known)
    (state : RunState) :
    Follows ev known itself state (finishEntity (ev false) typeName payload attrs? state) fun v =>
      ∃ pairs e, attrs? = some (.form (.symbol mapHead :: pairs)) ∧
        makeEntity typeName payload [] = .ok e ∧ e.isError = false ∧
          unpairedKey? pairs = none ∧ AdjectiveVisit (ev false) [] pairs state v := by
  unfold finishEntity
  cases hmade : makeEntity typeName payload [] with
  | error failure =>
    refine follows_end (fun ledger _ hstate =>
      kept_refuseEntity failure.recorded_toNode hstate) ?_
    rintro v ⟨pairs, e, -, ⟨⟩, -⟩
  | ok e =>
    obtain ⟨-, hsame, hempty⟩ := kind_of_makeEntity hmade
    have hrecorded : ∀ ledger, RecordedAll ledger known → (Node.entity e).Recorded ledger :=
      fun ledger hknown => .entity (hsame ▸ hknown payload hpayload)
        fun attr hattr => absurd (hempty ▸ hattr) List.not_mem_nil
    cases husable : e.isError with
    | true =>
      simp only [husable, ↓reduceIte]
      refine follows_end (fun ledger hknown hstate =>
        kept_refuseEntity (hrecorded ledger hknown) hstate) ?_
      rintro v ⟨pairs, _, -, ⟨⟩, hfalse, -⟩
      rw [husable] at hfalse
      cases hfalse
    | false =>
      simp only [husable, Bool.false_eq_true, ↓reduceIte]
      cases hpairs : attributePairs? attrs? with
      | none =>
        refine follows_end (fun ledger hknown hstate =>
          kept_ok hstate (recordedAll_itself (hrecorded ledger hknown))) ?_
        rintro v ⟨pairs, _, hform, -⟩
        rw [attributePairs?_eq_some_iff.mpr hform] at hpairs
        cases hpairs
      | some pairs =>
        have hform := attributePairs?_eq_some_iff.mp hpairs
        -- the keys and values are no known nodes themselves, but parts of one
        have hentered : Follows ev (known ++ pairs) itself state _ _ :=
          follows_withAttributes (List.mem_append_left pairs (hsame.symm ▸ hpayload))
            (List.subset_append_right known pairs) state
        refine (hentered.of_recorded fun ledger hknown hstate => ⟨?_, hstate⟩).congr fun v => ?_
        · refine List.forall_mem_append.mpr ⟨hknown, recorded_of_attributePairs? ?_ hpairs⟩
          exact fun attrs heq => hknown attrs (hattrs attrs heq)
        · constructor
          · exact fun h => ⟨pairs, e, hform, rfl, husable, h⟩
          · rintro ⟨_, _, hother, -, -, h⟩
            rw [hform] at hother
            cases hother
            exact h

/-- The visits of an entity: its payload, and then its adjectives. -/
theorem follows_buildEntity (kind : Node) {value : Node} (hvalue : value ∈ known)
    {attrs? : Option Node} (hattrs : ∀ attrs, attrs? = some attrs → attrs ∈ known)
    (state : RunState) :
    Follows ev known itself state (buildEntity (ev false) kind value attrs? state) fun v =>
      (value.isEvaluatedPayload = true ∧ v = ⟨false, value, state⟩) ∨ ∃ payload between,
        payloadOf (ev false) value state = .ok payload between ∧ ∃ pairs e,
          attrs? = some (.form (.symbol mapHead :: pairs)) ∧
          makeEntity (typeNameOf kind) payload [] = .ok e ∧ e.isError = false ∧
          unpairedKey? pairs = none ∧ AdjectiveVisit (ev false) [] pairs between v := by
  refine follows_bind (follows_payloadOf hvalue state) fun payload between _ => ?_
  have hfinish : Follows ev (known ++ [payload]) itself between
      (finishEntity (ev false) (typeNameOf kind) payload attrs? between) _ :=
    follows_finishEntity (typeNameOf kind) (by simp)
      (fun attrs heq => List.mem_append_left _ (hattrs attrs heq)) between
  split
  · next e =>
    split
    -- an error entity is handed on, and could not be a payload anyway
    · refine follows_end (fun ledger hknown hbetween => kept_ok hbetween
        (recordedAll_itself (hknown _ (by simp)))) ?_
      rintro v ⟨pairs, e', -, hmade, -⟩
      exact absurd hmade (makeEntity_entity_ne_ok _ _ _)
    · exact hfinish
  · exact hfinish

theorem follows_runEntity (harguments : arguments ⊆ known) (start : RunState) :
    Follows ev known itself start (runEntity (ev false) arguments start)
      fun v => CoreVisit (ev false) arguments start v .entity := by
  unfold runEntity
  split
  · next kind value =>
    simp only [List.cons_subset] at harguments
    refine (follows_buildEntity kind harguments.2.1 (by simp) start).congr fun v =>
      or_congr ⟨?_, ?_⟩ ⟨?_, ?_⟩
    · rintro ⟨hevaluated, rfl⟩
      exact ⟨kind, value, [], rfl, by simp, hevaluated, rfl⟩
    · rintro ⟨_, _, _, ⟨⟩, -, hevaluated, rfl⟩
      exact ⟨hevaluated, rfl⟩
    · rintro ⟨payload, between, -, pairs, e, ⟨⟩, -⟩
    · rintro ⟨_, _, pairs, payload, between, e, ⟨⟩, -⟩
  · next kind value attrs =>
    simp only [List.cons_subset] at harguments
    refine (follows_buildEntity kind harguments.2.1 ?_ start).congr fun v =>
      or_congr ⟨?_, ?_⟩ ⟨?_, ?_⟩
    · rintro _ ⟨⟩
      exact harguments.2.2.1
    · rintro ⟨hevaluated, rfl⟩
      exact ⟨kind, value, [attrs], rfl, by simp, hevaluated, rfl⟩
    · rintro ⟨_, _, _, ⟨⟩, -, hevaluated, rfl⟩
      exact ⟨hevaluated, rfl⟩
    · rintro ⟨payload, between, hpayload, pairs, e, ⟨⟩, h⟩
      exact ⟨kind, value, pairs, payload, between, e, rfl, hpayload, h⟩
    · rintro ⟨_, _, pairs, payload, between, e, ⟨⟩, hpayload, h⟩
      exact ⟨payload, between, hpayload, pairs, e, rfl, h⟩
  · next htwo hthree =>
    refine follows_end (fun ledger _ hstate => kept_failure _ hstate) ?_
    rintro v (⟨kind, value, attrs, rfl, hshort, -⟩ | ⟨kind, value, pairs, _, _, _, rfl, -⟩)
    · match attrs with
      | [] => exact htwo kind value rfl
      | [attrs] => exact hthree kind value attrs rfl
      | _ :: _ :: rest => simp at hshort
    · exact hthree kind value _ rfl

/-! ### The `let`, `impl` and `lambda` forms -/

/-- The visits of a `let` in its own scope: the values of the bindings, and then the body. -/
theorem follows_runBody {bindings : List (String × Node)}
    (hbindings : ∀ binding ∈ bindings, binding.2 ∈ known) {body : List Node}
    (hbody : body ⊆ known) (state : RunState) :
    Follows ev known itself state (runBody (ev false) bindings body state) fun v =>
      BindingVisit (ev false) bindings (state.reporting (.letScope bindings.length)) v ∨
      ∃ before item rest, body = before ++ item :: rest ∧ ∃ value reached,
        runBody (ev false) bindings before state = .ok value reached ∧
          v = ⟨false, item, reached⟩ := by
  -- fixing the closures of the scope stands between the bindings and the body
  have hrest : ∀ between, Follows ev (.nil :: known) itself between
      ((fixCurrent >>= fun _ => evalSequence (ev false) .nil body) between) fun v =>
        ∃ before item rest, body = before ++ item :: rest ∧ ∃ value reached,
          (fixCurrent >>= fun _ => evalSequence (ev false) .nil before) between =
            .ok value reached ∧ v = ⟨false, item, reached⟩ := by
    intro between
    obtain ⟨journal, hfix⟩ := fixCurrent_apply between
    simp only [bind_of_ok hfix]
    refine (follows_evalSequence List.mem_cons_self (List.subset_cons_of_subset _ hbody)
      _).of_recorded fun ledger hknown hbetween => ⟨hknown, ?_⟩
    exact ⟨hbetween.scope.fixClosures, hbetween.next⟩
  have hbound : Follows ev (.nil :: known) noParts (state.reporting (.letScope bindings.length))
      (bindInOrder (ev false) bindings (state.reporting (.letScope bindings.length))) _ :=
    follows_bindInOrder
      (fun binding hbinding => List.mem_cons_of_mem _ (hbindings binding hbinding)) _
  have hall := follows_bind hbound
    fun _ between _ => (hrest between).of_subset (List.subset_append_left _ _)
  refine (hall.of_recorded fun ledger hknown hstate =>
    ⟨List.forall_mem_cons.mpr ⟨.plain rfl, hknown⟩, hstate.reporting _⟩).congr fun v =>
      or_congr Iff.rfl ⟨?_, ?_⟩
  · rintro ⟨_, between, hbound, before, item, rest, hsplit, value, reached, hbefore, rfl⟩
    refine ⟨before, item, rest, hsplit, value, reached, ?_, rfl⟩
    rw [runBody, bind_of_ok (report_apply _ _), bind_of_ok hbound]
    exact hbefore
  · rintro ⟨before, item, rest, hsplit, value, reached, hbefore, rfl⟩
    rw [runBody, bind_of_ok (report_apply _ _), bind_eq_ok_iff] at hbefore
    obtain ⟨_, between, hbound, hbefore⟩ := hbefore
    exact ⟨(), between, hbound, before, item, rest, hsplit, value, reached, hbefore, rfl⟩

theorem follows_runLet (harguments : arguments ⊆ known) (start : RunState) :
    Follows ev known itself start (runLet (ev false) arguments start)
      fun v => CoreVisit (ev false) arguments start v .letIn := by
  unfold runLet
  split
  · next nodes body =>
    rw [List.cons_subset] at harguments
    cases hread : readBindings nodes with
    | error node =>
      refine follows_end (fun ledger _ hstate => kept_failure _ hstate) ?_
      rintro v ⟨_, _, bindings, ⟨⟩, hbindings, -⟩
      rw [hread] at hbindings
      cases hbindings
    | ok bindings =>
      -- the values that are bound are no known nodes themselves, but parts of one
      have hbody : Follows ev (known ++ bindings.map (·.2)) itself start
          (runBody (ev false) bindings body start) _ := follows_runBody
        (fun binding hbinding => List.mem_append_right _ (List.mem_map_of_mem hbinding))
        (List.subset_append_of_subset_left _ harguments.2) start
      have hwithin : Follows ev (known ++ bindings.map (·.2)) itself start
          (within start.scope (runBody (ev false) bindings body) start) _ :=
        hbody.within fun ledger _ hstate => hstate.scope
      refine (hwithin.of_recorded fun ledger hknown hstate =>
        ⟨List.forall_mem_append.mpr ⟨hknown, ?_⟩, hstate⟩).congr fun v =>
          ⟨fun h => ⟨nodes, body, bindings, rfl, hread, h⟩, ?_⟩
      · exact List.forall_mem_map.mpr (recorded_of_readBindings
          (recorded_form_iff.mp (hknown _ harguments.1)) hread)
      · rintro ⟨_, _, bindings', ⟨⟩, hbindings, h⟩
        rw [hread] at hbindings
        cases hbindings
        exact h
  · next hform =>
    refine follows_end (fun ledger _ hstate => kept_failure _ hstate) ?_
    rintro v ⟨nodes, body, bindings, rfl, -⟩
    exact hform nodes body rfl

theorem kept_runImpl {ledger : Ledger} {state : RunState} (hstate : state.Recorded ledger)
    (arguments : List Node) : Kept ledger itself (runImpl arguments state) := by
  have hdeclare : ∀ type trait, ∃ after, declareTrait type trait state = .ok () after ∧
      after.Recorded ledger := by
    intro type trait
    unfold declareTrait
    rw [scope_bind_apply]
    split
    · exact ⟨state, rfl, hstate⟩
    · exact ⟨_, rfl, (hstate.inScope (hstate.scope.implement type trait)).reporting _⟩
  unfold runImpl
  split
  · next trait word type =>
    split
    · match trait.traitTag?, type.typeTag? with
      | some t, some k =>
        obtain ⟨after, hrun, hafter⟩ := hdeclare k t
        show Kept ledger itself ((declareTrait k t >>= fun _ => pure (.truth true)) state)
        rw [bind_of_ok hrun]
        exact kept_ok hafter (recordedAll_itself (recorded_plain .boolean (.plain rfl)))
      | none, _ => exact kept_failure _ hstate
      | some _, none => exact kept_failure _ hstate
    · exact kept_failure _ hstate
  · exact kept_failure _ hstate

/-- **What a `lambda` form does:** it refuses its arguments, or it makes a closure over the current
scope, which gets the next number. -/
theorem runLambda_cases (arguments : List Node) (state : RunState) :
    (∃ failure : Failure, runLambda arguments state = .ok failure.toNode state) ∨
    (∃ error, runLambda arguments state = .error error state) ∨
    ∃ code : FunctionCode, code.body ∈ arguments ∧ runLambda arguments state =
      .ok (.closure ⟨code.params, code.returns, code.body, state.scope, false, state.nextOrigin⟩)
        { state with nextOrigin := state.nextOrigin + 1 } := by
  unfold runLambda
  split
  · next params returns type body =>
    match readSignature params returns type with
    | .error failure => exact Or.inl ⟨failure, rfl⟩
    | .ok (names, result) =>
      cases hself : body.isSymbol selfName with
      | true => exact Or.inr (Or.inl ⟨_, by simp only [↓reduceIte]; rfl⟩)
      | false => exact Or.inr (Or.inr ⟨⟨names, result, body⟩, by simp, rfl⟩)
  · exact Or.inl ⟨_, rfl⟩

/-- **The visits of a core form** that is no `lambda`. -/
theorem follows_runCore {form : CoreForm} (hform : form ≠ .lambda) (harguments : arguments ⊆ known)
    (start : RunState) : Follows ev known itself start (runCore (ev false) form arguments start)
      fun v => CoreVisit (ev false) arguments start v form := by
  cases form with
  | entity => exact follows_runEntity harguments start
  | list => exact follows_runList harguments start
  | numeric op => exact follows_runNumeric op harguments start
  | eq => exact follows_runEq harguments start
  | letIn => exact follows_runLet harguments start
  | impl => exact follows_of_kept fun ledger _ hstate => kept_runImpl hstate arguments
  | lambda => exact absurd rfl hform

/-! ### Applications -/

/-- The visit of a call whose arguments are bound is the body. -/
theorem follows_runCall {c : Closure Node} (hbody : c.body ∈ known) {scope : Scope Node}
    {state : RunState} (hscope : ∀ ledger, RecordedAll ledger known → state.Recorded ledger →
      scope.Recorded ledger) :
    Follows ev known itself state (runCall (ev true) c scope state) fun v =>
      v = ⟨true, c.body, state.inScope (bodyScope c scope)⟩ := by
  unfold runCall bodyScope
  split
  · exact (follows_visit true hbody).within hscope
  · refine follows_bind_of_kept ((follows_visit true hbody).within fun ledger hknown hstate =>
      (hscope ledger hknown hstate).unbindOrigin c.origin)
        fun value last _ ledger _ hvalue hlast => kept_ok hlast (recordedAll_itself ?_)
    have hrecorded : value.Recorded ledger := hvalue value List.mem_cons_self
    exact hrecorded.checkResult c.returns

/-- The visits of an application behind its arguments: the body, if they could be bound. -/
def BodyVisit (c : Closure Node) (scope : Scope Node)
    (result : Except Failure (List (String × Node))) (state : RunState) (v : Visit) : Prop :=
  ∃ bindings, result = .ok bindings ∧
    v = ⟨true, c.body, state.inScope (bodyScope c (scope.defineAll bindings))⟩

/-- What an application calls is an argument, or the body. -/
theorem callsInside_iff {argEval : Node → Run Node} {c : Closure Node} {start : RunState}
    {v : Visit} : (v.inside = true ∧ CallsInside argEval c arguments start v.node v.state) ↔
      ArgumentVisit argEval c.params arguments
        (start.inScope (c.scope.mergedWith start.scope)) v ∨
      ∃ result between, within (c.scope.mergedWith start.scope)
          (evalArguments argEval c.params arguments) start = .ok result between ∧
        BodyVisit c (c.scope.mergedWith start.scope) result between v := by
  constructor
  · obtain ⟨inside, child, reached⟩ := v
    rintro ⟨rfl, hcalls⟩
    cases hcalls with
    | argument params split aligned bound =>
      exact Or.inl ⟨_, _, _, _, child, _, params, split, aligned, _, reached, bound, rfl⟩
    | body bound => exact Or.inr ⟨_, _, within_eq_ok_iff.mpr ⟨_, bound, rfl⟩, _, rfl, rfl⟩
  · rintro (⟨earlier, ⟨name, type⟩, later, before, argument, rest, hparams, hsplit, haligned,
      bindings, reached, hbound, rfl⟩ | ⟨result, between, hrun, bindings, rfl, rfl⟩)
    · exact ⟨rfl, .argument hparams hsplit haligned hbound⟩
    · obtain ⟨reached, hbound, rfl⟩ := within_eq_ok_iff.mp hrun
      have hbody : CallsInside argEval c arguments start c.body (reached.inScope
          (bodyScope c ((c.scope.mergedWith start.scope).defineAll bindings))) := .body hbound
      exact ⟨rfl, hbody⟩

/-- **The step behind the arguments of an application** makes the visit of the body. -/
theorem follows_boundCall {c : Closure Node} (hc : .closure c ∈ known) {caller : Scope Node}
    (result : Except Failure (List (String × Node))) {state : RunState}
    (hcaller : state.scope = caller) :
    Follows ev (known ++ resultParts (fun bindings => bindings.map (·.2)) result) itself state
      ((match result with
        | .error failure => pure failure.toNode
        | .ok bindings => runCall (ev true) c
            ((c.scope.mergedWith caller).defineAll bindings) : Run Node) state)
      (BodyVisit c (c.scope.mergedWith caller) result state) := by
  have hrecorded : ∀ ledger, RecordedAll ledger known → c.body.Recorded ledger ∧
      ∀ binding ∈ c.scope.bindings, binding.2.Recorded ledger :=
    fun ledger hknown => (recorded_closure_iff.mp (hknown _ hc)).2
  match result with
  | .error failure =>
    refine follows_end (fun ledger _ hstate => kept_failure failure hstate) ?_
    rintro v ⟨bindings, ⟨⟩, -⟩
  | .ok bindings =>
    have hscope : ∀ ledger, RecordedAll ledger (c.body :: known ++ bindings.map (·.2)) →
        state.Recorded ledger →
          ((c.scope.mergedWith caller).defineAll bindings).Recorded ledger := by
      intro ledger hknown hstate
      simp only [RecordedAll, List.forall_mem_append, List.forall_mem_cons] at hknown
      exact ((hcaller ▸ hstate.scope).mergedWith (hrecorded ledger hknown.1.2).2).defineAll
        (List.forall_mem_map.mp hknown.2)
    refine ((follows_runCall (by simp) hscope).of_recorded
      fun ledger hknown hstate => ⟨?_, hstate⟩).congr fun v => ⟨fun h => ⟨bindings, rfl, h⟩, ?_⟩
    · rw [RecordedAll, List.forall_mem_append] at hknown
      refine List.forall_mem_append.mpr ⟨List.forall_mem_cons.mpr ⟨?_, hknown.1⟩, hknown.2⟩
      exact (hrecorded ledger hknown.1).1
    · rintro ⟨_, ⟨⟩, h⟩
      exact h

/-- **The visits of an application:** its arguments, and then the body. -/
theorem follows_callClosure {c : Closure Node} (hc : .closure c ∈ known)
    (harguments : arguments ⊆ known) (start : RunState) :
    Follows ev known itself start (callClosure (ev true) c arguments start) fun v =>
      arguments.length = c.arity ∧ v.inside = true ∧
        CallsInside (ev true) c arguments start v.node v.state := by
  unfold callClosure
  split
  · next hcount =>
    have hfirst : Follows ev known _ start (within (c.scope.mergedWith start.scope)
        (evalArguments (ev true) c.params arguments) start) _ :=
      (follows_evalArguments harguments _).within fun ledger hknown hstate =>
        hstate.scope.mergedWith (recorded_closure_iff.mp (hknown _ hc)).2.2
    rw [scope_bind_apply]
    refine (follows_bind hfirst fun result between hrun => follows_boundCall hc result ?_).congr
      fun v => callsInside_iff.symm.trans ⟨fun h => ⟨hcount, h⟩, And.right⟩
    -- the scope of the caller has been put back
    obtain ⟨reached, -, rfl⟩ := within_eq_ok_iff.mp hrun
    rfl
  · next hcount =>
    refine follows_end (fun ledger _ hstate => kept_failure _ hstate) ?_
    exact fun v h => hcount h.1

/-! ### Forms in general -/

/-- The visits of a form while it is freed of sugar are the attributes of a noun in a role. -/
theorem follows_desugar {head : Node} (hhead : head ∈ known) (harguments : arguments ⊆ known)
    (state : RunState) :
    Follows ev known (resultParts fun freed => freed.1 :: freed.2) state
      (desugar (ev false) head arguments state) fun v =>
        ∃ role value pairs, head = .symbol (Role.head role) ∧ arguments = value :: pairs ∧
          unpairedKey? pairs = none ∧ ValueVisit (ev false) pairs state v := by
  have hnone : ∀ {tag? : Option Sugar}, head.sugar? = tag? → (∀ role, tag? ≠ some (.role role)) →
      ∀ (v : Visit) (C : Role → Node → List Node → Prop),
        ¬∃ role value pairs, head = .symbol (Role.head role) ∧ C role value pairs := by
    rintro tag? hsugar hrole v C ⟨role, value, pairs, hhead, -⟩
    exact hrole role (hsugar.symm.trans (sugar?_eq_role_iff.mpr hhead))
  unfold desugar
  cases hsugar : head.sugar? with
  | none =>
    refine follows_end (fun ledger hknown hstate => kept_ok hstate ?_)
      fun v => hnone hsugar (fun _ => by simp) v _
    exact List.forall_mem_cons.mpr ⟨hknown head hhead, fun a ha => hknown a (harguments ha)⟩
  | some sugar =>
    cases sugar with
    | type tag =>
      refine follows_end (fun ledger hknown hstate => kept_ok hstate ?_)
        fun v => hnone hsugar (fun _ => by simp) v _
      refine List.forall_mem_cons.mpr ⟨.symbol _, recorded_foldAttributes ?_⟩
      exact List.forall_mem_cons.mpr ⟨hknown head hhead, fun a ha => hknown a (harguments ha)⟩
    | role role =>
      have hrole := sugar?_eq_role_iff.mp hsugar
      cases arguments with
      | nil =>
        refine follows_end (fun ledger _ hstate => kept_ok hstate recordedAll_nil) ?_
        rintro v ⟨role', value, pairs, -, ⟨⟩, -⟩
      | cons value pairs =>
        rw [List.cons_subset] at harguments
        cases hpaired : unpairedKey? pairs with
        | some key =>
          simp only [hpaired]
          refine follows_end (fun ledger _ hstate => kept_ok hstate recordedAll_nil) ?_
          rintro v ⟨role', value', pairs', -, ⟨⟩, hnone, -⟩
          rw [hpaired] at hnone
          cases hnone
        | none =>
          simp only [hpaired]
          refine (follows_bind_of_kept (follows_evalValues harguments.2 state)
            fun attrs between _ ledger hknown hattrs hbetween => kept_ok hbetween ?_).congr
              fun v => ⟨fun h => ⟨role, value, pairs, hrole, rfl, hpaired, h⟩, ?_⟩
          · exact List.forall_mem_cons.mpr ⟨.symbol _,
              recorded_roleArguments role (hknown value harguments.1) hattrs⟩
          · rintro ⟨role', value', pairs', -, ⟨⟩, -, h⟩
            exact h

/-- The visit of a head that names no core form is the head, if it is a form. -/
theorem follows_headValue {head : Node} (hhead : head ∈ known) (state : RunState) :
    Follows ev known itself state (headValue (ev false) head state) fun v =>
      ∃ items, head = .form items ∧ v = ⟨false, .form items, state⟩ := by
  unfold headValue
  split
  · next name =>
    refine follows_end (fun ledger _ hstate => ?_) ?_
    · exact kept_lookup name hstate
    · rintro v ⟨items, ⟨⟩, -⟩
  · next items =>
    refine (follows_visit false hhead).congr fun v => ⟨fun h => ⟨items, rfl, h⟩, ?_⟩
    rintro ⟨_, ⟨⟩, h⟩
    exact h
  · next hform =>
    refine follows_end (fun ledger hknown hstate =>
      kept_ok hstate (recordedAll_itself (hknown _ hhead))) ?_
    rintro v ⟨items, rfl, -⟩
    exact hform items rfl

theorem follows_applyHead (head : Node) {value : Node} (hvalue : value ∈ known)
    (harguments : arguments ⊆ known) (state : RunState) :
    Follows ev known itself state (applyHead (ev true) head value arguments state) fun v =>
      ∃ c, value = .closure c ∧ arguments.length = c.arity ∧ v.inside = true ∧
        CallsInside (ev true) c arguments
          (state.reporting (.applied c.signature arguments.length)) v.node v.state := by
  unfold applyHead
  split
  · next c =>
    refine Follows.congr (Follows.of_recorded ((follows_callClosure hvalue harguments
      (state.reporting (.applied c.signature arguments.length))).contain
        fun error between ledger hbetween => ?_)
          fun ledger hknown hstate => ⟨hknown, hstate.reporting _⟩) fun v =>
            ⟨fun h => ⟨c, rfl, h⟩, ?_⟩
    · exact kept_failure _ (hbetween.reporting _)
    · rintro ⟨_, ⟨⟩, h⟩
      exact h
  · next e =>
    refine follows_end (fun ledger hknown hstate => ?_) ?_
    · split
      · exact kept_ok hstate (recordedAll_itself (hknown _ hvalue))
      · exact kept_error hstate
    · rintro v ⟨c, ⟨⟩, -⟩
  · next hclosure _ =>
    refine follows_end (fun ledger _ hstate => kept_error hstate) ?_
    rintro v ⟨c, rfl, -⟩
    exact hclosure c rfl

end Forms

/-! ### One step of evaluation -/

section Steps

variable {eval argEval : Node → Run Node} {node head : Node} {arguments : List Node}
  {state freed : RunState} {v : Visit}

/-- **The visits of a form that is free of sugar.** -/
inductive FormVisit (eval argEval : Node → Run Node) (head : Node) (arguments : List Node)
    (freed : RunState) (v : Visit) : Prop where
  | core (form : CoreForm) (isCore : head = .symbol form.name)
      (visit : CoreVisit eval arguments (freed.reporting (.coreForm form.name)) v form)
  | head (items : List Node) (isForm : head = .form items) (visit : v = ⟨false, head, freed⟩)
  | inside (c : Closure Node) (found : RunState)
      (plain : ∀ form : CoreForm, head ≠ .symbol form.name)
      (value : headValue eval head freed = .ok (.closure c) found)
      (count : arguments.length = c.arity) (isInside : v.inside = true)
      (visit : CallsInside argEval c arguments
        (found.reporting (.applied c.signature arguments.length)) v.node v.state)

/-- The visits of a form while it is freed of sugar. -/
def RoleVisit (eval : Node → Run Node) (node : Node) (state : RunState) (v : Visit) : Prop :=
  ∃ (role : Role) (value : Node) (pairs : List Node),
    node = .form (.symbol role.head :: value :: pairs) ∧ unpairedKey? pairs = none ∧
      ValueVisit eval pairs state v

/-- The visits of a core form are calls of the form. -/
theorem CoreVisit.calls {form : CoreForm} {start : RunState}
    (hstarts : StartsCore eval node state form arguments start)
    (h : CoreVisit eval arguments start v form) :
    Calls eval argEval node state v.inside v.node v.state := by
  cases form with
  | entity =>
    rcases h with ⟨kind, value, attrs, rfl, hshort, hevaluated, rfl⟩ | ⟨kind, value, pairs, payload,
      between, e, rfl, hpayload, hmade, husable, hpaired, before, key, item, rest, rfl, heven,
      attrs, reached, hbefore, hadjective, rfl⟩
    · exact .payload hstarts hshort hevaluated
    · exact .adjective hstarts hpayload hmade husable hpaired heven hbefore hadjective
  | list =>
    obtain ⟨before, argument, rest, rfl, es, reached, hbefore, rfl⟩ := h
    exact .element hstarts hbefore
  | numeric op =>
    obtain ⟨before, argument, rest, rfl, es, reached, hbefore, rfl⟩ := h
    exact .operand hstarts hbefore
  | eq =>
    obtain ⟨left, right, rfl, rfl | ⟨value, reached, hleft, rfl⟩⟩ := h
    · exact .left hstarts
    · exact .right hstarts hleft
  | letIn =>
    obtain ⟨nodes, body, bindings, rfl, hread, ⟨before, ⟨name, value⟩, rest, rfl, reached, hbefore,
      rfl⟩ | ⟨before, item, rest, rfl, value, reached, hbefore, rfl⟩⟩ := h
    · exact .binding hstarts hread hbefore
    · exact .sequel hstarts hread hbefore
  | impl => exact h.elim
  | lambda => exact h.elim

/-- The visits of a core form that has started are visits of a form that is freed of sugar. -/
theorem StartsCore.formVisit {form : CoreForm} {start : RunState}
    (starts : StartsCore eval node state form arguments start)
    (visit : CoreVisit eval arguments start v form) : ∃ head arguments freed,
      Freed eval node state head arguments freed ∧
        FormVisit eval argEval head arguments freed v := by
  obtain ⟨freed, hfreed, rfl⟩ := starts
  exact ⟨_, arguments, freed, hfreed, .core form rfl visit⟩

/-- Each call is a visit of the stage that it belongs to. -/
theorem Calls.visit (h : Calls eval argEval node state v.inside v.node v.state) :
    RoleVisit eval node state v ∨ ∃ head arguments freed,
      Freed eval node state head arguments freed ∧
        FormVisit eval argEval head arguments freed v := by
  obtain ⟨inside, child, reached⟩ := v
  cases h with
  | roleValue written paired even earlier =>
    exact Or.inl ⟨_, _, _, written, paired, _, _, _, _, rfl, even, _, _, earlier, rfl⟩
  | payload starts short evaluated =>
    exact Or.inr (starts.formVisit (Or.inl ⟨_, _, _, rfl, short, evaluated, rfl⟩))
  | adjective starts hasPayload made usable paired even earlier isAdjective =>
    exact Or.inr (starts.formVisit (Or.inr ⟨_, _, _, _, _, _, rfl, hasPayload, made, usable, paired,
      _, _, _, _, rfl, even, _, _, earlier, isAdjective, rfl⟩))
  | element starts earlier =>
    exact Or.inr (starts.formVisit ⟨_, _, _, rfl, _, _, earlier, rfl⟩)
  | operand starts earlier =>
    exact Or.inr (starts.formVisit ⟨_, _, _, rfl, _, _, earlier, rfl⟩)
  | left starts => exact Or.inr (starts.formVisit ⟨_, _, rfl, Or.inl rfl⟩)
  | right starts earlier =>
    exact Or.inr (starts.formVisit ⟨_, _, rfl, Or.inr ⟨_, _, earlier, rfl⟩⟩)
  | binding starts read earlier =>
    exact Or.inr (starts.formVisit ⟨_, _, _, rfl, read,
      Or.inl ⟨_, _, _, rfl, _, earlier, rfl⟩⟩)
  | sequel starts read earlier =>
    exact Or.inr (starts.formVisit ⟨_, _, _, rfl, read,
      Or.inr ⟨_, _, _, rfl, _, _, earlier, rfl⟩⟩)
  | head freed => exact Or.inr ⟨_, _, _, freed, .head _ rfl rfl⟩
  | inside starts calls =>
    obtain ⟨head, freed, found, hfreed, hplain, hvalue, hcount, rfl⟩ := starts
    exact Or.inr ⟨head, _, freed, hfreed, .inside _ found hplain hvalue hcount rfl calls⟩

/-- **The calls of a step of evaluation,** by the stages of the form. -/
theorem calls_iff : Calls eval argEval node state v.inside v.node v.state ↔
    RoleVisit eval node state v ∨ ∃ head arguments freed,
      Freed eval node state head arguments freed ∧
        FormVisit eval argEval head arguments freed v := by
  refine ⟨Calls.visit, ?_⟩
  rintro (⟨role, value, pairs, hnode, hpaired, before, key, item, rest, rfl, heven, keyed,
    reached, hbefore, rfl⟩ | ⟨head, arguments, freed, hfreed, hvisit⟩)
  · exact .roleValue hnode hpaired heven hbefore
  · cases hvisit with
    | core form isCore visit =>
      subst isCore
      exact visit.calls ⟨freed, hfreed, rfl⟩
    | head items isForm visit =>
      subst isForm visit
      exact .head hfreed
    | inside c found plain value count isInside visit =>
      rw [isInside]
      exact .inside ⟨head, freed, found, hfreed, plain, value, count, rfl⟩ visit

/-- A node that is no form with a head calls nothing. -/
theorem not_calls (hnode : ∀ head arguments, node ≠ .form (head :: arguments)) :
    ¬Calls eval argEval node state v.inside v.node v.state := by
  rw [calls_iff]
  rintro (⟨role, value, pairs, rfl, -⟩ | ⟨head, arguments, freed, ⟨written, rest, rfl, -⟩, -⟩)
  · exact hnode _ _ rfl
  · exact hnode _ _ rfl

/-- Only what becomes an `entity` form is something else than what is written. -/
theorem Freed.of_ne_entity (hhead : head ≠ .symbol CoreForm.entity.name)
    (h : Freed eval node state head arguments freed) :
    node = .form (head :: arguments) ∧ freed = state := by
  obtain ⟨written, rest, rfl, hfreed⟩ := h
  cases hsugar : written.sugar? with
  | none =>
    rw [desugar_of_sugar?_eq_none hsugar] at hfreed
    cases hfreed
    exact ⟨rfl, rfl⟩
  | some sugar =>
    -- what comes of sugar is an `entity` form
    have hentity : ∀ {outcome}, desugar eval written rest state = outcome →
        ∀ head arguments freed, outcome = .ok (.ok (head, arguments)) freed →
          head = .symbol CoreForm.entity.name := by
      rintro outcome rfl head arguments freed h
      simp only [desugar, hsugar] at h
      cases sugar with
      | type tag =>
        cases h
        rfl
      | role role =>
        cases rest with
        | nil => cases h
        | cons value pairs =>
          cases hpaired : unpairedKey? pairs with
          | some key =>
            simp only [hpaired] at h
            cases h
          | none =>
            simp only [hpaired] at h
            obtain ⟨attrs, between, -, h⟩ := bind_eq_ok_iff.mp h
            cases h
            rfl
    exact absurd (hentity rfl _ _ _ hfreed) hhead

/-- A `lambda` form calls nothing. -/
theorem not_calls_lambda :
    ¬Calls eval argEval (.form (.symbol CoreForm.lambda.name :: arguments)) state v.inside v.node
      v.state := by
  rw [calls_iff]
  rintro (⟨role, value, pairs, hnode, -⟩ | ⟨head, rest, freed, ⟨written, others, hnode, hfreed⟩,
    hvisit⟩)
  · cases role <;> injection hnode with h <;> injection h with h _ <;> injection h with h <;>
      exact absurd h (by decide)
  · cases hnode
    rw [desugar_of_sugar?_eq_none (Node.sugar?_core .lambda)] at hfreed
    cases hfreed
    cases hvisit with
    | core form isCore visit =>
      have hsame := CoreForm.ofName?_name form
      rw [← Node.symbol.inj isCore, CoreForm.ofName?_name] at hsame
      cases hsame
      exact visit
    | head items isForm visit => cases isForm
    | inside c found plain => exact plain .lambda rfl

theorem follows_runForm {ev : Bool → Node → Run Node} {known : List Node} (hhead : head ∈ known)
    (harguments : arguments ⊆ known) (hlambda : head ≠ .symbol CoreForm.lambda.name)
    (freed : RunState) :
    Follows ev known itself freed (runForm (ev false) (ev true) head arguments freed)
      fun v => FormVisit (ev false) (ev true) head arguments freed v := by
  by_cases hcore : ∃ form : CoreForm, head = .symbol form.name
  · obtain ⟨form, rfl⟩ := hcore
    have hform : form ≠ .lambda := by
      rintro rfl
      exact hlambda rfl
    rw [runForm_core, bind_of_ok (report_apply _ _)]
    refine ((follows_runCore hform harguments _).of_recorded fun ledger hknown hfreed =>
      ⟨hknown, hfreed.reporting _⟩).congr fun v => ⟨.core form rfl, fun hvisit => ?_⟩
    cases hvisit with
    | core other isCore visit =>
      have hsame := CoreForm.ofName?_name other
      rw [← Node.symbol.inj isCore, CoreForm.ofName?_name] at hsame
      cases hsame
      exact visit
    | head items isForm visit => cases isForm
    | inside c found plain => exact absurd rfl (plain form)
  · have hplain : ∀ form : CoreForm, head ≠ .symbol form.name :=
      fun form heq => hcore ⟨form, heq⟩
    rw [runForm_of_not_core hplain]
    refine (follows_bind (follows_headValue hhead freed) fun value found _ =>
      follows_applyHead head (by simp) (List.subset_append_of_subset_left _ harguments)
        found).congr fun v => ⟨?_, fun hvisit => ?_⟩
    · rintro (⟨items, rfl, hvisit⟩ | ⟨value, found, hvalue, c, rfl, hcount, hinside, hvisit⟩)
      · exact .head items rfl hvisit
      · exact .inside c found hplain hvalue hcount hinside hvisit
    · cases hvisit with
      | core form isCore visit => exact absurd isCore (hplain form)
      | head items isForm visit =>
        subst isForm
        exact Or.inl ⟨items, rfl, visit⟩
      | inside c found plain value count isInside visit =>
        exact Or.inr ⟨_, found, value, c, rfl, count, isInside, visit⟩

/-- The visits behind freeing a form of sugar: those of the freed form, where there is one. -/
def FreedVisit (eval argEval : Node → Run Node) (result : Except Failure (Node × List Node))
    (freed : RunState) (v : Visit) : Prop :=
  ∃ head arguments, result = .ok (head, arguments) ∧ FormVisit eval argEval head arguments freed v

/-- What a form calls, it calls while it is freed of sugar or afterwards. -/
theorem calls_form_iff {written : Node} {rest : List Node} :
    Calls eval argEval (.form (written :: rest)) state v.inside v.node v.state ↔
      (∃ role value pairs, written = .symbol (Role.head role) ∧ rest = value :: pairs ∧
        unpairedKey? pairs = none ∧ ValueVisit eval pairs state v) ∨
      ∃ result freed, desugar eval written rest state = .ok result freed ∧
        FreedVisit eval argEval result freed v := by
  rw [calls_iff]
  refine or_congr ⟨?_, ?_⟩ ⟨?_, ?_⟩
  · rintro ⟨role, value, pairs, hform, h⟩
    cases hform
    exact ⟨role, value, pairs, rfl, rfl, h⟩
  · rintro ⟨role, value, pairs, rfl, rfl, h⟩
    exact ⟨role, value, pairs, rfl, h⟩
  · rintro ⟨head, arguments, freed, ⟨_, _, hform, hresult⟩, h⟩
    cases hform
    exact ⟨_, freed, hresult, head, arguments, rfl, h⟩
  · rintro ⟨result, freed, hresult, head, arguments, rfl, h⟩
    exact ⟨head, arguments, freed, ⟨written, rest, rfl, hresult⟩, h⟩

/-- **The step for a freed form** makes the visits of that form. -/
theorem follows_freed {ev : Bool → Node → Run Node} {known : List Node}
    (result : Except Failure (Node × List Node)) (freed : RunState) :
    (∀ arguments, result ≠ .ok (.symbol CoreForm.lambda.name, arguments)) →
      Follows ev (known ++ resultParts (fun form => form.1 :: form.2) result) itself freed
        ((match result with
          | .error failure => pure failure.toNode
          | .ok (head, arguments) => runForm (ev false) (ev true) head arguments : Run Node) freed)
        (FreedVisit (ev false) (ev true) result freed) := by
  intro hlambda
  match result with
  | .error failure =>
    refine follows_end (fun ledger _ hfreed => kept_failure failure hfreed) ?_
    rintro v ⟨head, arguments, ⟨⟩, -⟩
  | .ok (head, arguments) =>
    have hhead : head ≠ .symbol CoreForm.lambda.name := by
      rintro rfl
      exact hlambda arguments rfl
    refine (follows_runForm (by simp [resultParts]) ?_ hhead freed).congr fun v =>
      ⟨fun h => ⟨head, arguments, rfl, h⟩, ?_⟩
    · exact List.subset_append_of_subset_right _ (List.subset_cons_self head arguments)
    · rintro ⟨_, _, ⟨⟩, h⟩
      exact h

/-- **The visits of a step of evaluation are its calls,** in order. -/
theorem follows_evalNode {ev : Bool → Node → Run Node} {known : List Node} (hnode : node ∈ known)
    (hlambda : ∀ arguments, node ≠ .form (.symbol CoreForm.lambda.name :: arguments))
    (state : RunState) :
    Follows ev known itself state (evalNode (ev false) (ev true) node state) fun v =>
      Calls (ev false) (ev true) node state v.inside v.node v.state := by
  cases node with
  | form items =>
    cases items with
    | nil =>
      refine follows_end (fun ledger _ hstate => kept_error hstate) fun v => not_calls ?_
      rintro head arguments ⟨⟩
    | cons written rest =>
      -- the head and the arguments are no known nodes themselves, but parts of one
      have hsugar : Follows ev (known ++ written :: rest) _ state
          (desugar (ev false) written rest state) _ := follows_desugar (by simp)
        (List.subset_append_of_subset_right _ (List.subset_cons_self _ _)) state
      have hfreed : ∀ result freed, desugar (ev false) written rest state = .ok result freed →
          ∀ arguments, result ≠ .ok (.symbol CoreForm.lambda.name, arguments) := by
        rintro result freed hresult arguments rfl
        have hentity : Node.symbol CoreForm.lambda.name ≠ .symbol CoreForm.entity.name :=
          fun heq => absurd (Node.symbol.inj heq) (by decide)
        exact hlambda arguments (Freed.of_ne_entity hentity ⟨written, rest, rfl, hresult⟩).1
      rw [evalNode_form]
      refine ((follows_bind hsugar fun result freed hresult =>
        follows_freed result freed (hfreed result freed hresult)).of_recorded
          fun ledger hknown hstate => ⟨?_, hstate⟩).congr fun v => calls_form_iff.symm
      exact List.forall_mem_append.mpr ⟨hknown, recorded_form_iff.mp (hknown _ hnode)⟩
  | symbol name =>
    refine follows_end (fun ledger _ hstate => kept_lookup name hstate) fun v => not_calls ?_
    rintro head arguments ⟨⟩
  | _ =>
    refine follows_end (fun ledger hknown hstate =>
      kept_ok hstate (recordedAll_itself (hknown _ hnode))) fun v => not_calls ?_
    rintro head arguments ⟨⟩

end Steps

end EntityLisp
