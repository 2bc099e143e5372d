import EntityLisp.Proofs.EscapeForms
import EntityLisp.Proofs.RecordedParts

/-!
# The visits of an action

An action of a run evaluates one node after the other. `Follows` lists these evaluations, its
visits, in the order in which they are made, and follows the ledger through them: each visit is of
a recorded node in a recorded state, its outcome is kept by the ledger that it has grown, and what
stands between two visits enters nothing. So everything that two visits see or give is recorded in
one ledger, that of the end.

There is one rule for each way to build actions, and a lemma for each loop over nodes, by induction
over what the first step of the loop visits (`operandVisit_cons_iff` and the like).

* `Trail.append`: where one trail ends, another one may go on.
* `follows_visit`, `follows_bind`, `Follows.within`, `Follows.contain`: the rules.
* `follows_evalOperands`, `follows_evalValues`, `follows_enterAttributes`, `follows_bindInOrder`,
  `follows_evalSequence`, `follows_evalArguments`: the loops.
-/

namespace EntityLisp

open Node Run

/-! ### Outcomes that a ledger keeps -/

/-- **An outcome is kept by a ledger:** it records the state, and the parts of the value. -/
structure Kept (ledger : Ledger) {α : Type} (parts : α → List Node)
    (outcome : EStateM.Result EvalError RunState α) : Prop where
  state : (finalState outcome).Recorded ledger
  value : ∀ value after, outcome = .ok value after → RecordedAll ledger (parts value)

section Kept

variable {ledger : Ledger} {α : Type} {parts : α → List Node} {state after : RunState}

theorem kept_ok {value : α} (hafter : after.Recorded ledger)
    (hvalue : RecordedAll ledger (parts value)) :
    Kept ledger parts (.ok value after : EStateM.Result EvalError RunState α) := by
  refine ⟨hafter, ?_⟩
  rintro _ _ ⟨⟩
  exact hvalue

theorem kept_error {error : EvalError} (hafter : after.Recorded ledger) :
    Kept ledger parts (.error error after : EStateM.Result EvalError RunState α) := by
  refine ⟨hafter, ?_⟩
  rintro _ _ ⟨⟩

theorem Kept.of_ok {value : α} {outcome : EStateM.Result EvalError RunState α}
    (h : Kept ledger parts outcome) (houtcome : outcome = .ok value after) :
    after.Recorded ledger ∧ RecordedAll ledger (parts value) := by
  subst houtcome
  exact ⟨h.state, h.value value after rfl⟩

/-- The parts of a result, if it is one. -/
def resultParts (parts : α → List Node) : Except Failure α → List Node
  | .ok value => parts value
  | .error _ => []

/-- A node is its own part. -/
abbrev itself (node : Node) : List Node := [node]

/-- A value without parts. -/
abbrev noParts (_ : α) : List Node := []

theorem recordedAll_itself {node : Node} (h : node.Recorded ledger) :
    RecordedAll ledger (itself node) := List.forall_mem_singleton.mpr h

theorem kept_failure (failure : Failure) (hafter : after.Recorded ledger) :
    Kept ledger itself ((pure failure.toNode : Run Node) after) :=
  kept_ok hafter (recordedAll_itself failure.recorded_toNode)

theorem kept_ofResult {result : Except EvalError α} (hafter : after.Recorded ledger)
    (hvalue : ∀ value, result = .ok value → RecordedAll ledger (parts value)) :
    Kept ledger parts (ofResult result after) := by
  cases result with
  | ok value => exact kept_ok hafter (hvalue value rfl)
  | error error => exact kept_error hafter

theorem kept_lookup (name : String) (hstate : state.Recorded ledger) :
    Kept ledger itself (lookup name state) := by
  cases hlookup : state.scope.lookup? name with
  | some value =>
    rw [lookup_of_eq_some hlookup]
    exact kept_ok hstate (recordedAll_itself (hstate.scope.lookup? hlookup))
  | none =>
    rw [lookup_of_eq_none hlookup]
    exact kept_error hstate

end Kept

/-! ### Trails -/

/-- What a visit comes to, where there is one evaluator for what is inside an application and one
for the rest. -/
def Visit.outcome (ev : Bool → Node → Run Node) (v : Visit) :
    EStateM.Result EvalError RunState Node :=
  ev v.inside v.node v.state

/-- **A trail of visits to an outcome,** from a ledger on. Each visit may grow the ledger, as long
as it keeps its outcome, and nothing else does. -/
inductive Trail (ev : Bool → Node → Run Node) {α : Type} (parts : α → List Node)
    (outcome : EStateM.Result EvalError RunState α) : List Visit → Ledger → Prop where
  | nil {ledger : Ledger} (kept : Kept ledger parts outcome) : Trail ev parts outcome [] ledger
  | cons {v : Visit} {rest : List Visit} {ledger : Ledger} (node : v.node.Recorded ledger)
      (state : v.state.Recorded ledger)
      (next : ∀ later, ledger.Grows later → Kept later itself (v.outcome ev) →
        Trail ev parts outcome rest later) :
      Trail ev parts outcome (v :: rest) ledger

/-- Where one trail ends, another one may go on. -/
theorem Trail.append {ev : Bool → Node → Run Node} {α β : Type} {parts : α → List Node}
    {partsAfter : β → List Node} {outcome : EStateM.Result EvalError RunState α}
    {outcomeAfter : EStateM.Result EvalError RunState β} {visits others : List Visit}
    {ledger : Ledger} (h : Trail ev parts outcome visits ledger)
    (hothers : ∀ later, ledger.Grows later → Kept later parts outcome →
      Trail ev partsAfter outcomeAfter others later) :
    Trail ev partsAfter outcomeAfter (visits ++ others) ledger := by
  induction h with
  | nil kept => exact hothers _ (.refl _) kept
  | cons node state _ ih =>
    refine .cons node state fun later hgrows hkept => ih later hgrows hkept ?_
    exact fun last hlast => hothers last (hgrows.trans hlast)

/-! ### Actions that follow a trail -/

/-- **An outcome follows the visits with the property `C`,** from a state in which the known nodes
are recorded. -/
def Follows (ev : Bool → Node → Run Node) (known : List Node) {α : Type} (parts : α → List Node)
    (state : RunState) (outcome : EStateM.Result EvalError RunState α) (C : Visit → Prop) : Prop :=
  ∃ visits : List Visit, (∀ v, v ∈ visits ↔ C v) ∧ ∀ ledger, RecordedAll ledger known →
    state.Recorded ledger → Trail ev parts outcome visits ledger

section Rules

variable {ev : Bool → Node → Run Node} {known : List Node} {α β : Type} {parts : α → List Node}
  {partsAfter : β → List Node} {state between : RunState}
  {outcome : EStateM.Result EvalError RunState α} {C D : Visit → Prop}

theorem Follows.congr (h : Follows ev known parts state outcome C) (hiff : ∀ v, C v ↔ D v) :
    Follows ev known parts state outcome D := by
  obtain ⟨visits, hvisits, htrail⟩ := h
  exact ⟨visits, fun v => (hvisits v).trans (hiff v), htrail⟩

/-- An outcome without visits. -/
theorem follows_of_kept (h : ∀ ledger, RecordedAll ledger known → state.Recorded ledger →
    Kept ledger parts outcome) : Follows ev known parts state outcome fun _ => False :=
  ⟨[], fun _ => List.mem_nil_iff _, fun ledger hknown hstate => .nil (h ledger hknown hstate)⟩

/-- An outcome follows from an earlier state if nothing is entered in between. -/
theorem Follows.of_recorded {others : List Node} (h : Follows ev others parts between outcome C)
    (hrecorded : ∀ ledger, RecordedAll ledger known → state.Recorded ledger →
      RecordedAll ledger others ∧ between.Recorded ledger) :
    Follows ev known parts state outcome C := by
  obtain ⟨visits, hvisits, htrail⟩ := h
  refine ⟨visits, hvisits, fun ledger hknown hstate => ?_⟩
  obtain ⟨hothers, hbetween⟩ := hrecorded ledger hknown hstate
  exact htrail ledger hothers hbetween

/-- More nodes may be known. -/
theorem Follows.of_subset {others : List Node} (h : Follows ev others parts state outcome C)
    (hsubset : others ⊆ known) : Follows ev known parts state outcome C :=
  h.of_recorded fun _ hknown hstate => ⟨fun node hnode => hknown node (hsubset hnode), hstate⟩

/-- An outcome that is made of another one without visits. -/
theorem Follows.map {outcomeAfter : EStateM.Result EvalError RunState β}
    (h : Follows ev known parts state outcome C)
    (hkept : ∀ ledger, RecordedAll ledger known → state.Recorded ledger →
      ∀ later, ledger.Grows later → Kept later parts outcome →
        Kept later partsAfter outcomeAfter) :
    Follows ev known partsAfter state outcomeAfter C := by
  obtain ⟨visits, hvisits, htrail⟩ := h
  refine ⟨visits, hvisits, fun ledger hknown hstate => ?_⟩
  have hmapped : Trail ev partsAfter outcomeAfter (visits ++ []) ledger :=
    (htrail ledger hknown hstate).append fun later hgrows hlater =>
      .nil (hkept ledger hknown hstate later hgrows hlater)
  rwa [List.append_nil] at hmapped

/-- **An evaluation is its own visit.** -/
theorem follows_visit (inside : Bool) {node : Node} (hnode : node ∈ known) :
    Follows ev known itself state (ev inside node state) fun v => v = ⟨inside, node, state⟩ :=
  ⟨[⟨inside, node, state⟩], fun _ => List.mem_singleton, fun _ hknown hstate =>
    .cons (hknown node hnode) hstate fun _ _ hkept => .nil hkept⟩

/-- **What comes behind an action** knows its value, and makes its visits afterwards. -/
theorem follows_bind {action : Run α} {next : α → Run β} {S : α → RunState → Visit → Prop}
    (haction : Follows ev known parts state (action state) C)
    (hnext : ∀ value between, action state = .ok value between →
      Follows ev (known ++ parts value) partsAfter between (next value between)
        (S value between)) :
    Follows ev known partsAfter state ((action >>= next) state) fun v =>
      C v ∨ ∃ value between, action state = .ok value between ∧ S value between v := by
  obtain ⟨visits, hvisits, htrail⟩ := haction
  cases hrun : action state with
  | ok value between =>
    obtain ⟨others, hothers, hrest⟩ := hnext value between hrun
    refine ⟨visits ++ others, fun v => ?_, fun ledger hknown hstate => ?_⟩
    · rw [List.mem_append, hvisits, hothers]
      refine or_congr Iff.rfl ⟨fun h => ⟨value, between, rfl, h⟩, ?_⟩
      rintro ⟨_, _, ⟨⟩, h⟩
      exact h
    · rw [bind_of_ok hrun]
      refine (htrail ledger hknown hstate).append fun later hgrows hkept => ?_
      obtain ⟨hbetween, hvalue⟩ := hkept.of_ok hrun
      exact hrest later (List.forall_mem_append.mpr ⟨RecordedAll.mono hgrows hknown, hvalue⟩)
        hbetween
  | error error between =>
    refine ⟨visits, fun v => ?_, fun ledger hknown hstate => ?_⟩
    · refine (hvisits v).trans ⟨Or.inl, ?_⟩
      rintro (h | ⟨_, _, ⟨⟩, -⟩)
      exact h
    · rw [bind_of_error hrun]
      have hstopped : Trail ev partsAfter (.error error between) (visits ++ []) ledger :=
        (htrail ledger hknown hstate).append fun later _ hkept => .nil (kept_error ?_)
      · rwa [List.append_nil] at hstopped
      · have hbetween := hkept.state
        rwa [hrun] at hbetween

/-- An action that goes on without visits. -/
theorem follows_bind_of_kept {action : Run α} {next : α → Run β}
    (haction : Follows ev known parts state (action state) C)
    (hnext : ∀ value between, action state = .ok value between → ∀ ledger,
      RecordedAll ledger known → RecordedAll ledger (parts value) → between.Recorded ledger →
        Kept ledger partsAfter (next value between)) :
    Follows ev known partsAfter state ((action >>= next) state) C := by
  refine (follows_bind haction fun value between hrun => follows_of_kept
    fun ledger hknown hbetween => ?_).congr fun v => ?_
  · rw [RecordedAll, List.forall_mem_append] at hknown
    exact hnext value between hrun ledger hknown.1 hknown.2 hbetween
  · simp

/-- An action in another scope, which is recorded where the known nodes and the state are. -/
theorem Follows.within {inner : Scope Node} {action : Run α}
    (h : Follows ev known parts (state.inScope inner) (action (state.inScope inner)) C)
    (hinner : ∀ ledger, RecordedAll ledger known → state.Recorded ledger →
      inner.Recorded ledger) :
    Follows ev known parts state (within inner action state) C := by
  have hstart : Follows ev known parts state (action (state.inScope inner)) C :=
    h.of_recorded fun ledger hknown hstate =>
      ⟨hknown, hstate.inScope (hinner ledger hknown hstate)⟩
  refine hstart.map fun ledger _ hstate later hgrows hkept => ?_
  rw [within_apply]
  cases hrun : action (state.inScope inner) with
  | ok value after =>
    obtain ⟨hafter, hvalue⟩ := hkept.of_ok hrun
    exact kept_ok (hafter.inScope (hstate.scope.mono hgrows)) hvalue
  | error error after =>
    have hafter := hkept.state
    rw [hrun] at hafter
    exact kept_error (hafter.inScope (hstate.scope.mono hgrows))

/-- An action whose errors are handled without visits. -/
theorem Follows.contain {action : Run α} {handle : EvalError → Run α}
    (h : Follows ev known parts state (action state) C)
    (hhandle : ∀ error between ledger, between.Recorded ledger →
      Kept ledger parts (handle error between)) :
    Follows ev known parts state (contain action handle state) C := by
  refine h.map fun ledger _ _ later _ hkept => ?_
  unfold Run.contain
  cases hrun : action state with
  | ok value after =>
    rw [hrun] at hkept
    exact hkept
  | error error after =>
    rw [hrun] at hkept
    show Kept later parts (if error.isContained then _ else _)
    split
    · exact hhandle error after later hkept.state
    · exact kept_error hkept.state

end Rules

/-! ### Loops -/

section Loops

variable {ev : Bool → Node → Run Node} {known : List Node}

/-- A loop that has come to its end has no visits left. -/
theorem follows_end {α : Type} {parts : α → List Node} {state : RunState}
    {outcome : EStateM.Result EvalError RunState α} {C : Visit → Prop}
    (hkept : ∀ ledger, RecordedAll ledger known → state.Recorded ledger →
      Kept ledger parts outcome) (hnone : ∀ v, ¬C v) : Follows ev known parts state outcome C :=
  (follows_of_kept hkept).congr fun v => ⟨False.elim, hnone v⟩

theorem follows_evalOperands {accept : Nat → Node → Except Failure (Entity Node)}
    (haccept : ∀ position value e, accept position value = .ok e → value = .entity e)
    {arguments : List Node} (harguments : arguments ⊆ known) (position : Nat)
    (state : RunState) :
    Follows ev known (resultParts fun es => es.map .entity) state
      (evalOperands (ev false) accept position arguments state)
      (OperandVisit (ev false) accept position arguments state) := by
  induction arguments generalizing known position state with
  | nil =>
    exact follows_end (fun ledger _ hstate => kept_ok hstate recordedAll_nil)
      fun v => not_operandVisit_nil
  | cons argument rest ih =>
    rw [List.cons_subset] at harguments
    rw [evalOperands_cons]
    refine (follows_bind (follows_visit false harguments.1) (S := fun value between v =>
      ∃ kept, accept position value = .ok kept ∧
        OperandVisit (ev false) accept (position + 1) rest between v)
      fun value between hvalue => ?_).congr fun v => operandVisit_cons_iff.symm
    cases hkept : accept position value with
    | error failure =>
      refine follows_end (fun ledger _ hstate => kept_ok hstate recordedAll_nil) ?_
      rintro v ⟨kept, ⟨⟩, -⟩
    | ok kept =>
      obtain rfl := haccept position value kept hkept
      have hrest := ih (List.subset_append_of_subset_left [.entity kept] harguments.2)
        (position + 1) between
      refine (follows_bind_of_kept hrest fun result last _ ledger hknown hothers hlast =>
        kept_ok hlast ?_).congr fun v => ⟨fun h => ⟨kept, rfl, h⟩, ?_⟩
      · cases result with
        | error failure => exact recordedAll_nil
        | ok others => exact List.forall_mem_cons.mpr ⟨hknown _ (by simp), hothers⟩
      · rintro ⟨_, ⟨⟩, h⟩
        exact h

theorem follows_evalValues {pairs : List Node} (hpairs : pairs ⊆ known) (state : RunState) :
    Follows ev known id state (evalValues (ev false) pairs state)
      (ValueVisit (ev false) pairs state) := by
  induction pairs using evalValues.induct generalizing known state with
  | case1 key item rest ih =>
    rw [List.cons_subset, List.cons_subset] at hpairs
    rw [evalValues_cons]
    refine (follows_bind (follows_visit false hpairs.2.1) fun value between hvalue =>
      follows_bind_of_kept (ih (List.subset_append_of_subset_left (itself value) hpairs.2.2)
        between) fun others last _ ledger hknown hothers hlast =>
          kept_ok hlast ?_).congr fun v => valueVisit_cons_iff.symm
    have hkey := hknown key (List.mem_append_left _ hpairs.1)
    have hvalue := hknown value (by simp)
    exact List.forall_mem_cons.mpr ⟨hkey, List.forall_mem_cons.mpr ⟨hvalue, hothers⟩⟩
  | case2 pairs hshort =>
    rw [evalValues_of_short hshort]
    exact follows_end (fun ledger _ hstate => kept_ok hstate recordedAll_nil)
      fun v => not_valueVisit_of_short hshort

/-- The value of an attribute is visited if it is an adjective. -/
theorem follows_attributeValue (key : String) {value : Node} (hvalue : value ∈ known)
    (state : RunState) :
    Follows ev known (resultParts itself) state (attributeValue (ev false) key value state) fun v =>
      key = adjectiveKey ∧ v = ⟨false, value, state⟩ := by
  unfold attributeValue
  split
  · next hkey =>
    refine (follows_bind_of_kept (follows_visit false hvalue)
      fun result between _ ledger _ hresult hbetween => ?_).congr fun v => by simp [hkey]
    split
    · split
      · exact kept_ok hbetween hresult
      · exact kept_ok hbetween recordedAll_nil
    · exact kept_ok hbetween recordedAll_nil
  · next hkey =>
    refine follows_end (fun ledger hknown hstate => kept_ok hstate ?_) fun v h => hkey h.1
    exact recordedAll_itself (hknown value hvalue)

theorem follows_enterAttributes {attrs : Table String Node} {pairs : List Node}
    (hattrs : ∀ attr ∈ attrs, attr.2 ∈ known) (hpairs : pairs ⊆ known) (state : RunState) :
    Follows ev known (resultParts fun attrs => attrs.map (·.2)) state
      (enterAttributes (ev false) attrs pairs state)
      (AdjectiveVisit (ev false) attrs pairs state) := by
  induction attrs, pairs using enterAttributes.induct generalizing known state with
  | case1 attrs key item rest hkey =>
    rw [enterAttributes_of_not_key hkey]
    exact follows_end (fun ledger _ hstate => kept_ok hstate recordedAll_nil)
      fun v => not_adjectiveVisit_of_not_key hkey
  | case2 attrs key item rest name hkey ih =>
    rw [List.cons_subset, List.cons_subset] at hpairs
    rw [enterAttributes_cons hkey]
    refine (follows_bind (follows_attributeValue name hpairs.2.1 state)
      (S := fun result between v => ∃ value, result = .ok value ∧
        AdjectiveVisit (ev false) (Table.put name value attrs) rest between v)
      fun result between hresult => ?_).congr fun v => (adjectiveVisit_cons_iff hkey).symm
    cases result with
    | error failure =>
      refine follows_end (fun ledger _ hstate => kept_ok hstate recordedAll_nil) ?_
      rintro v ⟨value, ⟨⟩, -⟩
    | ok value =>
      refine (ih value (fun attr hattr => ?_) (List.subset_append_of_subset_left [value] hpairs.2.2)
        between).congr fun v => ⟨fun h => ⟨value, rfl, h⟩, ?_⟩
      · rcases Table.mem_put hattr with rfl | hmem
        · simp
        · exact List.mem_append_left _ (hattrs attr hmem)
      · rintro ⟨_, ⟨⟩, h⟩
        exact h
  | case3 pairs attrs hshort =>
    rw [enterAttributes_of_short hshort]
    refine follows_end (fun ledger hknown hstate => kept_ok hstate ?_)
      fun v => not_adjectiveVisit_of_short hshort
    exact List.forall_mem_map.mpr fun attr hattr => hknown attr.2 (hattrs attr hattr)

theorem follows_bindInOrder {bindings : List (String × Node)}
    (hbindings : ∀ binding ∈ bindings, binding.2 ∈ known) (state : RunState) :
    Follows ev known noParts state (bindInOrder (ev false) bindings state)
      (BindingVisit (ev false) bindings state) := by
  induction bindings generalizing known state with
  | nil =>
    exact follows_end (fun ledger _ hstate => kept_ok hstate recordedAll_nil)
      fun v => not_bindingVisit_nil
  | cons binding rest ih =>
    obtain ⟨name, value⟩ := binding
    rw [List.forall_mem_cons] at hbindings
    rw [bindInOrder_cons]
    refine (follows_bind (follows_visit false hbindings.1) fun result between _ =>
      (ih (fun binding hbinding => List.mem_append_left _ (hbindings.2 binding hbinding))
        (between.inScope (between.scope.define name result))).of_recorded
          fun ledger hknown hbetween => ⟨hknown, ?_⟩).congr fun v => bindingVisit_cons_iff.symm
    exact hbetween.inScope (hbetween.scope.define name (hknown result (by simp)))

theorem follows_evalSequence {value : Node} (hvalue : value ∈ known) {nodes : List Node}
    (hnodes : nodes ⊆ known) (state : RunState) :
    Follows ev known itself state (evalSequence (ev false) value nodes state)
      (SequenceVisit (ev false) value nodes state) := by
  induction nodes generalizing known value state with
  | nil =>
    exact follows_end (fun ledger hknown hstate => kept_ok hstate (recordedAll_itself
      (hknown value hvalue))) fun v => not_sequenceVisit_nil
  | cons node rest ih =>
    rw [List.cons_subset] at hnodes
    rw [evalSequence_cons]
    exact (follows_bind (follows_visit false hnodes.1) fun next between _ =>
      ih (List.mem_append_right known (List.mem_singleton_self next))
        (List.subset_append_of_subset_left _ hnodes.2) between).congr
          fun v => sequenceVisit_cons_iff.symm

theorem follows_evalArguments {params : List (String × TypeTag)} {arguments : List Node}
    (harguments : arguments ⊆ known) (state : RunState) :
    Follows ev known (resultParts fun bindings => bindings.map (·.2)) state
      (evalArguments (ev true) params arguments state)
      (ArgumentVisit (ev true) params arguments state) := by
  induction params generalizing known arguments state with
  | nil =>
    refine follows_end (fun ledger _ hstate => kept_ok hstate recordedAll_nil) ?_
    rintro v ⟨earlier, param, later, before, argument, rest, hsplit, -⟩
    simp at hsplit
  | cons param params ih =>
    obtain ⟨name, type⟩ := param
    cases arguments with
    | nil =>
      refine follows_end (fun ledger _ hstate => kept_ok hstate recordedAll_nil) ?_
      rintro v ⟨earlier, param, later, before, argument, rest, -, hsplit, -⟩
      simp at hsplit
    | cons argument arguments =>
      rw [List.cons_subset] at harguments
      rw [evalArguments_cons]
      refine (follows_bind (follows_visit true harguments.1) (S := fun value between v =>
        ∃ bound, bindArgument name type value = .ok (.ok bound) ∧
          ArgumentVisit (ev true) params arguments between v)
        fun value between _ => ?_).congr fun v => argumentVisit_cons_iff.symm
      cases hbound : bindArgument name type value with
      | error error =>
        refine follows_end (fun ledger _ hbetween => kept_error hbetween) ?_
        rintro v ⟨bound, ⟨⟩, -⟩
      | ok result =>
        cases result with
        | error failure =>
          refine follows_end (fun ledger _ hbetween => kept_ok hbetween recordedAll_nil) ?_
          rintro v ⟨bound, ⟨⟩, -⟩
        | ok bound =>
          have hrest := ih (List.subset_append_of_subset_left [value] harguments.2) between
          refine (follows_bind_of_kept hrest fun result last _ ledger hknown hothers hlast =>
            kept_ok hlast ?_).congr fun v => ⟨fun h => ⟨bound, rfl, h⟩, ?_⟩
          · cases result with
            | error failure => exact recordedAll_nil
            | ok others =>
              have hvalue : value.Recorded ledger := hknown value (by simp)
              exact List.forall_mem_cons.mpr ⟨hvalue.bindArgument hbound, hothers⟩
          · rintro ⟨_, ⟨⟩, h⟩
            exact h

end Loops

end EntityLisp
