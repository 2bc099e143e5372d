import EntityLisp.Proofs.UnseenTraits
import EntityLisp.Proofs.VisitForms
import Mathlib.Data.Set.Insert

/-!
# Where closures are made

A moment is an evaluation in the course of a run. `Accounts moments first last` keeps the books of
a set of moments: each of them goes from a ledger to a grown one, between `first` and `last`, and
each number that is new in `last` belongs to a closure that exactly one of the moments has made.
Books of successive moments are put together (`Accounts.union`), and an evaluation enters itself
into the books of what it visits (`Accounts.insert`).

* `exists_accounts`: **the books of an evaluation** account for all the evaluations that it reaches.
-/

namespace EntityLisp

open Node Run

/-! ### Closures in a node -/

/-- **A node holds a closure,** at any depth and in whatever captured scope. -/
inductive Node.Holds (c : Closure Node) : Node → Prop where
  | itself : Holds c (.closure c)
  | item {items : List Node} {item : Node} (mem : item ∈ items) (holds : Holds c item) :
      Holds c (.form items)
  | payload {e : Entity Node} (holds : Holds c e.payload) : Holds c (.entity e)
  | attr {e : Entity Node} {attr : String × Node} (mem : attr ∈ e.attrs)
      (holds : Holds c attr.2) : Holds c (.entity e)
  | element {es : List (Entity Node)} {joined : Bool} {e : Entity Node} (mem : e ∈ es)
      (holds : Holds c (.entity e)) : Holds c (.entities es joined)
  | body {d : Closure Node} (holds : Holds c d.body) : Holds c (.closure d)
  | captured {d : Closure Node} {binding : String × Node} (mem : binding ∈ d.scope.bindings)
      (holds : Holds c binding.2) : Holds c (.closure d)

/-- A scope holds the closures that its values hold. -/
def Scope.Holds (c : Closure Node) (scope : Scope Node) : Prop :=
  ∃ binding ∈ scope.bindings, binding.2.Holds c

section Holds

variable {ledger : Ledger} {node : Node} {c : Closure Node}

theorem Node.Recorded.allows (h : node.Recorded ledger) (hc : node.Holds c) :
    ledger.Allows c := by
  induction hc with
  | itself => exact (recorded_closure_iff.mp h).1
  | item hmem _ ih => exact ih (recorded_form_iff.mp h _ hmem)
  | payload _ ih => exact ih (recorded_entity_iff.mp h).1
  | attr hmem _ ih => exact ih ((recorded_entity_iff.mp h).2 _ hmem)
  | element hmem _ ih => exact ih (recorded_entities_iff.mp h _ hmem)
  | body _ ih => exact ih (recorded_closure_iff.mp h).2.1
  | captured hmem _ ih => exact ih ((recorded_closure_iff.mp h).2.2 _ hmem)

/-- **Recorded are the nodes** whose closures are allowed. -/
theorem recorded_iff_allows : node.Recorded ledger ↔ ∀ c, node.Holds c → ledger.Allows c := by
  refine ⟨fun h c => h.allows, fun h => ?_⟩
  induction node using Node.partsInduction with
  | plain node hplain => exact .plain hplain
  | symbol name => exact .symbol name
  | form items ih =>
    exact .form fun item hitem => ih item hitem fun c hc => h c (.item hitem hc)
  | entity e ihpayload ihattrs =>
    exact .entity (ihpayload fun c hc => h c (.payload hc))
      fun attr hattr => ihattrs attr hattr fun c hc => h c (.attr hattr hc)
  | entities es joined ih =>
    exact .entities fun e he => ih e he fun c hc => h c (.element he hc)
  | closure c ihbody ihcaptured =>
    exact .closure (h c .itself) (ihbody fun d hd => h d (.body hd))
      fun binding hbinding => ihcaptured binding hbinding fun d hd => h d (.captured hbinding hd)

theorem Scope.Recorded.allows {scope : Scope Node} (h : scope.Recorded ledger)
    (hc : scope.Holds c) : ledger.Allows c := by
  obtain ⟨binding, hbinding, hholds⟩ := hc
  exact (h.values binding hbinding).allows hholds

end Holds

/-! ### Worlds and moments -/

/-- **What there is between two evaluations:** environments, what has been kept of results, and the
number of the next closure. -/
structure World where
  scopes : List (Scope Node)
  results : List Node
  nextOrigin : Nat

/-- A world holds the closures that its scopes and its results hold. -/
def World.Holds (c : Closure Node) (w : World) : Prop :=
  (∃ scope ∈ w.scopes, scope.Holds c) ∨ ∃ result ∈ w.results, result.Holds c

/-- **A recorded world:** all its scopes and results are. -/
structure World.Recorded (ledger : Ledger) (w : World) : Prop where
  scopes : ∀ scope ∈ w.scopes, scope.Recorded ledger
  results : RecordedAll ledger w.results

/-- The world in which a run begins. -/
def World.fresh : World := ⟨[], [], 1⟩

/-- **A moment:** an evaluation in the course of a run, with the world in which the run began and
the depth limit. -/
structure Moment where
  world : World
  limit : Nat
  evaluation : Evaluation

namespace Moment

/-- What a moment comes to. -/
def outcome (m : Moment) : EStateM.Result EvalError RunState Node :=
  eval m.limit m.evaluation.levels m.evaluation.node m.evaluation.state

/-- **A moment makes a closure:** a `lambda` form is evaluated, and the closure is its value. -/
def Makes (c : Closure Node) (m : Moment) : Prop :=
  (∃ arguments, m.evaluation.node = .form (.symbol CoreForm.lambda.name :: arguments)) ∧
    ∃ after, m.outcome = .ok (.closure c) after

/-- **A recorded moment:** what it finds is recorded in one ledger, and what it leaves in
another. -/
structure Recorded (before after : Ledger) (m : Moment) : Prop where
  world : m.world.Recorded before
  node : m.evaluation.node.Recorded before
  state : m.evaluation.state.Recorded before
  outcome : Kept after itself m.outcome

end Moment

section Worlds

variable {ledger later : Ledger} {w : World}

theorem World.Recorded.mono (h : w.Recorded ledger) (hgrows : ledger.Grows later) :
    w.Recorded later :=
  ⟨fun scope hscope => (h.scopes scope hscope).mono hgrows, RecordedAll.mono hgrows h.results⟩

theorem World.recorded_fresh (ledger : Ledger) : World.fresh.Recorded ledger :=
  ⟨fun _ hscope => absurd hscope List.not_mem_nil, recordedAll_nil⟩

theorem World.Recorded.allows (h : w.Recorded ledger) {c : Closure Node} (hc : w.Holds c) :
    ledger.Allows c := by
  rcases hc with ⟨scope, hscope, hholds⟩ | ⟨result, hresult, hholds⟩
  · exact (h.scopes scope hscope).allows hholds
  · exact (h.results result hresult).allows hholds

end Worlds

/-! ### `lambda` forms -/

section Lambda

variable {m : Moment} {c : Closure Node}

theorem eval_lambda (limit levels : Nat) (arguments : List Node) (state : RunState) :
    eval limit (levels + 1) (.form (.symbol CoreForm.lambda.name :: arguments)) state =
      runLambda arguments (state.reporting (.coreForm CoreForm.lambda.name)) := by
  rw [eval_succ, evalNode_core, bind_of_ok (report_apply _ _)]
  rfl

/-- **A closure that is made** gets the number that is next, and the number after it comes next. -/
theorem Moment.Makes.spec (h : m.Makes c) : c.origin = m.evaluation.state.nextOrigin ∧
    (finalState m.outcome).nextOrigin = c.origin + 1 := by
  obtain ⟨⟨arguments, hnode⟩, after, hrun⟩ := h
  obtain ⟨world, limit, levels, node, state⟩ := m
  subst hnode
  cases levels with
  | zero => cases hrun
  | succ levels =>
    unfold Moment.outcome at hrun ⊢
    rw [eval_lambda] at hrun ⊢
    rcases runLambda_cases arguments (state.reporting (.coreForm CoreForm.lambda.name)) with
      ⟨failure, heq⟩ | ⟨error, heq⟩ | ⟨code, -, heq⟩
    · rw [heq] at hrun
      cases hrun
    · rw [heq] at hrun
      cases hrun
    · rw [heq] at hrun ⊢
      cases hrun
      exact ⟨rfl, rfl⟩

/-- Only one closure is made at a moment. -/
theorem Moment.Makes.unique {d : Closure Node} (hc : m.Makes c) (hd : m.Makes d) : c = d := by
  obtain ⟨-, after, hrun⟩ := hc
  obtain ⟨-, last, hrun'⟩ := hd
  rw [hrun] at hrun'
  cases hrun'
  rfl

/-- **A `lambda` form enters the function of the closure that it makes,** and else nothing. -/
theorem kept_or_makes_of_lambda {ledger : Ledger} {arguments : List Node}
    (hlambda : m.evaluation.node = .form (.symbol CoreForm.lambda.name :: arguments))
    (hnode : m.evaluation.node.Recorded ledger) (hstate : m.evaluation.state.Recorded ledger) :
    (Kept ledger itself m.outcome ∧ ∀ c, ¬m.Makes c) ∨
      ∃ c, m.Makes c ∧ Kept (ledger ++ [{c.code}]) itself m.outcome := by
  have hquiet : ∀ {outcome}, m.outcome = outcome → Kept ledger itself outcome →
      (∀ c after, outcome ≠ .ok (.closure c) after) →
        (Kept ledger itself m.outcome ∧ ∀ c, ¬m.Makes c) := by
    rintro outcome rfl hkept hnone
    exact ⟨hkept, fun c ⟨_, after, hrun⟩ => hnone c after hrun⟩
  obtain ⟨world, limit, levels, node, state⟩ := m
  replace hlambda : node = .form (.symbol CoreForm.lambda.name :: arguments) := hlambda
  subst hlambda
  cases levels with
  | zero =>
    exact Or.inl (hquiet rfl (kept_error hstate) fun _ _ => by rintro ⟨⟩)
  | succ levels =>
    have hreported : (state.reporting (.coreForm CoreForm.lambda.name)).Recorded ledger :=
      hstate.reporting _
    have hrun := eval_lambda limit levels arguments state
    rcases runLambda_cases arguments (state.reporting (.coreForm CoreForm.lambda.name)) with
      ⟨failure, heq⟩ | ⟨error, heq⟩ | ⟨code, hbody, heq⟩
    · refine Or.inl (hquiet (hrun.trans heq) (kept_failure failure hreported) ?_)
      rintro c after ⟨⟩
    · refine Or.inl (hquiet (hrun.trans heq) (kept_error hreported) ?_)
      rintro c after ⟨⟩
    · refine Or.inr ⟨_, ⟨⟨arguments, rfl⟩, _, hrun.trans heq⟩, ?_⟩
      show Kept _ itself (eval limit (levels + 1) _ state)
      rw [hrun, heq]
      have hgrows := Ledger.Grows.append_singleton ledger code
      refine kept_ok ⟨hreported.scope.mono hgrows, ?_⟩ (recordedAll_itself
        (.closure (Ledger.allows_append_singleton hreported.next rfl) ?_
          (hreported.scope.mono hgrows).values))
      · show state.nextOrigin + 1 = _
        rw [hstate.next, List.length_append, List.length_singleton]
      · rw [recorded_form_iff, List.forall_mem_cons] at hnode
        exact (hnode.2 code.body hbody).mono hgrows

end Lambda

/-! ### Books -/

/-- **The books of a set of moments,** from one ledger to another. -/
structure Accounts (moments : Set Moment) (first last : Ledger) : Prop where
  grows : first.Grows last
  recorded : ∀ m ∈ moments, ∃ before after, first.Grows before ∧ before.Grows after ∧
    after.Grows last ∧ m.Recorded before after
  made : ∀ number, first.length ≤ number → number < last.length →
    ∃ m ∈ moments, ∃ c, m.Makes c ∧ c.origin = number
  once : ∀ m ∈ moments, ∀ m' ∈ moments, ∀ c c', m.Makes c → m'.Makes c' →
    c.origin = c'.origin → m = m'

theorem Ledger.Grows.length_le {ledger later : Ledger} (h : ledger.Grows later) :
    ledger.length ≤ later.length := by
  obtain ⟨codes, rfl⟩ := h
  rw [List.length_append]
  exact Nat.le_add_right _ _

namespace Accounts

variable {moments others : Set Moment} {first between last : Ledger} {m : Moment}

/-- A number that is given out is one of those that are new. -/
theorem origin_mem (h : Accounts moments first last) (hm : m ∈ moments) {c : Closure Node}
    (hc : m.Makes c) : first.length ≤ c.origin ∧ c.origin < last.length := by
  obtain ⟨before, after, hbefore, hafter, hlast, hrecorded⟩ := h.recorded m hm
  obtain ⟨hnext, hfinal⟩ := hc.spec
  have hlow := hbefore.length_le
  have hhigh := hlast.length_le
  rw [hrecorded.state.next] at hnext
  rw [hrecorded.outcome.state.next] at hfinal
  omega

theorem empty (ledger : Ledger) : Accounts ∅ ledger ledger where
  grows := .refl ledger
  recorded := fun _ hm => hm.elim
  made := fun _ hle hlt => absurd hlt (Nat.not_lt.mpr hle)
  once := fun _ hm => hm.elim

/-- **Books that follow one another** are put together: their new numbers are different ones. -/
theorem union (h : Accounts moments first between) (hothers : Accounts others between last) :
    Accounts (moments ∪ others) first last where
  grows := h.grows.trans hothers.grows
  recorded := by
    rintro m (hm | hm)
    · obtain ⟨before, after, hbefore, hafter, hlast, hrecorded⟩ := h.recorded m hm
      exact ⟨before, after, hbefore, hafter, hlast.trans hothers.grows, hrecorded⟩
    · obtain ⟨before, after, hbefore, hafter, hlast, hrecorded⟩ := hothers.recorded m hm
      exact ⟨before, after, h.grows.trans hbefore, hafter, hlast, hrecorded⟩
  made := by
    intro number hle hlt
    rcases Nat.lt_or_ge number between.length with hearly | hlate
    · obtain ⟨m, hm, hmade⟩ := h.made number hle hearly
      exact ⟨m, Or.inl hm, hmade⟩
    · obtain ⟨m, hm, hmade⟩ := hothers.made number hlate hlt
      exact ⟨m, Or.inr hm, hmade⟩
  once := by
    rintro m (hm | hm) m' (hm' | hm') c c' hc hc' heq
    · exact h.once m hm m' hm' c c' hc hc' heq
    · have hearly := (h.origin_mem hm hc).2
      have hlate := (hothers.origin_mem hm' hc').1
      omega
    · have hearly := (h.origin_mem hm' hc').2
      have hlate := (hothers.origin_mem hm hc).1
      omega
    · exact hothers.once m hm m' hm' c c' hc hc' heq

/-- The books of a moment that makes a closure. -/
theorem making {c : Closure Node} (hc : m.Makes c)
    (hrecorded : m.Recorded first (first ++ [{c.code}])) :
    Accounts {m} first (first ++ [{c.code}]) where
  grows := .append_singleton first c.code
  recorded := by
    rintro _ rfl
    exact ⟨first, _, .refl first, .append_singleton first c.code, .refl _, hrecorded⟩
  made := by
    intro number hle hlt
    refine ⟨m, rfl, c, hc, ?_⟩
    have hnext := hrecorded.state.next
    rw [List.length_append, List.length_singleton] at hlt
    rw [hc.spec.1]
    omega
  once := by
    rintro _ rfl _ rfl c c' - - -
    rfl

/-- **A moment that makes no closure itself** is entered into the books of what it visits. -/
theorem insert (h : Accounts moments first last) (hrecorded : m.Recorded first last)
    (hquiet : ∀ c, ¬m.Makes c) : Accounts (Insert.insert m moments) first last where
  grows := h.grows
  recorded := by
    rintro m' (rfl | hm')
    · exact ⟨first, last, .refl first, h.grows, .refl last, hrecorded⟩
    · exact h.recorded m' hm'
  made := by
    intro number hle hlt
    obtain ⟨m', hm', hmade⟩ := h.made number hle hlt
    exact ⟨m', Or.inr hm', hmade⟩
  once := by
    rintro m₁ (rfl | hm₁) m₂ (rfl | hm₂) c c' hc hc' heq
    · rfl
    · exact absurd hc (hquiet c)
    · exact absurd hc' (hquiet c')
    · exact h.once m₁ hm₁ m₂ hm₂ c c' hc hc' heq

end Accounts

/-- **Along a trail, the books of the visits follow one another.** -/
theorem Trail.exists_accounts {ev : Bool → Node → Run Node} {α : Type} {parts : α → List Node}
    {outcome : EStateM.Result EvalError RunState α} {visits : List Visit} {ledger : Ledger}
    {w : World} (h : Trail ev parts outcome visits ledger) (books : Visit → Set Moment)
    (hworld : w.Recorded ledger)
    (hvisits : ∀ v ∈ visits, ∀ ledger, w.Recorded ledger → v.node.Recorded ledger →
      v.state.Recorded ledger → ∃ later, Accounts (books v) ledger later ∧
        Kept later itself (v.outcome ev)) :
    ∃ later, Accounts {m | ∃ v ∈ visits, m ∈ books v} ledger later ∧
      Kept later parts outcome := by
  induction h with
  | @nil ledger kept =>
    have hnone : {m | ∃ v ∈ ([] : List Visit), m ∈ books v} = ∅ := by simp
    rw [hnone]
    exact ⟨ledger, .empty ledger, kept⟩
  | @cons v rest ledger node state next ih =>
    rw [List.forall_mem_cons] at hvisits
    obtain ⟨between, hfirst, hkept⟩ := hvisits.1 ledger hworld node state
    obtain ⟨later, hrest, houtcome⟩ :=
      ih between hfirst.grows hkept (hworld.mono hfirst.grows) hvisits.2
    have hsplit : {m | ∃ v' ∈ v :: rest, m ∈ books v'} =
        books v ∪ {m | ∃ v' ∈ rest, m ∈ books v'} := by
      ext m
      simp
    rw [hsplit]
    exact ⟨later, hfirst.union hrest, houtcome⟩

/-! ### The books of an evaluation -/

/-- **The moments of an evaluation:** it and all those that it reaches. -/
def Evaluation.moments (w : World) (limit : Nat) (e : Evaluation) : Set Moment :=
  {m | m.world = w ∧ m.limit = limit ∧ Reaches limit e m.evaluation}

/-- The moments of an evaluation are its own and those of its calls. -/
theorem Evaluation.moments_eq (w : World) (limit levels : Nat) (node : Node) (state : RunState)
    (visits : List Visit) (hvisits : ∀ v, v ∈ visits ↔
      Calls (eval limit levels) (eval limit (levels - 1)) node state v.inside v.node v.state) :
    Evaluation.moments w limit ⟨levels + 1, node, state⟩ =
      insert ⟨w, limit, levels + 1, node, state⟩ {m | ∃ v ∈ visits, m ∈ Evaluation.moments w limit
        ⟨if v.inside then levels - 1 else levels, v.node, v.state⟩} := by
  ext ⟨world, limit', e⟩
  constructor
  · rintro ⟨rfl, rfl, hreaches⟩
    cases hreaches with
    | refl => exact Or.inl rfl
    | @call _ _ child _ reached inside _ calls rest =>
      exact Or.inr ⟨⟨inside, child, reached⟩, (hvisits _).mpr calls, rfl, rfl, rest⟩
  · rintro (heq | ⟨v, hv, rfl, rfl, hreaches⟩)
    · cases heq
      exact ⟨rfl, rfl, .refl _⟩
    · exact ⟨rfl, rfl, .call ((hvisits v).mp hv) hreaches⟩

theorem Evaluation.moments_zero (w : World) (limit : Nat) (node : Node) (state : RunState) :
    Evaluation.moments w limit ⟨0, node, state⟩ = {⟨w, limit, 0, node, state⟩} := by
  ext ⟨world, limit', e⟩
  constructor
  · rintro ⟨rfl, rfl, hreaches⟩
    cases hreaches
    rfl
  · rintro ⟨⟩
    exact ⟨rfl, rfl, .refl _⟩

/-- A `lambda` form reaches nothing but itself. -/
theorem Evaluation.moments_lambda (w : World) (limit levels : Nat) (arguments : List Node)
    (state : RunState) : Evaluation.moments w limit
      ⟨levels + 1, .form (.symbol CoreForm.lambda.name :: arguments), state⟩ =
        {⟨w, limit, levels + 1, .form (.symbol CoreForm.lambda.name :: arguments), state⟩} := by
  rw [Evaluation.moments_eq w limit levels _ state [] fun v =>
    iff_of_false List.not_mem_nil not_calls_lambda]
  simp

/-- Where no level is left, nothing is made. -/
theorem not_makes_zero {w : World} {limit : Nat} {node : Node} {state : RunState}
    (c : Closure Node) : ¬Moment.Makes c ⟨w, limit, 0, node, state⟩ := by
  rintro ⟨-, after, ⟨⟩⟩

/-- **The books of an evaluation.** What an evaluation in recorded surroundings does can be
accounted for. -/
theorem exists_accounts {w : World} (limit levels : Nat) {node : Node} {state : RunState}
    {ledger : Ledger} (hworld : w.Recorded ledger) (hnode : node.Recorded ledger)
    (hstate : state.Recorded ledger) :
    ∃ later, Accounts (Evaluation.moments w limit ⟨levels, node, state⟩) ledger later ∧
      Kept later itself (eval limit levels node state) := by
  -- the evaluators inside have one and two levels less
  induction levels using Nat.strongRecOn generalizing node state ledger with
  | ind levels ih =>
    have hroot : ∀ {last : Ledger}, Kept last itself (eval limit levels node state) →
        Moment.Recorded ledger last ⟨w, limit, levels, node, state⟩ :=
      fun hkept => ⟨hworld, hnode, hstate, hkept⟩
    cases levels with
    | zero =>
      have hkept : Kept ledger itself (eval limit 0 node state) := kept_error hstate
      rw [Evaluation.moments_zero, ← insert_empty_eq]
      exact ⟨ledger, (Accounts.empty ledger).insert (hroot hkept) not_makes_zero, hkept⟩
    | succ levels =>
      by_cases hlambda : ∃ arguments, node = .form (.symbol CoreForm.lambda.name :: arguments)
      · obtain ⟨arguments, rfl⟩ := hlambda
        rw [Evaluation.moments_lambda]
        rcases kept_or_makes_of_lambda (m := ⟨w, limit, levels + 1, _, state⟩) rfl hnode hstate with
          ⟨hkept, hquiet⟩ | ⟨c, hc, hkept⟩
        · rw [← insert_empty_eq]
          exact ⟨ledger, (Accounts.empty ledger).insert (hroot hkept) hquiet, hkept⟩
        · exact ⟨_, .making hc (hroot hkept), hkept⟩
      · have hplain : ∀ arguments, node ≠ .form (.symbol CoreForm.lambda.name :: arguments) :=
          fun arguments heq => hlambda ⟨arguments, heq⟩
        have hsteps : Follows (fun inside => eval limit (if inside then levels - 1 else levels))
            [node] itself state _ _ := follows_evalNode List.mem_cons_self hplain state
        obtain ⟨visits, hvisits, htrail⟩ := hsteps
        obtain ⟨later, haccounts, hkept⟩ := (htrail ledger (recordedAll_itself hnode)
          hstate).exists_accounts (fun v => Evaluation.moments w limit
            ⟨if v.inside then levels - 1 else levels, v.node, v.state⟩) hworld
              fun v _ ledger hworld hnode hstate => ih _ (by split <;> omega) hworld hnode hstate
        have heval : Kept later itself (eval limit (levels + 1) node state) := by
          rw [eval_succ]
          exact hkept
        rw [Evaluation.moments_eq w limit levels node state visits hvisits]
        refine ⟨later, haccounts.insert (hroot heval) ?_, heval⟩
        rintro c ⟨⟨arguments, heq⟩, -⟩
        exact hplain arguments heq

end EntityLisp
