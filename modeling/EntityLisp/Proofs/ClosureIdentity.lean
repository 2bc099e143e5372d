import EntityLisp.Proofs.Makings

/-!
# Closures are told apart by their origins

A `History` is a run from a fresh world: program texts and trees are evaluated one after the other
in any environments, and in between the environments may be arranged in any way, as long as no
closures come from elsewhere. It tells all the moments of the run, and the world that it has come
to.

* `History.exists_accounts`: the books of a run, from the first number on.
* `closures_identified`: **the closures of a run are told apart by their origins,** whenever and
  wherever they occur. So a closure that is applied unbinds the names of its own states, and of no
  other closure that the same `lambda` form has made.
-/

namespace EntityLisp

open Node Run

/-! ### Runs -/

namespace World

/-- A world knows a closure if it holds a state of it. -/
def Knows (c : Closure Node) (w : World) : Prop :=
  ∃ d, w.Holds d ∧ d.origin = c.origin ∧ d.code = c.code

/-- The world after an evaluation in one of its environments. The value, if there is one, is
kept. -/
def after (w : World) (place : Nat) (outcome : EStateM.Result EvalError RunState Node) : World where
  scopes := w.scopes.set place (finalState outcome).scope
  results := match outcome with
    | .ok value _ => w.results ++ [value]
    | .error .. => w.results
  nextOrigin := (finalState outcome).nextOrigin

end World

namespace Source

/-- The closures that are put into a source. A text holds none. -/
def Holds (c : Closure Node) : Source → Prop
  | .text _ => False
  | .tree node => node.Holds c

/-- **The moments of a source** that is evaluated in a state. The forms of a text are evaluated one
after the other. -/
def moments [Stack] (w : World) (limit : Nat) (state : RunState) : Source → Set Moment
  | .tree node => Evaluation.moments w limit ⟨min limit stackDepth + 1, node, state⟩
  | .text program => {m | ∃ before form rest value reached,
      readProgram program = .ok (before ++ form :: rest) ∧
        evaluateForms limit before state = .ok value reached ∧
          m ∈ Evaluation.moments w limit ⟨min limit stackDepth + 1, form, reached⟩}

end Source

/-- **A run from a fresh world,** with its moments and the world that it has come to. -/
inductive History [Stack] : Set Moment → World → Prop where
  | fresh : History ∅ .fresh
  /-- Environments are made, cloned, merged and changed, and results are kept or dropped. All
  closures in them are states of those that have been there. -/
  | arranged {moments : Set Moment} {w : World} (before : History moments w) (w' : World)
      (next : w'.nextOrigin = w.nextOrigin) (distinct : ∀ scope ∈ w'.scopes, scope.IsDistinct)
      (known : ∀ c, w'.Holds c → w.Knows c) : History moments w'
  /-- A text or a tree is evaluated in one of the environments, under any depth limit. -/
  | evaluated {moments : Set Moment} {w : World} (before : History moments w) (limit : Nat)
      {source : Source} (known : ∀ c, source.Holds c → w.Knows c) (place : Nat)
      {scope : Scope Node} (there : w.scopes[place]? = some scope) (journal : List Event) :
      History (moments ∪ source.moments w limit ⟨scope, w.nextOrigin, journal⟩)
        (w.after place (source.run limit ⟨scope, w.nextOrigin, journal⟩))

/-! ### The books of a run -/

section Books

variable {ledger : Ledger} {w : World} {c : Closure Node}

theorem World.Recorded.allows_of_knows (h : w.Recorded ledger) (hc : w.Knows c) :
    ledger.Allows c := by
  obtain ⟨d, hd, horigin, hcode⟩ := hc
  obtain ⟨codes, hcodes, hmem⟩ := h.allows hd
  exact ⟨codes, horigin ▸ hcodes, hcode ▸ hmem⟩

/-- What is read from text is recorded in every ledger. -/
theorem recorded_of_leaves {node : Node} (h : node.Leaves IsWritable) : node.Recorded ledger := by
  induction h with
  | form _ ih => exact .form ih
  | @leaf node hleaf hwritable =>
    cases node with
    | symbol name => exact .symbol name
    | nil | bool | int | float | str | keyword => exact .plain rfl
    | form items => cases hleaf
    | _ =>
      rcases hwritable with hreadable | ⟨negative, heq⟩
      · exact hreadable.elim
      · cases heq

/-- **The books of a source.** -/
theorem Source.exists_accounts [Stack] {source : Source} (limit : Nat) {state : RunState}
    (hworld : w.Recorded ledger) (hsource : ∀ c, source.Holds c → ledger.Allows c)
    (hstate : state.Recorded ledger) :
    ∃ later, Accounts (source.moments w limit state) ledger later ∧
      Kept later itself (source.run limit state) := by
  cases source with
  | tree node =>
    exact EntityLisp.exists_accounts limit _ hworld (recorded_iff_allows.mpr hsource) hstate
  | text program =>
    show ∃ later, Accounts _ ledger later ∧ Kept later itself (evaluateText limit program state)
    unfold evaluateText
    cases hread : readProgram program with
    | error fault =>
      have hnone : Source.moments w limit state (.text program) = ∅ := by
        refine Set.eq_empty_of_forall_notMem ?_
        rintro m ⟨before, form, rest, value, reached, hforms, -⟩
        rw [hread] at hforms
        cases hforms
      rw [hnone]
      exact ⟨ledger, .empty ledger, kept_error hstate⟩
    | ok forms =>
      have hsequence : Follows (fun _ => evaluate limit) (.nil :: forms) itself state _ _ :=
        follows_evalSequence List.mem_cons_self (List.subset_cons_self _ _) state
      obtain ⟨visits, hvisits, htrail⟩ := hsequence
      have hforms : RecordedAll ledger (.nil :: forms) := List.forall_mem_cons.mpr ⟨.plain rfl,
        fun form hform => recorded_of_leaves (writable_of_mem_readProgram hread hform).2.2⟩
      obtain ⟨later, haccounts, hkept⟩ := (htrail ledger hforms hstate).exists_accounts
        (fun v => Evaluation.moments w limit ⟨min limit stackDepth + 1, v.node, v.state⟩)
        hworld fun v _ ledger hworld hnode hstate =>
          EntityLisp.exists_accounts limit _ hworld hnode hstate
      have hmoments : Source.moments w limit state (.text program) =
          {m | ∃ v ∈ visits, m ∈ Evaluation.moments w limit
            ⟨min limit stackDepth + 1, v.node, v.state⟩} := by
        ext m
        constructor
        · rintro ⟨before, form, rest, value, reached, hsplit, hbefore, hm⟩
          rw [hread] at hsplit
          exact ⟨⟨false, form, reached⟩, (hvisits _).mpr ⟨before, form, rest,
            Except.ok.inj hsplit, value, reached, hbefore, rfl⟩, hm⟩
        · rintro ⟨v, hv, hm⟩
          obtain ⟨before, form, rest, hsplit, value, reached, hbefore, rfl⟩ := (hvisits v).mp hv
          exact ⟨before, form, rest, value, reached, hsplit ▸ hread, hbefore, hm⟩
      rw [hmoments]
      exact ⟨later, haccounts, hkept⟩

theorem World.Recorded.after {outcome : EStateM.Result EvalError RunState Node}
    (h : w.Recorded ledger) (houtcome : Kept ledger itself outcome) (place : Nat) :
    (w.after place outcome).Recorded ledger := by
  refine ⟨fun scope hscope => ?_, ?_⟩
  · rcases List.mem_or_eq_of_mem_set hscope with hmem | rfl
    · exact h.scopes scope hmem
    · exact houtcome.state.scope
  · cases outcome with
    | ok value last => exact List.forall_mem_append.mpr ⟨h.results, houtcome.value value last rfl⟩
    | error error last => exact h.results

/-- **The books of a run,** in which no closure gets the number zero. -/
theorem History.exists_accounts [Stack] {moments : Set Moment} (h : History moments w) :
    ∃ ledger, Accounts moments [∅] ledger ∧ w.Recorded ledger ∧ w.nextOrigin = ledger.length := by
  induction h with
  | fresh => exact ⟨[∅], .empty _, World.recorded_fresh _, rfl⟩
  | @arranged moments w _ w' next distinct known ih =>
    obtain ⟨ledger, haccounts, hworld, hnext⟩ := ih
    have hallows : ∀ c, w'.Holds c → ledger.Allows c :=
      fun c hc => hworld.allows_of_knows (known c hc)
    refine ⟨ledger, haccounts, ⟨fun scope hscope => ⟨distinct scope hscope, ?_⟩, ?_⟩,
      next.trans hnext⟩
    · exact fun binding hbinding => recorded_iff_allows.mpr fun c hc =>
        hallows c (Or.inl ⟨scope, hscope, binding, hbinding, hc⟩)
    · exact fun result hresult => recorded_iff_allows.mpr fun c hc =>
        hallows c (Or.inr ⟨result, hresult, hc⟩)
  | @evaluated moments w _ limit source known place scope there journal ih =>
    obtain ⟨ledger, haccounts, hworld, hnext⟩ := ih
    have hstate : RunState.Recorded ledger ⟨scope, w.nextOrigin, journal⟩ :=
      ⟨hworld.scopes scope (List.mem_of_getElem? there), hnext⟩
    obtain ⟨later, hsource, hkept⟩ := Source.exists_accounts limit hworld
      (fun c hc => hworld.allows_of_knows (known c hc)) hstate
    exact ⟨later, haccounts.union hsource, (hworld.mono hsource.grows).after hkept place,
      hkept.state.next⟩

end Books

/-! ### The closures at a moment -/

namespace Moment

/-- The closures that there are when an evaluation begins: in the world in which the run began, in
what is evaluated, and in the current scope. -/
def Sees (c : Closure Node) (m : Moment) : Prop :=
  m.world.Holds c ∨ m.evaluation.node.Holds c ∨ m.evaluation.state.scope.Holds c

/-- The closures that an evaluation leaves, in its value and in the scope. -/
def Gives (c : Closure Node) (m : Moment) : Prop :=
  (∃ value after, m.outcome = .ok value after ∧ value.Holds c) ∨
    (finalState m.outcome).scope.Holds c

/-- **A closure is applied, and its arguments are bound** in a scope. -/
def Binds (c : Closure Node) (scope : Scope Node) (m : Moment) : Prop :=
  ∃ levels arguments start bindings reached, m.evaluation.levels = levels + 1 ∧
    StartsCall (eval m.limit levels) m.evaluation.node m.evaluation.state c arguments start ∧
      evalArguments (eval m.limit (levels - 1)) c.params arguments
        (start.inScope (c.scope.mergedWith start.scope)) = .ok (.ok bindings) reached ∧
          scope = (c.scope.mergedWith start.scope).defineAll bindings

/-- **A closure comes from a moment:** it is a state of the closure that is made there. -/
def Originates (c : Closure Node) (m : Moment) : Prop :=
  ∃ made, m.Makes made ∧ made.origin = c.origin ∧ made.code = c.code

end Moment

/-- **The closures that exist before a moment:** those that an evaluation has seen which began no
later, or which one has left that ended before. The next number tells: it never goes back
(`grows_eval`), so that nothing is missed that comes earlier. -/
def ExistsBefore (moments : Set Moment) (m : Moment) (c : Closure Node) : Prop :=
  ∃ m' ∈ moments,
    (m'.Sees c ∧ m'.evaluation.state.nextOrigin ≤ m.evaluation.state.nextOrigin) ∨
    (m'.Gives c ∧ (finalState m'.outcome).nextOrigin ≤ m.evaluation.state.nextOrigin)

/-- **The closures that occur in a run:** in its world, at a moment, or in the scope of a call. -/
def Occurs (moments : Set Moment) (w : World) (c : Closure Node) : Prop :=
  w.Holds c ∨ ∃ m ∈ moments, m.Sees c ∨ m.Gives c ∨ ∃ applied scope, m.Binds applied scope ∧
    (c = applied ∨ scope.Holds c)

/-- **Closures are told apart by their origins** in the course of a run. -/
structure ClosuresIdentified (moments : Set Moment) (w : World) : Prop where
  /-- A new closure gets an origin that no closure has which existed before. -/
  fresh : ∀ m ∈ moments, ∀ c, m.Makes c → ∀ d, ExistsBefore moments m d → d.origin ≠ c.origin
  /-- Closures with the same origin have the same parameters, result type and body. -/
  code : ∀ c d, Occurs moments w c → Occurs moments w d → c.origin = d.origin →
    c.params = d.params ∧ c.returns = d.returns ∧ c.body = d.body
  /-- Each closure comes from exactly one moment. -/
  origin : ∀ c, Occurs moments w c → ∃! m, m ∈ moments ∧ m.Originates c
  /-- The names that are unbound in a call are those of the states of the closure applied. -/
  unbinds : ∀ m ∈ moments, ∀ c scope, m.Binds c scope → ∀ binding ∈ scope.bindings,
    binding ∉ (scope.unbindOrigin c.origin).bindings ↔
      ∃ d, binding.2 = .closure d ∧ ∃ maker ∈ moments, maker.Originates c ∧ maker.Originates d

/-! ### Calls -/

section Calls

variable {moments : Set Moment} {first last : Ledger} {m : Moment} {c : Closure Node}
  {scope : Scope Node}

theorem Reaches.trans {limit : Nat} {e between later : Evaluation} (h : Reaches limit e between)
    (hlater : Reaches limit between later) : Reaches limit e later := by
  induction h with
  | refl => exact hlater
  | call calls _ ih => exact .call calls (ih hlater)

/-- With a moment there are those of all evaluations that it reaches. -/
def Unfolded (moments : Set Moment) : Prop :=
  ∀ m ∈ moments, ∀ e, Reaches m.limit m.evaluation e → ⟨m.world, m.limit, e⟩ ∈ moments

theorem Evaluation.unfolded_moments (w : World) (limit : Nat) (e : Evaluation) :
    Unfolded (Evaluation.moments w limit e) := by
  rintro m ⟨rfl, rfl, hreaches⟩ e' he'
  exact ⟨rfl, rfl, hreaches.trans he'⟩

theorem History.unfolded [Stack] {w : World} (h : History moments w) : Unfolded moments := by
  induction h with
  | fresh => exact fun _ hm => hm.elim
  | arranged _ _ _ _ _ ih => exact ih
  | @evaluated _ _ _ limit source _ _ _ _ _ ih =>
    rintro m (hm | hm) e he
    · exact Or.inl (ih m hm e he)
    · refine Or.inr ?_
      cases source with
      | tree node => exact Evaluation.unfolded_moments _ _ _ m hm e he
      | text program =>
        obtain ⟨before, form, rest, value, reached, hread, hbefore, hm⟩ := hm
        exact ⟨before, form, rest, value, reached, hread, hbefore,
          Evaluation.unfolded_moments _ _ _ m hm e he⟩

/-- The value of an evaluation that is reached is recorded at the end, and so is its state. -/
theorem Accounts.recorded_of_reaches (h : Accounts moments first last)
    (hunfolded : Unfolded moments) (hm : m ∈ moments) {e : Evaluation}
    (hreaches : Reaches m.limit m.evaluation e) {value : Node} {after : RunState}
    (hrun : eval m.limit e.levels e.node e.state = .ok value after) :
    value.Recorded last ∧ after.scope.Recorded last := by
  obtain ⟨before, later, -, -, hlast, hrecorded⟩ := h.recorded _ (hunfolded m hm e hreaches)
  obtain ⟨hafter, hvalue⟩ := hrecorded.outcome.of_ok hrun
  exact ⟨(hvalue value List.mem_cons_self).mono hlast, hafter.scope.mono hlast⟩

/-- What is bound to parameters comes from the values of the arguments. -/
theorem recorded_of_evalArguments {argEval : Node → Run Node} {params : List (String × TypeTag)}
    {arguments : List Node} {bindings : List (String × Node)} {state after : RunState}
    (hrun : evalArguments argEval params arguments state = .ok (.ok bindings) after)
    (hvalues : ∀ earlier param later before argument rest bound reached value between,
      params = earlier ++ param :: later → arguments = before ++ argument :: rest →
        earlier.length = before.length →
          evalArguments argEval earlier before state = .ok (.ok bound) reached →
            argEval argument reached = .ok value between → value.Recorded last) :
    ∀ binding ∈ bindings, binding.2.Recorded last := by
  induction params generalizing arguments bindings state with
  | nil =>
    cases hrun
    exact fun _ hbinding => absurd hbinding List.not_mem_nil
  | cons param params ih =>
    obtain ⟨name, type⟩ := param
    cases arguments with
    | nil =>
      cases hrun
      exact fun _ hbinding => absurd hbinding List.not_mem_nil
    | cons argument arguments =>
      obtain ⟨value, between, bound, others, hvalue, hbound, hothers, rfl⟩ :=
        evalArguments_cons_eq_ok_iff.mp hrun
      have hfirst : value.Recorded last := hvalues [] (name, type) params [] argument arguments []
        state value between rfl rfl rfl rfl hvalue
      refine List.forall_mem_cons.mpr ⟨hfirst.bindArgument hbound, ih hothers ?_⟩
      intro earlier param later before item rest bound' reached value' between' hparams hsplit
        haligned hbefore hitem
      exact hvalues ((name, type) :: earlier) param later (argument :: before) item rest
        ((name, bound) :: bound') reached value' between' (congrArg _ hparams)
        (congrArg _ hsplit) (congrArg (· + 1) haligned) (evalArguments_cons_eq_ok_iff.mpr
          ⟨value, between, bound, bound', hvalue, hbound, hbefore, rfl⟩) hitem

/-- The calls of a moment come to recorded values. -/
theorem Accounts.recorded_of_calls (h : Accounts moments first last)
    (hunfolded : Unfolded moments) {w : World} {limit levels : Nat} {node child : Node}
    {state reached after : RunState} (hm : ⟨w, limit, levels + 1, node, state⟩ ∈ moments)
    (inside : Bool) (hcalls : Calls (eval limit levels) (eval limit (levels - 1)) node state inside
      child reached) {value : Node}
    (hrun : eval limit (if inside then levels - 1 else levels) child reached = .ok value after) :
    value.Recorded last ∧ after.scope.Recorded last :=
  h.recorded_of_reaches hunfolded hm (.call hcalls (.refl _)) hrun

/-- **The closure that a moment applies** is recorded at the end, and so is the scope of the
caller: the head is bound in it, or it is evaluated, or it is a closure already. -/
theorem Accounts.recorded_of_startsCall (h : Accounts moments first last)
    (hunfolded : Unfolded moments) {w : World} {limit levels : Nat} {node : Node}
    {state start : RunState} (hm : ⟨w, limit, levels + 1, node, state⟩ ∈ moments)
    {arguments : List Node}
    (hstarts : StartsCall (eval limit levels) node state c arguments start) :
    (Node.closure c).Recorded last ∧ start.scope.Recorded last := by
  obtain ⟨before, later, -, hlater, hlast, hrecorded⟩ := h.recorded _ hm
  have hgrows := hlater.trans hlast
  have hstate : state.scope.Recorded last := hrecorded.state.scope.mono hgrows
  have hnode : node.Recorded last := hrecorded.node.mono hgrows
  obtain ⟨head, freed, found, hfreed, hplain, hvalue, -, rfl⟩ := hstarts
  obtain ⟨rfl, rfl⟩ := hfreed.of_ne_entity (hplain .entity)
  show (Node.closure c).Recorded last ∧ found.scope.Recorded last
  unfold headValue at hvalue
  split at hvalue
  · next name =>
    cases hlookup : freed.scope.lookup? name with
    | some value =>
      rw [lookup_of_eq_some hlookup] at hvalue
      cases hvalue
      exact ⟨hstate.lookup? hlookup, hstate⟩
    | none =>
      rw [lookup_of_eq_none hlookup] at hvalue
      cases hvalue
  · next items => exact h.recorded_of_calls hunfolded hm false (.head hfreed) hvalue
  · next hform =>
    cases hvalue
    exact ⟨recorded_form_iff.mp hnode _ List.mem_cons_self, hstate⟩

/-- **The closure that is applied and the scope of the call** are recorded at the end. -/
theorem Accounts.recorded_of_binds (h : Accounts moments first last)
    (hunfolded : Unfolded moments) (hm : m ∈ moments) (hbinds : m.Binds c scope) :
    (Node.closure c).Recorded last ∧ scope.Recorded last := by
  obtain ⟨levels, arguments, start, bindings, reached, hlevels, hstarts, hbound, rfl⟩ := hbinds
  obtain ⟨world, limit, ⟨_, node, state⟩⟩ := m
  cases hlevels
  obtain ⟨hclosure, hcaller⟩ := h.recorded_of_startsCall hunfolded hm hstarts
  refine ⟨hclosure, (hcaller.mergedWith (recorded_closure_iff.mp hclosure).2.2).defineAll
    (recorded_of_evalArguments hbound ?_)⟩
  intro earlier param later before argument rest bound reached value between hparams hsplit haligned
    hbefore hargument
  exact (h.recorded_of_calls hunfolded hm true
    (.inside hstarts (.argument hparams hsplit haligned hbefore)) hargument).1

end Calls

/-! ### The identity of closures -/

section Identity

variable {moments : Set Moment} {w : World} {first ledger : Ledger} {c : Closure Node}

/-- The function that a ledger allows under a new number is that of the closure made with it. -/
theorem Ledger.Grows.code_eq {first last : Ledger} (h : first.Grows last) {c d : Closure Node}
    (hc : last.Allows c) (hd : last.Allows d) (horigin : c.origin = d.origin)
    (hnew : first.length ≤ c.origin) : c.code = d.code := by
  obtain ⟨codes, rfl⟩ := h
  obtain ⟨entry, hentry, hmem⟩ := hc
  obtain ⟨entry', hentry', hmem'⟩ := hd
  rw [← horigin, hentry] at hentry'
  cases hentry'
  rw [List.getElem?_append_right hnew, List.getElem?_map] at hentry
  obtain ⟨code, -, rfl⟩ := Option.map_eq_some_iff.mp hentry
  exact hmem.trans hmem'.symm

/-- The number zero is not given out. -/
theorem Ledger.Grows.origin_pos (h : Ledger.Grows [∅] ledger) (hc : ledger.Allows c) :
    1 ≤ c.origin := by
  obtain ⟨codes, rfl⟩ := h
  obtain ⟨entry, hentry, hmem⟩ := hc
  refine Nat.one_le_iff_ne_zero.mpr fun hzero => ?_
  rw [hzero] at hentry
  cases hentry
  exact hmem

theorem Moment.Recorded.allows_of_sees {before after : Ledger} {m : Moment}
    (h : m.Recorded before after) (hc : m.Sees c) : before.Allows c := by
  rcases hc with hc | hc | hc
  · exact h.world.allows hc
  · exact h.node.allows hc
  · exact h.state.scope.allows hc

theorem Moment.Recorded.allows_of_gives {before after : Ledger} {m : Moment}
    (h : m.Recorded before after) (hc : m.Gives c) : after.Allows c := by
  rcases hc with ⟨value, last, hrun, hc⟩ | hc
  · exact (h.outcome.value value last hrun value List.mem_cons_self).allows hc
  · exact h.outcome.state.scope.allows hc

/-- **Whatever occurs in a run is allowed** by the ledger of its books. -/
theorem Occurs.allows (haccounts : Accounts moments [∅] ledger) (hunfolded : Unfolded moments)
    (hworld : w.Recorded ledger) (hc : Occurs moments w c) : ledger.Allows c := by
  rcases hc with hc | ⟨m, hm, hc⟩
  · exact hworld.allows hc
  · obtain ⟨before, after, -, hafter, hlast, hrecorded⟩ := haccounts.recorded m hm
    rcases hc with hc | hc | ⟨applied, scope, hbinds, hc⟩
    · exact (hafter.trans hlast).allows (hrecorded.allows_of_sees hc)
    · exact hlast.allows (hrecorded.allows_of_gives hc)
    · obtain ⟨happlied, hscope⟩ := haccounts.recorded_of_binds hunfolded hm hbinds
      rcases hc with rfl | hc
      · exact happlied.allows .itself
      · exact hscope.allows hc

/-- **An allowed closure comes from exactly one moment.** -/
theorem Accounts.existsUnique_originates (h : Accounts moments [∅] ledger)
    (hc : ledger.Allows c) : ∃! m, m ∈ moments ∧ m.Originates c := by
  obtain ⟨m, hm, made, hmakes, horigin⟩ :=
    h.made c.origin (h.grows.origin_pos hc) hc.origin_lt
  obtain ⟨before, after, -, -, hlast, hrecorded⟩ := h.recorded m hm
  have hmade : ledger.Allows made := by
    obtain ⟨-, last, hrun⟩ := hmakes
    exact hlast.allows (hrecorded.allows_of_gives (Or.inl ⟨_, last, hrun, .itself⟩))
  have hcode : made.code = c.code :=
    h.grows.code_eq hmade hc horigin (h.grows.origin_pos hmade)
  refine ⟨m, ⟨hm, made, hmakes, horigin, hcode⟩, ?_⟩
  rintro m' ⟨hm', made', hmakes', horigin', -⟩
  exact h.once m' hm' m hm made' made hmakes' hmakes (horigin'.trans horigin.symm)

/-- **Closures share an origin** exactly if they come from one moment. -/
theorem Accounts.origin_eq_iff (h : Accounts moments [∅] ledger) {d : Closure Node}
    (hc : ledger.Allows c) (hd : ledger.Allows d) :
    d.origin = c.origin ↔ ∃ m ∈ moments, m.Originates c ∧ m.Originates d := by
  constructor
  · intro horigin
    obtain ⟨m, ⟨hm, made, hmakes, hmade, hcode⟩, -⟩ := h.existsUnique_originates hc
    have hsame : c.code = d.code := h.grows.code_eq hc hd horigin.symm (h.grows.origin_pos hc)
    exact ⟨m, hm, ⟨made, hmakes, hmade, hcode⟩, made, hmakes, hmade.trans horigin.symm,
      hcode.trans hsame⟩
  · rintro ⟨m, -, ⟨made, hmakes, hmade, -⟩, made', hmakes', hmade', -⟩
    obtain rfl := hmakes.unique hmakes'
    exact hmade'.symm.trans hmade

/-- What exists before a moment has a number below the one that is next. -/
theorem ExistsBefore.origin_lt (haccounts : Accounts moments first ledger) {m : Moment}
    (h : ExistsBefore moments m c) : c.origin < m.evaluation.state.nextOrigin := by
  obtain ⟨m', hm', hc⟩ := h
  obtain ⟨before, after, -, -, -, hrecorded⟩ := haccounts.recorded m' hm'
  rcases hc with ⟨hc, hle⟩ | ⟨hc, hle⟩
  · have hlt := (hrecorded.allows_of_sees hc).origin_lt
    rw [← hrecorded.state.next] at hlt
    exact Nat.lt_of_lt_of_le hlt hle
  · have hlt := (hrecorded.allows_of_gives hc).origin_lt
    rw [← hrecorded.outcome.state.next] at hlt
    exact Nat.lt_of_lt_of_le hlt hle

/-- The names that are unbound are those of the closures with the origin. -/
theorem not_mem_unbindOrigin_iff {scope : Scope Node} {binding : String × Node} {origin : Nat}
    (hbinding : binding ∈ scope.bindings) : binding ∉ (scope.unbindOrigin origin).bindings ↔
      ∃ d, binding.2 = .closure d ∧ d.origin = origin := by
  have hfilter : binding ∈ (scope.unbindOrigin origin).bindings ↔
      binding ∈ scope.bindings ∧ (!binding.2.hasOrigin origin) = true := List.mem_filter
  rw [hfilter]
  constructor
  · intro h
    have hhas : binding.2.hasOrigin origin = true := by simpa [hbinding] using h
    cases hvalue : binding.2 with
    | closure d =>
      rw [hvalue] at hhas
      exact ⟨d, rfl, beq_iff_eq.mp hhas⟩
    | _ =>
      rw [hvalue] at hhas
      cases hhas
  · rintro ⟨d, hvalue, rfl⟩ ⟨-, hnot⟩
    simp [hvalue, hasOrigin] at hnot

end Identity

/-- **Closures are told apart by their origins.** In every run from a fresh world, a `lambda` form
that makes a closure gives it an origin that no closure has which existed before, and two closures
with the same origin have the same parameters, result type and body, wherever in the run and at
whatever depth they occur. Each of them comes from exactly one evaluation of a `lambda` form, and
a call unbinds the names of the closures that come from where the closure applied comes from. -/
theorem closures_identified [Stack] {moments : Set Moment} {w : World} (h : History moments w) :
    ClosuresIdentified moments w := by
  obtain ⟨ledger, haccounts, hworld, -⟩ := h.exists_accounts
  have hallows : ∀ {c}, Occurs moments w c → ledger.Allows c :=
    fun hc => hc.allows haccounts h.unfolded hworld
  refine ⟨fun m _ c hmakes d hbefore => ?_, fun c d hc hd horigin => ?_,
    fun c hc => haccounts.existsUnique_originates (hallows hc),
    fun m hm c scope hbinds binding hbinding => ?_⟩
  · rw [hmakes.spec.1]
    exact Nat.ne_of_lt (hbefore.origin_lt haccounts)
  · have hsame : c.code = d.code := haccounts.grows.code_eq (hallows hc) (hallows hd) horigin
      (haccounts.grows.origin_pos (hallows hc))
    exact ⟨congrArg FunctionCode.params hsame, congrArg FunctionCode.returns hsame,
      congrArg FunctionCode.body hsame⟩
  · obtain ⟨happlied, hscope⟩ := haccounts.recorded_of_binds h.unfolded hm hbinds
    rw [not_mem_unbindOrigin_iff hbinding]
    refine exists_congr fun d => and_congr_right fun hvalue => ?_
    have hd : ledger.Allows d := hscope.allows ⟨binding, hbinding, hvalue ▸ .itself⟩
    exact haccounts.origin_eq_iff (happlied.allows .itself) hd

/-! ### Two closures of one form -/

/-- The form `(lambda ((a as Lambda)) returns Lambda a)`. -/
def handOnForm : Node :=
  .form [.symbol "lambda", .form [.form [.symbol "a", .symbol "as", .symbol "Lambda"]],
    .symbol "returns", .symbol "Lambda", .symbol "a"]

/-- The closure that it makes where nothing is bound and the number is next. -/
def handOn (number : Nat) : Closure Node :=
  ⟨[("a", .lambda)], .lambda, .symbol "a", .empty, false, number⟩

/-- A world whose one environment binds two of these closures. -/
def twinsWorld : World :=
  ⟨[⟨[("f", .closure (handOn 1)), ("g", .closure (handOn 2))], []⟩], [], 3⟩

/-- What is free of closures holds none that a world would have to know. -/
theorem World.knows_of_recorded_nil {node : Node} (h : node.Recorded []) (w : World) :
    ∀ c, (Source.tree node).Holds c → w.Knows c :=
  fun _ hc => absurd (h.allows hc).origin_lt (Nat.not_lt_zero _)

theorem recorded_handOnForm : handOnForm.Recorded [] := by
  simp [handOnForm, recorded_form_iff, Node.Recorded.symbol]

/-- The closure captures nothing, so it holds no closure but itself. -/
theorem eq_handOn_of_holds {c : Closure Node} {number : Nat}
    (h : (Node.closure (handOn number)).Holds c) : c = handOn number := by
  cases h with
  | itself => rfl
  | body h => cases h
  | captured hmem => exact absurd hmem List.not_mem_nil

/-- A world with one environment, in which nothing is bound. -/
theorem history_blank [Stack] : History ∅ ⟨[.empty], [], 1⟩ := by
  refine .arranged .fresh _ rfl (List.forall_mem_singleton.mpr Scope.isDistinct_empty) ?_
  rintro c (⟨scope, hscope, binding, hbinding, -⟩ | ⟨result, hresult, -⟩)
  · rw [List.mem_singleton.mp hscope] at hbinding
    exact absurd hbinding List.not_mem_nil
  · exact absurd hresult List.not_mem_nil

/-- Two evaluations of the form lead to the world in which both closures are bound. -/
theorem exists_history_twinsWorld : ∃ moments, History moments twinsWorld := by
  have hfirst := history_blank.evaluated 200 (World.knows_of_recorded_nil recorded_handOnForm _)
    0 rfl []
  have hsecond := hfirst.evaluated 200 (World.knows_of_recorded_nil recorded_handOnForm _) 0 rfl []
  refine ⟨_, hsecond.arranged twinsWorld rfl ?distinct ?known⟩
  case distinct =>
    refine List.forall_mem_singleton.mpr ⟨?_, List.nodup_nil⟩
    show ["f", "g"].Nodup
    decide
  case known =>
    -- both closures have been kept as results
    rintro c (⟨scope, hscope, binding, hbinding, hc⟩ | ⟨result, hresult, -⟩)
    · rw [List.mem_singleton.mp hscope] at hbinding
      refine ⟨c, Or.inr ⟨.closure c, ?_, .itself⟩, rfl, rfl⟩
      rcases List.mem_cons.mp hbinding with rfl | hbinding
      · rw [eq_handOn_of_holds hc]
        exact List.mem_cons_self
      · rw [List.mem_singleton.mp hbinding] at hc
        rw [eq_handOn_of_holds hc]
        exact List.mem_cons_of_mem _ List.mem_cons_self
    · exact absurd hresult List.not_mem_nil

/-- The form is evaluated twice, its closures are bound to `f` and `g`, and `(f g)` is evaluated.
In the scope of this call `f` is unbound, but not `g` and `a`, although the closure that they are
bound to has the same code. -/
theorem closures_identified_twins : ∃ moments w m scope,
    History moments w ∧ m ∈ moments ∧ m.Binds (handOn 1) scope ∧
      scope.bindings = [("f", .closure (handOn 1)), ("g", .closure (handOn 2)),
        ("a", .closure (handOn 2))] ∧
      (handOn 1).code = (handOn 2).code ∧
      (scope.unbindOrigin 1).bindings = [("g", .closure (handOn 2)), ("a", .closure (handOn 2))] ∧
      ClosuresIdentified moments w := by
  obtain ⟨moments, hbound⟩ := exists_history_twinsWorld
  have hcallForm : (Node.form [.symbol "f", .symbol "g"]).Recorded [] := by
    simp [recorded_form_iff, Node.Recorded.symbol]
  have hcall := hbound.evaluated 200 (World.knows_of_recorded_nil hcallForm _) 0 rfl []
  have hplain : ∀ form : CoreForm, Node.symbol "f" ≠ .symbol form.name := by
    intro form heq
    have hname := CoreForm.ofName?_name form
    rw [← Node.symbol.inj heq] at hname
    cases hname
  exact ⟨_, _, ⟨twinsWorld, 200, 201, .form [.symbol "f", .symbol "g"],
      ⟨⟨[("f", .closure (handOn 1)), ("g", .closure (handOn 2))], []⟩, 3, []⟩⟩, _, hcall,
    Or.inr ⟨rfl, rfl, .refl _⟩, ⟨200, [.symbol "g"], _, _, _, rfl,
      ⟨.symbol "f", _, _, ⟨_, _, rfl, rfl⟩, hplain, rfl, rfl, rfl⟩, rfl, rfl⟩, rfl, rfl, rfl,
    closures_identified hcall⟩

end EntityLisp
