import EntityLisp.Proofs.Avoids
import EntityLisp.Proofs.Captured
import EntityLisp.Proofs.ReadBack
import EntityLisp.Proofs.Undeclared

/-!
# Declared traits are not seen

`Node.forget` drops from a node what a program cannot see of it: the traits in the scopes that its
closures have captured, however deep they lie, and, with a renumbering, the origins of these
closures. Two nodes are the same for every program if nothing else is different in them
(`alike_iff_forget_eq`).

* `traits_unseen`: **traits have no influence on values.** In scopes that differ in traits only, a
  node evaluates to the same error, or to values that differ in captured traits only; so whatever
  an interpreter has evaluated before, a later source gives the same but for captured traits and
  the numbers of new closures.
-/

namespace EntityLisp

open Node Run

/-! ### Forgetting traits -/

mutual

/-- **A node without the traits that its closures have captured,** where `origin` renumbers the
closures. -/
def Node.forget (origin : Nat → Nat) : Node → Node
  | .form items => .form (forgetItems origin items)
  | .entity e => .entity (forgetEntity origin e)
  | .entities es joined => .entities (forgetEntities origin es) joined
  | .closure ⟨params, returns, body, ⟨bindings, _⟩, fixed, number⟩ =>
    .closure ⟨params, returns, body.forget origin, ⟨forgetBindings origin bindings, []⟩, fixed,
      origin number⟩
  | node => node

/-- The items of a form, without captured traits. -/
def forgetItems (origin : Nat → Nat) : List Node → List Node
  | [] => []
  | item :: rest => item.forget origin :: forgetItems origin rest

/-- An entity, without captured traits. -/
def forgetEntity (origin : Nat → Nat) : Entity Node → Entity Node
  | ⟨kind, payload, attrs⟩ => ⟨kind, payload.forget origin, forgetBindings origin attrs⟩

/-- The entities of a list, without captured traits. -/
def forgetEntities (origin : Nat → Nat) : List (Entity Node) → List (Entity Node)
  | [] => []
  | first :: rest => forgetEntity origin first :: forgetEntities origin rest

/-- Names with their values, without captured traits. -/
def forgetBindings (origin : Nat → Nat) : List (String × Node) → List (String × Node)
  | [] => []
  | (name, value) :: rest => (name, value.forget origin) :: forgetBindings origin rest

end

/-- **A scope without traits,** neither its own nor captured ones. -/
def Scope.forget (origin : Nat → Nat) (scope : Scope Node) : Scope Node :=
  ⟨forgetBindings origin scope.bindings, []⟩

/-- The value of an outcome, without captured traits, or its error. -/
def forgetfulAnswer (origin : Nat → Nat) :
    EStateM.Result EvalError RunState Node → Except EvalError Node
  | .ok value _ => .ok (value.forget origin)
  | .error error _ => .error error

/-! ### Nodes that differ in traits only -/

/-- A value of a table is smaller than the table. -/
theorem sizeOf_value_lt {entry : String × Node} {table : List (String × Node)}
    (h : entry ∈ table) : sizeOf entry.2 < sizeOf table := by
  have hentry := List.sizeOf_lt_of_mem h
  obtain ⟨name, value⟩ := entry
  rw [Prod.mk.sizeOf_spec] at hentry
  show sizeOf value < sizeOf table
  omega

/-- **Induction along all parts of a node,** captured ones included. -/
theorem Node.partsInduction {motive : Node → Prop}
    (plain : ∀ node, node.isPlain = true → motive node) (symbol : ∀ name, motive (.symbol name))
    (form : ∀ items, (∀ item ∈ items, motive item) → motive (.form items))
    (entity : ∀ e : Entity Node, motive e.payload → (∀ attr ∈ e.attrs, motive attr.2) →
      motive (.entity e))
    (entities : ∀ es joined, (∀ e ∈ es, motive (.entity e)) → motive (.entities es joined))
    (closure : ∀ c : Closure Node, motive c.body → (∀ binding ∈ c.scope.bindings,
      motive binding.2) → motive (.closure c)) (node : Node) : motive node := by
  have ih : ∀ part : Node, sizeOf part < sizeOf node → motive part := fun part _ =>
    partsInduction plain symbol form entity entities closure part
  cases node with
  | form items => exact form items fun item hitem => ih item (sizeOf_lt_of_mem hitem)
  | entity e =>
    obtain ⟨kind, payload, attrs⟩ := e
    rw [Node.entity.sizeOf_spec, Entity.mk.sizeOf_spec] at ih
    refine entity _ (ih payload (by omega)) fun attr hattr => ih attr.2 ?_
    have hlt : sizeOf attr.2 < sizeOf attrs := sizeOf_value_lt hattr
    omega
  | entities es joined =>
    refine entities es joined fun e he => ih (.entity e) ?_
    have hlt := List.sizeOf_lt_of_mem he
    rw [Node.entities.sizeOf_spec, Node.entity.sizeOf_spec]
    omega
  | closure c =>
    obtain ⟨params, returns, body, ⟨bindings, traits⟩, fixed, number⟩ := c
    rw [Node.closure.sizeOf_spec, Closure.mk.sizeOf_spec, Scope.mk.sizeOf_spec] at ih
    refine closure _ (ih body (by omega)) fun binding hbinding => ih binding.2 ?_
    have hlt : sizeOf binding.2 < sizeOf bindings := sizeOf_value_lt hbinding
    omega
  | symbol name => exact symbol name
  | _ => exact plain _ rfl
termination_by sizeOf node

section Forget

variable {f g : Nat → Nat}

theorem map_eq_map_iff {α β γ : Type} {f : α → γ} {g : β → γ} {xs : List α} {ys : List β} :
    xs.map f = ys.map g ↔ List.Forall₂ (fun x y => f x = g y) xs ys := by
  rw [← List.forall₂_eq_eq_eq, List.forall₂_map_left_iff, List.forall₂_map_right_iff]

theorem forall₂_of_mem {α β : Type} {R S : α → β → Prop} {xs : List α} {ys : List β}
    (h : List.Forall₂ R xs ys) (hmem : ∀ x ∈ xs, ∀ y, R x y → S x y) : List.Forall₂ S xs ys := by
  induction h with
  | nil => exact .nil
  | @cons x y xs ys hfirst _ ih =>
    exact .cons (hmem x List.mem_cons_self y hfirst)
      (ih fun x hx => hmem x (List.mem_cons_of_mem _ hx))

theorem forgetItems_eq_iff {items items' : List Node} :
    forgetItems f items = forgetItems g items' ↔
      List.Forall₂ (fun item item' => item.forget f = item'.forget g) items items' := by
  have hmap : ∀ (f : Nat → Nat) (items : List Node),
      forgetItems f items = items.map (forget f) := by
    intro f items
    induction items with
    | nil => rfl
    | cons item rest ih => rw [forgetItems, ih, List.map_cons]
  rw [hmap, hmap, map_eq_map_iff]

theorem forgetEntities_eq_iff {es es' : List (Entity Node)} :
    forgetEntities f es = forgetEntities g es' ↔
      List.Forall₂ (fun e e' => forgetEntity f e = forgetEntity g e') es es' := by
  have hmap : ∀ (f : Nat → Nat) (es : List (Entity Node)),
      forgetEntities f es = es.map (forgetEntity f) := by
    intro f es
    induction es with
    | nil => rfl
    | cons e rest ih => rw [forgetEntities, ih, List.map_cons]
  rw [hmap, hmap, map_eq_map_iff]

theorem forgetBindings_eq_iff {table table' : Table String Node} :
    forgetBindings f table = forgetBindings g table' ↔
      Table.Pointwise (fun value value' => value.forget f = value'.forget g) table table' := by
  have hmap : ∀ (f : Nat → Nat) (table : Table String Node),
      forgetBindings f table = table.map fun entry => (entry.1, entry.2.forget f) := by
    intro f table
    induction table with
    | nil => rfl
    | cons entry rest ih =>
      obtain ⟨name, value⟩ := entry
      rw [forgetBindings, ih, List.map_cons]
  rw [hmap, hmap, map_eq_map_iff]
  simp only [Prod.mk.injEq]
  exact Iff.rfl

end Forget

/-- The correspondence of two runs that differ in traits and in the numbers of closures. -/
def Correspondence.renumber (origin : Nat → Nat) (injective : Function.Injective origin) :
    Correspondence where
  origin := origin
  injective := injective
  hidden := []
  not_reserved := not_reserved_of_mem_nil
  traits := False

section Renumber

variable {origin : Nat → Nat} {injective : Function.Injective origin}

/-- Under such a correspondence no name is hidden. -/
theorem visible_renumber (table : Table String Node) :
    Table.visible (Correspondence.renumber origin injective).hidden table = table := by
  rw [Table.visible, List.filter_eq_self]
  exact fun _ _ => rfl

theorem Node.Alike.forget_eq {node node' : Node}
    (h : Alike (.renumber origin injective) node node') : node.forget origin = node'.forget id := by
  refine Alike.induction (motive := fun node node' => node.forget origin = node'.forget id)
    ?plain (fun _ _ => rfl) ?form ?entity ?entities ?closure h
  case plain =>
    intro node hplain
    cases node <;> first | rfl | cases hplain
  case form =>
    intro items items' _ ih
    rw [Node.forget, Node.forget, forgetItems_eq_iff.mpr ih]
  case entity =>
    rintro ⟨kind, payload, attrs⟩ ⟨kind', payload', attrs'⟩ h ihpayload ihattrs
    obtain rfl : kind = kind' := h.kind
    rw [Node.forget, Node.forget, forgetEntity, forgetEntity, ihpayload,
      forgetBindings_eq_iff.mpr ihattrs]
  case entities =>
    intro es es' joined _ ih
    have heach : forgetEntities origin es = forgetEntities id es' :=
      forgetEntities_eq_iff.mpr (List.Forall₂.imp (fun _ _ he => Node.entity.inj he) ih)
    rw [Node.forget, Node.forget, heach]
  case closure =>
    rintro ⟨params, returns, body, ⟨bindings, traits⟩, fixed, number⟩
      ⟨params', returns', body', ⟨bindings', traits'⟩, fixed', number'⟩ h ihbody ihbindings
    rw [visible_renumber, visible_renumber] at ihbindings
    obtain ⟨rfl, rfl, rfl, -, rfl, -⟩ := h
    rw [Node.forget, Node.forget, ihbody, forgetBindings_eq_iff.mpr ihbindings]
    rfl

/-- What is the same item by item is alike item by item. -/
theorem alike_of_forget_eq {node node' : Node} (h : node.forget origin = node'.forget id) :
    Alike (.renumber origin injective) node node' := by
  induction node using Node.partsInduction generalizing node' with
  | plain node hplain =>
    cases node <;> cases hplain <;> cases node' <;> cases h <;> exact .plain rfl
  | symbol name =>
    cases node' <;> cases h
    exact .symbol List.not_mem_nil
  | form items ih =>
    cases node' with
    | form items' =>
      rw [Node.forget, Node.forget, Node.form.injEq, forgetItems_eq_iff] at h
      exact alike_form_iff.mpr (forall₂_of_mem h fun item hitem item' heq => ih item hitem heq)
    | _ => cases h
  | entity e ihpayload ihattrs =>
    cases node' with
    | entity e' =>
      obtain ⟨kind, payload, attrs⟩ := e
      obtain ⟨kind', payload', attrs'⟩ := e'
      rw [Node.forget, Node.forget, Node.entity.injEq, forgetEntity, forgetEntity,
        Entity.mk.injEq, forgetBindings_eq_iff] at h
      refine alike_entity_iff.mpr ⟨h.1, ihpayload h.2.1, ?_⟩
      exact forall₂_of_mem h.2.2 fun attr hattr _ heq => ⟨heq.1, ihattrs attr hattr heq.2⟩
    | _ => cases h
  | entities es joined ih =>
    cases node' with
    | entities es' joined' =>
      rw [Node.forget, Node.forget, Node.entities.injEq, forgetEntities_eq_iff] at h
      refine alike_entities_iff.mpr ⟨h.2, forall₂_of_mem h.1 fun e he e' heq => ?_⟩
      exact alike_entity_iff.mp (ih e he (congrArg Node.entity heq))
    | _ => cases h
  | closure c ihbody ihbindings =>
    cases node' with
    | closure c' =>
      obtain ⟨params, returns, body, ⟨bindings, traits⟩, fixed, number⟩ := c
      obtain ⟨params', returns', body', ⟨bindings', traits'⟩, fixed', number'⟩ := c'
      rw [Node.forget, Node.forget, Node.closure.injEq, Closure.mk.injEq, Scope.mk.injEq,
        forgetBindings_eq_iff] at h
      obtain ⟨hparams, hreturns, hbody, ⟨hbindings, -⟩, hfixed, hnumber⟩ := h
      refine alike_closure_iff.mpr ⟨hparams, hreturns, hfixed, ihbody hbody, hnumber.symm,
        ?_, fun htraits => htraits.elim⟩
      rw [visible_renumber, visible_renumber]
      exact forall₂_of_mem hbindings fun binding hbinding _ heq =>
        ⟨heq.1, ihbindings binding hbinding heq.2⟩
    | _ => cases h

/-- **Nodes that differ in captured traits and numbers of closures only** are those that are the
same without them. -/
theorem alike_iff_forget_eq {node node' : Node} :
    Alike (.renumber origin injective) node node' ↔ node.forget origin = node'.forget id :=
  ⟨Node.Alike.forget_eq, alike_of_forget_eq⟩

theorem Scope.agree_iff_forget_eq {scope scope' : Scope Node} :
    scope.Agree (.renumber origin injective) scope' ↔ scope.forget origin = scope'.forget id := by
  have halike : Alike (.renumber origin injective) =
      fun node node' => node.forget origin = node'.forget id :=
    funext₂ fun _ _ => propext alike_iff_forget_eq
  have hbindings : Table.Pointwise (Alike (.renumber origin injective)) scope.bindings
      scope'.bindings ↔ scope.forget origin = scope'.forget id := by
    rw [Scope.forget, Scope.forget, Scope.mk.injEq, forgetBindings_eq_iff, halike]
    exact (and_iff_left rfl).symm
  constructor
  · intro h
    have hpointwise := h.bindings
    rw [visible_renumber, visible_renumber] at hpointwise
    exact hbindings.mp hpointwise
  · intro h
    refine ⟨?_, fun htraits => htraits.elim⟩
    rw [visible_renumber, visible_renumber]
    exact hbindings.mpr h

/-- Outcomes that are alike give the same without captured traits. -/
theorem OutcomesAlike.forgetfulAnswer_eq {S : Scope Node → Scope Node → Prop}
    {outcome outcome' : EStateM.Result EvalError RunState Node}
    (h : OutcomesAlike (.renumber origin injective) S (Alike (.renumber origin injective)) outcome
      outcome') : forgetfulAnswer origin outcome = forgetfulAnswer id outcome' := by
  cases h with
  | ok hvalue => exact congrArg Except.ok hvalue.forget_eq
  | error => rfl

end Renumber

/-! ### Sources after different histories -/

/-- **A source from before:** the closures that it holds, if it is a tree, have numbers below a
bound. -/
def Source.IsBefore (bound : Nat) : Source → Prop
  | .text _ => True
  | .tree node => node.Avoids [] bound

/-- **Two outcomes that are the same but for captured traits and the numbers of closures,** where
those from before, with numbers below the bound, are the same in both. -/
def SameAnswers (bound : Nat) (outcome outcome' : EStateM.Result EvalError RunState Node) : Prop :=
  ∃ f g : Nat → Nat, Function.Injective f ∧ Function.Injective g ∧
    (∀ number < bound, f number = number ∧ g number = number) ∧
      forgetfulAnswer f outcome = forgetfulAnswer g outcome'

/-- A tree with the leaves of program text holds no closures. -/
theorem Node.Avoids.of_isWritable {node : Node} (h : node.Leaves IsWritable) (bound : Nat) :
    node.Avoids [] bound := by
  induction h with
  | form _ ih => exact .form ih
  | @leaf node hleaf hwritable =>
    cases node with
    | symbol name => exact .symbol List.not_mem_nil
    | nil | bool | int | float | str | keyword => exact .plain rfl
    | form items => cases hleaf
    | _ =>
      rcases hwritable with hreadable | ⟨negative, heq⟩
      · exact hreadable.elim
      · cases heq

/-- **A source from before two runs part** runs alike in both. -/
theorem matches_run [Stack] {r : Correspondence} {bound : Nat} (hr : r.Keeps [] bound) (limit : Nat)
    {source : Source} (hsource : source.IsBefore bound) :
    Matches r (Scope.Agree r) (Alike r) (source.run limit) (source.run limit) := by
  have heval : MatchingEvals r (evaluate limit) (evaluate limit) := matchingEvals_eval limit _
  cases source with
  | tree node => exact heval node node (hr.alike hsource)
  | text program =>
    show Matches r (Scope.Agree r) (Alike r) (evaluateText limit program)
      (evaluateText limit program)
    unfold evaluateText
    split
    · exact matches_throw _
    · next forms hforms =>
      refine matches_evalSequence (heval.forall₂ (hr.forall₂ fun form hform => ?_)) .nil
      exact .of_isWritable (writable_of_mem_readProgram hforms hform).2.2 bound

theorem shift_origin_add (bound more later : Nat) :
    (Correspondence.shift bound more).origin (bound + later) = bound + more + later := by
  show (if bound + later < bound then _ else _) = _
  rw [if_neg (by omega)]
  omega

/-- The run that has made fewer closures before is renumbered. -/
theorem exists_forgetfulAnswer_run_eq [Stack] {state state' : RunState}
    (hscope : state.scope.bindings = []) (hscope' : state'.scope.bindings = [])
    (hle : state.nextOrigin ≤ state'.nextOrigin) {source : Source}
    (hsource : source.IsBefore state.nextOrigin) (limit : Nat) :
    ∃ f : Nat → Nat, Function.Injective f ∧ (∀ number < state.nextOrigin, f number = number) ∧
      forgetfulAnswer f (source.run limit state) =
        forgetfulAnswer id (source.run limit state') := by
  let r := Correspondence.shift state.nextOrigin (state'.nextOrigin - state.nextOrigin)
  have hr : r.Keeps [] state.nextOrigin := keeps_shift _ _
  have hstep : InStep r (Scope.Agree r) state state' := by
    refine ⟨⟨?_, fun htraits => htraits.elim⟩, fun later => ?_⟩
    · rw [hscope, hscope']
      exact .nil
    · rw [shift_origin_add, Nat.add_sub_cancel' hle]
  have hrun : OutcomesAlike (.renumber r.origin r.injective) (Scope.Agree r) (Alike r)
      (source.run limit state) (source.run limit state') := matches_run hr limit hsource _ _ hstep
  exact ⟨r.origin, r.injective, hr.origin_eq, hrun.forgetfulAnswer_eq⟩

/-- **Traits are not seen.** A node evaluates in two scopes that differ in their own and in captured
traits only to the same error, or to values that differ in captured traits only. So of two
interpreters, whatever they have evaluated and declared before, a source gets the same error or
the same value, but for captured traits and the numbers of new closures. -/
theorem traits_unseen [Stack] :
    (∀ limit levels node origin journal journal' (scope scope' : Scope Node),
      scope.forget id = scope'.forget id →
        forgetfulAnswer id (eval limit levels node ⟨scope, origin, journal⟩) =
          forgetfulAnswer id (eval limit levels node ⟨scope', origin, journal'⟩)) ∧
    ∀ limit (source : Source) calls calls' state state',
      state = stateAfter (.initial .empty) calls → state' = stateAfter (.initial .empty) calls' →
        source.IsBefore (min state.nextOrigin state'.nextOrigin) →
          SameAnswers (min state.nextOrigin state'.nextOrigin) (source.run limit state)
            (source.run limit state') := by
  refine ⟨fun limit levels node origin journal journal' scope scope' hscope => ?_,
    fun limit source calls calls' state state' hstate hstate' hsource => ?_⟩
  · let r := Correspondence.renumber id Function.injective_id
    have hstep : InStep r (Scope.Agree r) ⟨scope, origin, journal⟩ ⟨scope', origin, journal'⟩ :=
      ⟨Scope.agree_iff_forget_eq.mpr hscope, fun _ => rfl⟩
    exact (matchingEvals_eval limit levels node node (alike_of_forget_eq rfl) _ _
      hstep).forgetfulAnswer_eq
  · -- no source binds a name at the top level
    have hscope : state.scope.bindings = [] :=
      hstate ▸ (declaredFrom_stateAfter (.initial .empty) calls).bindings_eq
    have hscope' : state'.scope.bindings = [] :=
      hstate' ▸ (declaredFrom_stateAfter (.initial .empty) calls').bindings_eq
    rcases Nat.le_total state.nextOrigin state'.nextOrigin with hle | hle
    · rw [Nat.min_eq_left hle] at hsource ⊢
      obtain ⟨f, hf, hfixes, hanswer⟩ :=
        exists_forgetfulAnswer_run_eq hscope hscope' hle hsource limit
      exact ⟨f, id, hf, Function.injective_id, fun number h => ⟨hfixes number h, rfl⟩, hanswer⟩
    · rw [Nat.min_eq_right hle] at hsource ⊢
      obtain ⟨g, hg, hfixes, hanswer⟩ :=
        exists_forgetfulAnswer_run_eq hscope' hscope hle hsource limit
      exact ⟨id, g, Function.injective_id, hg, fun number h => ⟨rfl, hfixes number h⟩,
        hanswer.symm⟩

/-- The function form `(lambda () returns Integer x)`. -/
def readingForm : Node :=
  .form [.symbol "lambda", .form [], .symbol "returns", .symbol "Integer", .symbol "x"]

/-- A scope with traits in which `f` gives that function, and has captured the same traits. -/
def makerScope (traits : Table TypeTag TraitSet) : Scope Node :=
  ⟨[("f", .closure ⟨[], .lambda, readingForm, ⟨[("x", .entity (integerEntity 1))], traits⟩, true,
    0⟩)], traits⟩

/-- Traits of the integers. -/
def numericTraits : Table TypeTag TraitSet := [(.integer, .ofTest (· == .numeric))]

/-- The call `(f)` gives functions that have captured different traits, and nothing else in them is
different; nor is it in the function that two interpreters make of which one has declared a
trait and made a function before. -/
theorem traits_unseen_readingForm :
    (makerScope []).forget id = (makerScope numericTraits).forget id ∧
      forgetfulAnswer id (eval 200 201 (.form [.symbol "f"]) ⟨makerScope [], 1, []⟩) =
        forgetfulAnswer id (eval 200 201 (.form [.symbol "f"]) ⟨makerScope numericTraits, 1, []⟩) ∧
      (stateAfter (.initial .empty) []).nextOrigin = 1 ∧
      (stateAfter (.initial .empty) [(200, .tree numericImpl),
        (9, .tree incrementProgram)]).nextOrigin = 2 ∧
      (Source.tree readingForm).IsBefore 1 ∧
      SameAnswers 1 ((Source.tree readingForm).run 200 (stateAfter (.initial .empty) []))
        ((Source.tree readingForm).run 200 (stateAfter (.initial .empty)
          [(200, .tree numericImpl), (9, .tree incrementProgram)])) := by
  have hbefore : (Source.tree readingForm).IsBefore 1 := by
    simp [Source.IsBefore, readingForm, avoids_form_iff, avoids_symbol_iff]
  have hnext : (stateAfter (.initial .empty) []).nextOrigin = 1 := rfl
  have hnext' : (stateAfter (.initial .empty) [(200, .tree numericImpl),
      (9, .tree incrementProgram)]).nextOrigin = 2 := by rfl
  obtain ⟨hscopes, hhistories⟩ := traits_unseen
  have hsame := hhistories 200 (.tree readingForm) [] [(200, .tree numericImpl),
    (9, .tree incrementProgram)] _ _ rfl rfl (by rw [hnext, hnext']; exact hbefore)
  rw [hnext, hnext'] at hsame
  exact ⟨rfl, hscopes 200 201 (.form [.symbol "f"]) 1 [] [] (makerScope []) _ rfl, hnext, hnext',
    hbefore, hsame⟩

end EntityLisp
