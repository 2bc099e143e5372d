import EntityLisp.Proofs.AttributeEntries
import EntityLisp.Proofs.OperandForms

/-!
# Nouns that are introduced in a role

The forms `(Subject value key item ...)` and `(Object value key item ...)` evaluate their items and
then the `entity` form that has the values in place of the items and the role behind them.

* `eval_roleForm`: such a form evaluates like that `entity` form.
* `buildEntity_cases`: what an `entity` form gives is an error or has the type and the attributes
  that it asks for.
* `role_forms`: **the noun that results has its role, whatever role is given,** and else the values
  that are given last; of a missing item nothing is evaluated.
-/

namespace EntityLisp

open Node Run

/-! ### The forms -/

/-- **A form that introduces a noun** in a role. -/
def roleForm (role : Role) (value : Node) (trailing : List Node) : Node :=
  .form (.symbol role.head :: value :: trailing)

/-- **The `entity` form of a noun** with attributes, and the role behind them. -/
def nounForm (role : Role) (value : Node) (given : List (Node × Node)) : Node :=
  .form [.symbol CoreForm.entity.name, .symbol TypeTag.noun.name, value,
    .form (.symbol mapHead :: alternate (given ++ [(.keyword "role", .str role.value)]))]

theorem roleArguments_alternate (role : Role) (value : Node) (given : List (Node × Node)) :
    roleArguments role value (alternate given) =
      [.symbol TypeTag.noun.name, value,
        .form (.symbol mapHead :: alternate (given ++ [(.keyword "role", .str role.value)]))] := by
  rw [alternate_append]
  rfl

section Evaluator

variable {eval argEval : Node → Run Node}

/-- The items among keys and items are evaluated in order. -/
theorem evalValues_of_evaluatesInOrder {pairs : List (Node × Node)} {values : List Node}
    {state between : RunState}
    (h : EvaluatesInOrder eval (pairs.map Prod.snd) values state between) :
    evalValues eval (alternate pairs) state =
      .ok (alternate ((pairs.map Prod.fst).zip values)) between := by
  induction pairs generalizing values state with
  | nil =>
    cases h
    rfl
  | cons pair rest ih =>
    obtain ⟨key, item⟩ := pair
    cases h with
    | cons hfirst hothers =>
      rw [alternate_cons, evalValues_cons, bind_of_ok hfirst, bind_of_ok (ih hothers)]
      rfl

/-- A role form is freed of sugar by evaluating its items. -/
theorem desugar_role {role : Role} {value : Node} {trailing : List Node}
    (h : unpairedKey? trailing = none) : desugar eval (.symbol role.head) (value :: trailing) =
      evalValues eval trailing >>= fun attrs =>
        pure (.ok (entityForm (roleArguments role value attrs))) := by
  unfold desugar
  simp only [sugar?_eq_role_iff.mpr rfl, h]

/-- **A role form goes on** with the `entity` form once its items are evaluated. -/
theorem evalNode_roleForm {role : Role} {value : Node} {pairs : List (Node × Node)}
    {values : List Node} {state between : RunState}
    (h : EvaluatesInOrder eval (pairs.map Prod.snd) values state between) :
    evalNode eval argEval (roleForm role value (alternate pairs)) state =
      evalNode eval argEval (nounForm role value ((pairs.map Prod.fst).zip values)) between := by
  have hfreed : desugar eval (.symbol role.head) (value :: alternate pairs) state =
      .ok (.ok (entityForm (roleArguments role value
        (alternate ((pairs.map Prod.fst).zip values))))) between := by
    rw [desugar_role (unpairedKey?_alternate pairs), bind_of_ok (evalValues_of_evaluatesInOrder h)]
    rfl
  rw [roleForm, nounForm, evalNode_form, evalNode_form, bind_of_ok hfreed,
    desugar_of_sugar?_eq_none (sugar?_core .entity), pure_bind, roleArguments_alternate]
  rfl

/-- **Of a missing item nothing is evaluated.** -/
theorem evalNode_roleForm_of_unpaired {role : Role} {value key : Node} {trailing : List Node}
    (h : unpairedKey? trailing = some key) (state : RunState) :
    evalNode eval argEval (roleForm role value trailing) state =
      .ok (Failure.unpairedKey key.shown).toNode state := by
  have hfreed : desugar eval (.symbol role.head) (value :: trailing) =
      pure (.error (.unpairedKey key.shown)) := by
    unfold desugar
    simp only [sugar?_eq_role_iff.mpr rfl, h]
  rw [roleForm, evalNode_form, hfreed, pure_bind]
  rfl

/-! ### What an `entity` form gives -/

/-- The attributes that a node asks for, if it is a `map` form, are built. -/
def HasAttributes (eval : Node → Run Node) (attrs? : Option Node) (attrs : Table String Node) :
    Prop :=
  match attributePairs? attrs? with
  | none => attrs = []
  | some pairs => ∃ state after, buildAttributes eval pairs state = .ok (.ok attrs) after

theorem refuseEntity_eq_ok {entity : Entity Node} {result : Node} {state after : RunState}
    (h : refuseEntity entity state = .ok result after) : result = .entity entity := by
  cases h
  rfl

theorem finishEntity_cases {typeName : String} {payload result : Node} {attrs? : Option Node}
    {state after : RunState}
    (h : finishEntity eval typeName payload attrs? state = .ok result after) :
    ∃ e, result = .entity e ∧
      (e.isError = true ∨ e.kind.name = typeName ∧ HasAttributes eval attrs? e.attrs) := by
  cases hmade : makeEntity typeName payload [] with
  | error failure =>
    simp only [finishEntity, hmade] at h
    exact ⟨_, refuseEntity_eq_ok h, Or.inl failure.isError_toEntity⟩
  | ok entity =>
    obtain ⟨hkind, -, hattrs⟩ := kind_of_makeEntity hmade
    by_cases herror : entity.isError = true
    · simp only [finishEntity, hmade, herror, ↓reduceIte] at h
      exact ⟨entity, refuseEntity_eq_ok h, Or.inl herror⟩
    · cases hpairs : attributePairs? attrs? with
      | none =>
        simp only [finishEntity, hmade, herror, hpairs] at h
        cases h
        refine ⟨entity, rfl, Or.inr ⟨hkind, ?_⟩⟩
        rw [HasAttributes, hpairs]
        exact hattrs
      | some pairs =>
        simp only [finishEntity, hmade, herror, hpairs] at h
        obtain ⟨built, between, hbuilt, h⟩ := bind_eq_ok_iff.mp h
        cases built with
        | error failure =>
          cases h
          exact ⟨_, rfl, Or.inl failure.isError_toEntity⟩
        | ok attrs =>
          cases h
          refine ⟨{ entity with attrs := attrs }, rfl, Or.inr ⟨hkind, ?_⟩⟩
          rw [HasAttributes, hpairs]
          exact ⟨state, _, hbuilt⟩

/-- **What an `entity` form gives** is an error, or has the type that is named and the attributes
that are asked for. -/
theorem buildEntity_cases {kind value result : Node} {attrs? : Option Node}
    {state after : RunState} (h : buildEntity eval kind value attrs? state = .ok result after) :
    ∃ e, result = .entity e ∧
      (e.isError = true ∨ e.kind.name = typeNameOf kind ∧ HasAttributes eval attrs? e.attrs) := by
  obtain ⟨payload, between, -, h⟩ := bind_eq_ok_iff.mp h
  split at h
  · next e =>
    split at h
    · next herror =>
      cases h
      exact ⟨e, rfl, Or.inl herror⟩
    · exact finishEntity_cases h
  · exact finishEntity_cases h

/-- The noun of an `entity` form has the attributes that are kept of what is given, and its role. -/
theorem nounForm_cases {role : Role} {value result : Node} {given : List (Node × Node)}
    {state after : RunState}
    (h : evalNode eval argEval (nounForm role value given) state = .ok result after) :
    ∃ e, result = .entity e ∧ (e.isError = true ∨ e.kind = .noun ∧ ∃ kept start last,
      AttributesKept eval (given ++ [(.keyword "role", .str role.value)]) kept start last ∧
        e.attrs = Table.overlay kept []) := by
  rw [nounForm, evalNode_core, bind_of_ok (report_apply _ state)] at h
  obtain ⟨e, rfl, herror | ⟨hkind, hattrs⟩⟩ := buildEntity_cases h
  · exact ⟨e, rfl, Or.inl herror⟩
  · refine ⟨e, rfl, Or.inr ⟨?_, ?_⟩⟩
    · have hname : TypeTag.ofName? e.kind.name = TypeTag.ofName? TypeTag.noun.name := by
        rw [hkind]
        rfl
      rw [TypeTag.ofName?_name, TypeTag.ofName?_name] at hname
      exact Option.some.inj hname
    · rw [HasAttributes, attributePairs?_eq_some_iff.mpr rfl] at hattrs
      obtain ⟨start, last, hbuilt⟩ := hattrs
      rw [buildAttributes, unpairedKey?_alternate] at hbuilt
      obtain ⟨kept, hkept, heq⟩ := enterAttributes_eq_ok_iff.mp hbuilt
      exact ⟨kept, start, last, hkept, heq⟩

end Evaluator

/-! ### The noun -/

/-- **A noun introduced in a role** with attributes as given: the role is that of the form, and
every other name holds the value that is given last under it, where an adjective is an entity of
that type. -/
structure Entity.IsIntroduced (role : Role) (given : List (Node × Node)) (e : Entity Node) :
    Prop where
  kind_eq : e.kind = .noun
  role_eq : Table.get? "role" e.attrs = some (.str role.value)
  given_eq : ∀ name, name ≠ "role" → name ≠ adjectiveKey →
    Table.get? name e.attrs = lastGiven? name given
  hasAdjective : (Table.get? adjectiveKey e.attrs).isSome = (lastGiven? adjectiveKey given).isSome
  isAdjective : ∀ held, Table.get? adjectiveKey e.attrs = some held → held.isAdjective = true

/-- What is given last under a name is among what is given. -/
theorem mem_of_lastGiven? {name : String} {pairs : List (Node × Node)} {value : Node}
    (h : lastGiven? name pairs = some value) : ∃ key, (key, value) ∈ pairs := by
  induction pairs with
  | nil => cases h
  | cons pair rest ih =>
    obtain ⟨key, first⟩ := pair
    rw [lastGiven?] at h
    cases hrest : lastGiven? name rest with
    | some later =>
      rw [hrest] at h
      obtain ⟨key', hmem⟩ := ih (hrest.trans h)
      exact ⟨key', List.mem_cons_of_mem _ hmem⟩
    | none =>
      rw [hrest, Option.none_or] at h
      split at h
      · cases h
        exact ⟨key, List.mem_cons_self⟩
      · cases h

section Kept

variable {eval : Node → Run Node} {role : Role} {given : List (Node × Node)}
  {kept : List (String × Node)} {state after : RunState}

/-- Behind what is given stands the role. -/
theorem lastGiven?_append_role (name : String) :
    lastGiven? name (given ++ [(.keyword "role", .str role.value)]) =
      if name = "role" then some (.str role.value) else lastGiven? name given := by
  rw [lastGiven?_append_singleton]
  have hkey : (Node.keyword "role").mapKey? = some name ↔ name = "role" := by
    rw [mapKey?, Option.some.injEq, eq_comm]
  simp only [hkey]

/-- **What a name holds** of what is given with a role behind it. -/
theorem AttributesKept.rel_given
    (h : AttributesKept eval (given ++ [(.keyword "role", .str role.value)]) kept state after)
    (name : String) : Option.Rel (IsHeld eval name)
      (if name = "role" then some (.str role.value) else lastGiven? name given)
      (Table.get? name (Table.overlay kept [])) := by
  have hheld : Table.get? name (Table.overlay kept []) = Table.get? name kept.reverse := by
    rw [Table.get?_overlay]
    exact Option.or_none
  have hrel := h.rel_lastGiven? name
  rwa [lastGiven?_append_role, ← hheld] at hrel

/-- **The noun that is built** of what is given with a role behind it is introduced in the role. -/
theorem isIntroduced_of_kept
    (h : AttributesKept eval (given ++ [(.keyword "role", .str role.value)]) kept state after)
    {e : Entity Node} (hkind : e.kind = .noun) (hattrs : e.attrs = Table.overlay kept []) :
    e.IsIntroduced role given := by
  -- a name that is not the adjective holds what is given
  have hwritten : ∀ name, name ≠ adjectiveKey → Table.get? name e.attrs =
      if name = "role" then some (.str role.value) else lastGiven? name given := by
    intro name hname
    have hrel := h.rel_given name
    rw [hattrs]
    generalize (if name = "role" then some (.str role.value) else lastGiven? name given) = last,
      Table.get? name (Table.overlay kept []) = found at hrel ⊢
    cases hrel with
    | none => rfl
    | some hheld => rw [IsHeld, if_neg hname] at hheld; rw [hheld]
  have hadjective : Option.Rel (IsHeld eval adjectiveKey) (lastGiven? adjectiveKey given)
      (Table.get? adjectiveKey e.attrs) := by
    rw [hattrs]
    exact h.rel_given adjectiveKey
  refine ⟨hkind, ?_, fun name hrole hname => ?_, ?_, fun held hheld => ?_⟩
  · exact (hwritten "role" (by decide)).trans (if_pos rfl)
  · exact (hwritten name hname).trans (if_neg hrole)
  · generalize lastGiven? adjectiveKey given = last, Table.get? adjectiveKey e.attrs = found
      at hadjective
    cases hadjective <;> rfl
  · rw [hheld] at hadjective
    generalize lastGiven? adjectiveKey given = last at hadjective
    cases hadjective with
    | some hkept => exact ((if_pos rfl).mp hkept).1

end Kept

/-! ### Adjectives that are values -/

section Values

variable {limit levels : Nat} {nodes values : List Node} {state after : RunState}

/-- Well-formed nodes that evaluate in order in a well-formed scope give well-formed values. -/
theorem EvaluatesInOrder.isValue
    (h : EvaluatesInOrder (eval limit levels) nodes values state after)
    (hnodes : ∀ node ∈ nodes, node.IsProgram) (hscope : state.scope.IsFit) :
    ∀ value ∈ values, value.IsValue := by
  induction h with
  | nil state => exact fun value hvalue => absurd hvalue List.not_mem_nil
  | @cons node value nodes values state between after first others ih =>
    rw [List.forall_mem_cons] at hnodes ⊢
    have hfirst := (givesValues_eval limit levels node hnodes.1).of_ok hscope first
    exact ⟨hfirst.1, ih hnodes.2 hfirst.2⟩

/-- A well-formed value is held as it is. -/
theorem IsHeld.eq_of_isValue {name : String} {given held : Node}
    (h : IsHeld (eval limit levels) name given held) (hgiven : given.IsValue) : held = given := by
  unfold IsHeld at h
  split at h
  · obtain ⟨-, start, last, hrun⟩ := h
    cases levels with
    | zero => cases hrun
    | succ levels =>
      rw [eval_of_isValue hgiven] at hrun
      cases hrun
      rfl
  · exact h

/-- If all that is given is well formed, the adjective is the one that is given last. -/
theorem AttributesKept.adjective_eq {role : Role} {given : List (Node × Node)}
    {kept : List (String × Node)}
    (h : AttributesKept (eval limit levels) (given ++ [(.keyword "role", .str role.value)]) kept
      state after) (hgiven : ∀ pair ∈ given, pair.2.IsValue) :
    Table.get? adjectiveKey (Table.overlay kept []) = lastGiven? adjectiveKey given := by
  have hrel : Option.Rel (IsHeld (eval limit levels) adjectiveKey) (lastGiven? adjectiveKey given)
      (Table.get? adjectiveKey (Table.overlay kept [])) := h.rel_given adjectiveKey
  cases hlast : lastGiven? adjectiveKey given with
  | none =>
    rw [hlast] at hrel
    generalize Table.get? adjectiveKey (Table.overlay kept []) = found at hrel ⊢
    cases hrel
    rfl
  | some last =>
    obtain ⟨key, hmem⟩ := mem_of_lastGiven? hlast
    rw [hlast] at hrel
    generalize Table.get? adjectiveKey (Table.overlay kept []) = found at hrel ⊢
    cases hrel with
    | some hheld => rw [hheld.eq_of_isValue (hgiven _ hmem)]

end Values

/-! ### The law -/

/-- **Nouns in a role.** Let the items of a form that is headed by `Subject` or `Object` evaluate
one after the other. Then the form evaluates like the `entity` form of a noun with these values, and
behind them the role, where the last item has left the state. What results is an error entity, or a
noun that has this role, whatever other role is given, and holds under every other name the value
that is given last; its adjective is an entity of that type, and the very value that is given last
if the items and the scope are well formed.

If an item is missing, the form is an error whatever evaluation would do, and the state is as it
was. -/
theorem role_forms (role : Role) (value : Node) (limit levels : Nat) (state : RunState) :
    (∀ pairs values between,
      EvaluatesInOrder (eval limit levels) (pairs.map Prod.snd) values state between →
        eval limit (levels + 1) (roleForm role value (alternate pairs)) state =
          eval limit (levels + 1) (nounForm role value ((pairs.map Prod.fst).zip values)) between ∧
        ∀ result after,
          eval limit (levels + 1) (roleForm role value (alternate pairs)) state =
              .ok result after → ∃ e, result = .entity e ∧ (e.isError = true ∨
            e.IsIntroduced role ((pairs.map Prod.fst).zip values) ∧
            (state.scope.IsFit → (∀ pair ∈ pairs, pair.2.IsProgram) →
              Table.get? adjectiveKey e.attrs =
                lastGiven? adjectiveKey ((pairs.map Prod.fst).zip values)))) ∧
    ∀ trailing, trailing.length % 2 = 1 → ∃ key, trailing.getLast? = some key ∧
      ∀ evalInside argEval, evalNode evalInside argEval (roleForm role value trailing) state =
        .ok (Failure.unpairedKey key.shown).toNode state := by
  refine ⟨fun pairs values between hitems => ?_, fun trailing hodd => ?_⟩
  · have hform : eval limit (levels + 1) (roleForm role value (alternate pairs)) state =
        eval limit (levels + 1) (nounForm role value ((pairs.map Prod.fst).zip values))
          between := by
      rw [eval_succ]
      exact evalNode_roleForm hitems
    refine ⟨hform, fun result after h => ?_⟩
    rw [hform, eval_succ] at h
    obtain ⟨e, rfl, herror | ⟨hkind, kept, start, last, hkept, hattrs⟩⟩ := nounForm_cases h
    · exact ⟨e, rfl, Or.inl herror⟩
    · refine ⟨e, rfl, Or.inr ⟨isIntroduced_of_kept hkept hkind hattrs, fun hscope hprograms => ?_⟩⟩
      have hvalues : ∀ given ∈ values, given.IsValue := by
        refine hitems.isValue (fun node hnode => ?_) hscope
        obtain ⟨pair, hpair, rfl⟩ := List.mem_map.mp hnode
        exact hprograms pair hpair
      rw [hattrs]
      exact hkept.adjective_eq fun pair hpair => hvalues _ (List.of_mem_zip hpair).2
  · obtain ⟨key, hlast, hunpaired⟩ := exists_unpairedKey hodd
    exact ⟨key, hlast, fun evalInside argEval => evalNode_roleForm_of_unpaired hunpaired state⟩

/-- The keys and items `:size 1 "size" (Integer 2) :adjective (Adjective "big") role "guest"`, which
give a size twice and a role of their own. -/
def guestItems : List (Node × Node) :=
  [(.keyword "size", .int 1), (.str "size", .form [.symbol "Integer", .int 2]),
    (.keyword "adjective", .form [.symbol "Adjective", .str "big"]),
    (.symbol "role", .str "guest")]

/-- What the items evaluate to. -/
def guestValues : List Node :=
  [.int 1, .plain .integer (.int 2), .plain .adjective (.str "big"), .str "guest"]

/-- With these items, `(Subject "dog" ...)` gives a noun whose role is that of a subject, whose size
is the second one, and whose adjective is as given. Without the last of them, nothing is
evaluated. -/
theorem role_forms_guest :
    (∃ between, EvaluatesInOrder (eval 200 8) (guestItems.map Prod.snd) guestValues
        (.initial .empty) between) ∧
    (∃ e after, eval 200 9 (roleForm .subject (.str "dog") (alternate guestItems))
        (.initial .empty) = .ok (.entity e) after ∧ e.isError = false ∧
      Table.get? "role" e.attrs = some (.str "subject") ∧
      Table.get? "size" e.attrs = some (.plain .integer (.int 2)) ∧
      Table.get? adjectiveKey e.attrs = some (.plain .adjective (.str "big"))) ∧
    (alternate guestItems).dropLast.length % 2 = 1 ∧
    evalNode (eval 200 8) (eval 200 7)
      (roleForm .subject (.str "dog") (alternate guestItems).dropLast) (.initial .empty) =
        .ok (Failure.unpairedKey "role").toNode (.initial .empty) := by
  have hitems : ∃ between, EvaluatesInOrder (eval 200 8) (guestItems.map Prod.snd) guestValues
      (.initial .empty) between :=
    ⟨_, .cons rfl (.cons rfl (.cons rfl (.cons rfl (.nil _))))⟩
  obtain ⟨between, hitems⟩ := hitems
  have hrun : ∃ e after, eval 200 9 (roleForm .subject (.str "dog") (alternate guestItems))
      (.initial .empty) = .ok (.entity e) after ∧ e.isError = false := ⟨_, _, rfl, rfl⟩
  obtain ⟨e, after, hrun, hfine⟩ := hrun
  obtain ⟨hgiven, hmissing⟩ := role_forms .subject (.str "dog") 200 8 (.initial .empty)
  have hprograms : ∀ pair ∈ guestItems, pair.2.IsProgram := by
    simp [guestItems, isProgram_form_iff, IsProgram.symbol, IsProgram.value, IsValue.int,
      IsValue.str]
  have hnoun : ∃ e', Node.entity e = .entity e' ∧ (e'.isError = true ∨
      e'.IsIntroduced .subject ((guestItems.map Prod.fst).zip guestValues) ∧
      (Scope.IsFit (.empty : Scope Node) → (∀ pair ∈ guestItems, pair.2.IsProgram) →
        Table.get? adjectiveKey e'.attrs =
          lastGiven? adjectiveKey ((guestItems.map Prod.fst).zip guestValues))) :=
    (hgiven guestItems guestValues between hitems).2 (.entity e) after hrun
  obtain ⟨_, ⟨⟩, herror | ⟨hintroduced, hadjective⟩⟩ := hnoun
  · rw [hfine] at herror
    cases herror
  · obtain ⟨key, hlast, hunpaired⟩ := hmissing (alternate guestItems).dropLast rfl
    have hkey : key = .symbol "role" := Option.some.inj hlast.symm
    refine ⟨⟨between, hitems⟩, ⟨e, after, hrun, hfine, hintroduced.role_eq, ?_, ?_⟩, rfl, ?_⟩
    · exact hintroduced.given_eq "size" (by decide) (by decide)
    · exact hadjective Scope.isFit_empty hprograms
    · rw [hunpaired, hkey]
      rfl

end EntityLisp
