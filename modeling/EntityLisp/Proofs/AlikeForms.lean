import EntityLisp.Proofs.Alike
import EntityLisp.Proofs.Results

/-!
# Code and scopes that are alike

What the forms read in their code, and what they do with scopes, is the same or alike for nodes
and scopes that are. Binding a name keeps two scopes in agreement whether or not the name is
hidden (`Scope.Agree.define`), and so do merging, fixing and leaving a closure out.
-/

namespace EntityLisp

open Except (Related)

variable {r : Correspondence}

namespace Node

/-! ### Reading code -/

theorem Alike.isForm {node node' : Node} (h : Alike r node node') : node.isForm = node'.isForm := by
  cases h <;> rfl

theorem Alike.isSymbol {node node' : Node} (h : Alike r node node') (name : String) :
    node.isSymbol name = node'.isSymbol name := by
  cases h <;> rfl

theorem Alike.mapKey? {node node' : Node} (h : Alike r node node') :
    node.mapKey? = node'.mapKey? := by
  cases h <;> rfl

theorem Alike.typeTag? {node node' : Node} (h : Alike r node node') :
    node.typeTag? = node'.typeTag? := by
  cases h <;> rfl

theorem Alike.traitTag? {node node' : Node} (h : Alike r node node') :
    node.traitTag? = node'.traitTag? := by
  cases h <;> rfl

theorem Alike.sugar? {node node' : Node} (h : Alike r node node') : node.sugar? = node'.sugar? := by
  cases h <;> rfl

theorem Alike.isEvaluatedPayload {node node' : Node} (h : Alike r node node') :
    node.isEvaluatedPayload = node'.isEvaluatedPayload := by
  cases h <;> rfl

theorem Alike.typeNameOf {node node' : Node} (h : Alike r node node') :
    typeNameOf node = typeNameOf node' := by
  have hshown := h.shown
  cases h with
  | symbol => rfl
  | _ => exact hshown

theorem Alike.isLambdaForm {node node' : Node} (h : Alike r node node') :
    node.isLambdaForm = node'.isLambdaForm := by
  cases h with
  | ofForm hlength heach =>
    cases alike_form_iff.mp (.ofForm hlength heach) with
    | nil => rfl
    | cons hhead _ => cases hhead <;> rfl
  | _ => rfl

theorem alike_reserved {name : String} (h : name ∈ reservedNames) :
    Alike r (.symbol name) (.symbol name) :=
  .symbol fun hhidden => r.not_reserved name hhidden h

end Node

open Node

/-! ### Attributes and sugar -/

theorem related_unpairedKey? {pairs pairs' : List Node} (h : List.Forall₂ (Alike r) pairs pairs') :
    Option.Rel (Alike r) (unpairedKey? pairs) (unpairedKey? pairs') := by
  have hlast : Option.Rel (Alike r) pairs.getLast? pairs'.getLast? := by
    induction h with
    | nil => exact .none
    | cons hfirst hrest ih =>
      cases hrest with
      | nil => exact .some hfirst
      | cons => exact ih
  unfold unpairedKey?
  rw [h.length_eq]
  split
  · exact hlast
  · exact .none

theorem related_attributePairs? {attrs? attrs?' : Option Node}
    (h : Option.Rel (Alike r) attrs? attrs?') :
    Option.Rel (List.Forall₂ (Alike r)) (attributePairs? attrs?) (attributePairs? attrs?') := by
  cases h with
  | none => exact .none
  | some h =>
    cases h with
    | ofForm hlength heach =>
      cases alike_form_iff.mp (.ofForm hlength heach) with
      | nil => exact .none
      | cons hhead hrest =>
        cases hhead with
        | symbol =>
          simp only [attributePairs?]
          split
          · exact .some hrest
          · exact .none
        | _ => exact .none
    | _ => exact .none

theorem forall₂_foldAttributes {arguments arguments' : List Node}
    (h : List.Forall₂ (Alike r) arguments arguments') :
    List.Forall₂ (Alike r) (foldAttributes arguments) (foldAttributes arguments') := by
  cases h with
  | nil => exact .nil
  | cons hkind h =>
    cases h with
    | nil => exact .cons hkind .nil
    | cons hvalue h =>
      cases h with
      | nil => exact .cons hkind (.cons hvalue .nil)
      | cons hfirst hrest =>
        simp only [foldAttributes, hfirst.isForm]
        split
        · exact .cons hkind (.cons hvalue (.cons hfirst hrest))
        · have hmap : Alike r (.symbol mapHead) (.symbol mapHead) :=
            alike_reserved (by simp [reservedNames])
          exact .cons hkind (.cons hvalue (.cons (alike_form_iff.mpr
            (.cons hmap (.cons hfirst hrest))) .nil))

theorem forall₂_roleArguments (role : Role) {value value' : Node} {attrs attrs' : List Node}
    (hvalue : Alike r value value') (hattrs : List.Forall₂ (Alike r) attrs attrs') :
    List.Forall₂ (Alike r) (roleArguments role value attrs) (roleArguments role value' attrs') := by
  have hnoun : Alike r (.symbol TypeTag.noun.name) (.symbol TypeTag.noun.name) :=
    alike_reserved (by simp [reservedNames])
  have hmap : Alike r (.symbol mapHead) (.symbol mapHead) :=
    alike_reserved (by simp [reservedNames])
  have hrole : List.Forall₂ (Alike r) [.keyword "role", .str role.value]
      [.keyword "role", .str role.value] := .cons (.plain rfl) (.cons (.plain rfl) .nil)
  refine .cons hnoun (.cons hvalue (.cons (alike_form_iff.mpr ?_) .nil))
  exact .cons hmap (List.rel_append hattrs hrole)

/-! ### Bindings and parameters -/

/-- The same name with nodes that are alike. -/
def AlikeBinding (r : Correspondence) (binding binding' : String × Node) : Prop :=
  binding.1 = binding'.1 ∧ Alike r binding.2 binding'.2

/-- What a form `(name word node)` gives. Bindings and parameters are of this shape. -/
def named? (word : String) : Node → Option (String × Node)
  | .form [.symbol name, .symbol found, node] => if found = word then some (name, node) else none
  | _ => none

theorem readBinding?_eq_named? (node : Node) : readBinding? node = named? "be" node := rfl

theorem readParam?_eq_named? (node : Node) : readParam? node = named? "as" node := rfl

theorem related_named? (word : String) {node node' : Node} (h : Alike r node node') :
    Option.Rel (AlikeBinding r) (named? word node) (named? word node') := by
  cases h with
  | ofForm hlength heach =>
    rcases alike_form_iff.mp (.ofForm hlength heach) with
      _ | ⟨hname, _ | ⟨hword, _ | ⟨hnode, _ | _⟩⟩⟩
    · exact .none
    · cases hname <;> exact .none
    · cases hname <;> cases hword <;> exact .none
    · cases hname with
      | symbol =>
        cases hword with
        | symbol =>
          simp only [named?]
          split
          · exact .some ⟨rfl, hnode⟩
          · exact .none
        | _ => exact .none
      | _ => exact .none
    · cases hname <;> cases hword <;> exact .none
  | _ => exact .none

/-- **Bindings that are alike:** either both lists give bindings, or nodes that are alike are the
first that are none. -/
theorem readBindings_of_alike {nodes nodes' : List Node} (h : List.Forall₂ (Alike r) nodes nodes') :
    (∃ bindings bindings', readBindings nodes = .ok bindings ∧
      readBindings nodes' = .ok bindings' ∧
        List.Forall₂ (AlikeBinding r) bindings bindings') ∨
    ∃ node node', readBindings nodes = .error node ∧ readBindings nodes' = .error node' ∧
      Alike r node node' := by
  induction h with
  | nil => exact Or.inl ⟨[], [], rfl, rfl, .nil⟩
  | @cons node node' rest rest' hnode _ ih =>
    unfold readBindings
    rw [readBinding?_eq_named?, readBinding?_eq_named?]
    cases hbinding : named? "be" node <;> cases hbinding' : named? "be" node' <;>
      have hrelated := related_named? "be" hnode <;> rw [hbinding, hbinding'] at hrelated <;>
      cases hrelated
    · exact Or.inr ⟨node, node', rfl, rfl, hnode⟩
    · next hbound =>
      rcases ih with ⟨bindings, bindings', hok, hok', hall⟩ | ⟨bad, bad', herror, herror', hbad⟩
      · rw [hok, hok']
        exact Or.inl ⟨_, _, rfl, rfl, .cons hbound hall⟩
      · rw [herror, herror']
        exact Or.inr ⟨bad, bad', rfl, rfl, hbad⟩

theorem readParams_eq_of_alike {nodes nodes' : List Node}
    (h : List.Forall₂ (Alike r) nodes nodes') (seen : List String) :
    readParams seen nodes = readParams seen nodes' := by
  induction h generalizing seen with
  | nil => rfl
  | @cons node node' rest rest' hnode _ ih =>
    unfold readParams
    rw [readParam?_eq_named?, readParam?_eq_named?]
    cases hparam : named? "as" node <;> cases hparam' : named? "as" node' <;>
      have hrelated := related_named? "as" hnode <;> rw [hparam, hparam'] at hrelated <;>
      cases hrelated
    · simp only [hnode.shown]
    · next param param' hbound =>
      obtain ⟨name, type⟩ := param
      obtain ⟨name', type'⟩ := param'
      obtain ⟨rfl, htype⟩ := hbound
      simp only [htype.typeTag?, htype.shown, ih]

/-- Signatures that are alike are read alike. -/
theorem readSignature_eq_of_alike {params params' returns returns' type type' : Node}
    (hparams : Alike r params params') (hreturns : Alike r returns returns')
    (htype : Alike r type type') :
    readSignature params returns type = readSignature params' returns' type' := by
  have hshown := hparams.shown
  cases hparams with
  | ofForm hlength heach =>
    have hitems := alike_form_iff.mp (.ofForm hlength heach)
    simp only [readSignature, hreturns.isSymbol, hreturns.shown, htype.typeTag?, htype.shown,
      readParams_eq_of_alike hitems]
  | _ => simp only [readSignature, hshown]

/-! ### Arguments and results -/

theorem coerce_of_not_plain (kind : TypeTag) {value : Node} (h : value.isPlain = false) :
    coerce kind value = .ok value := by
  cases value <;> cases h <;> cases kind <;> rfl

theorem alike_coerce_of_plain {kind : TypeTag} {value result : Node} (h : value.isPlain = true)
    (hresult : coerce kind value = .ok result) : Alike r result result := by
  have hentity : ∀ (tag : TypeTag) (payload : Node), payload.isPlain = true →
      Alike r (Node.plain tag payload) (Node.plain tag payload) :=
    fun tag payload hpayload => alike_entity_iff.mpr ⟨rfl, .plain hpayload, .nil⟩
  unfold coerce at hresult
  split at hresult
  · cases hresult
    exact hentity _ _ rfl
  · cases hresult
    exact hentity _ _ rfl
  · split at hresult
    · cases hresult
      exact hentity _ _ rfl
    · cases hresult
  · cases hresult
    exact hentity _ _ rfl
  · cases hresult
    exact hentity _ _ rfl
  · cases hresult
    exact .plain h

theorem related_coerce (kind : TypeTag) {value value' : Node} (h : Alike r value value') :
    Related (Alike r) (coerce kind value) (coerce kind value') := by
  cases hplain : value.isPlain with
  | true =>
    obtain rfl : value = value' := by
      cases h <;> first | rfl | cases hplain
    exact Except.related_self fun _ => alike_coerce_of_plain hplain
  | false =>
    have hplain' : value'.isPlain = false := by
      cases h <;> first | rfl | cases hplain
    rw [coerce_of_not_plain kind hplain, coerce_of_not_plain kind hplain']
    exact .ok h

theorem takes_eq_of_alike (type : TypeTag) {value value' : Node} (h : Alike r value value') :
    type.takes value = type.takes value' := by
  unfold TypeTag.takes
  cases h with
  | ofEntity hkind => simp only [hkind]
  | _ => rfl

theorem related_bindArgument (name : String) (type : TypeTag) {value value' : Node}
    (h : Alike r value value') :
    Related (Related (Alike r)) (bindArgument name type value)
      (bindArgument name type value') := by
  -- entities and closures stay, and nil is refused before
  have hargument : Related (Alike r) (argumentFor type value) (argumentFor type value') := by
    have hcoerce := (related_coerce type h).mapError EvalError.arithmetic
    have hsame := h
    cases h with
    | ofEntity => exact .ok hsame
    | ofClosure => exact .ok hsame
    | _ => exact hcoerce
  have hmap : Related (Related (Alike r))
      ((argumentFor type value).map fun value => if type.takes value then
        (.ok value : Except Failure Node) else .error (.argumentType name type value.describe))
      ((argumentFor type value').map fun value => if type.takes value then
        (.ok value : Except Failure Node)
        else .error (.argumentType name type value.describe)) := by
    refine hargument.map fun bound bound' hbound => ?_
    rw [takes_eq_of_alike type hbound, hbound.describe]
    split
    · exact .ok hbound
    · exact .error _
  cases h with
  | nil => exact .ok (.error _)
  | _ => exact hmap

theorem alike_failure (failure : Failure) : Alike r failure.toNode failure.toNode :=
  alike_entity_iff.mpr ⟨rfl, .str _, .nil⟩

theorem alike_checkResult (returns : TypeTag) {value value' : Node} (h : Alike r value value') :
    Alike r (checkResult returns value) (checkResult returns value') := by
  have hsame := h
  have hdescribe := h.describe
  cases h with
  | ofEntity hkind =>
    simp only [checkResult, hkind, hdescribe]
    split
    · exact hsame
    · exact alike_failure _
  | ofClosure => exact hsame
  | _ => simp only [checkResult, hdescribe]; exact alike_failure _

/-! ### Building entities -/

theorem alike_lentPayload {value value' : Node} (h : Alike r value value') :
    Alike r value.lentPayload value'.lentPayload := by
  have hsame := h
  cases h with
  | @ofEntity e e' hkind hpayload =>
    have herror := (alike_entity_iff.mp hsame).isError
    show Alike r (if e.isError then .entity e else e.payload)
      (if e'.isError then .entity e' else e'.payload)
    rw [herror]
    split
    · exact hsame
    · exact hpayload
  | _ => exact hsame

theorem related_makeEntity (typeName : String) {payload payload' : Node}
    (h : Alike r payload payload') :
    Related (AlikeEntity r) (makeEntity typeName payload []) (makeEntity typeName payload' []) := by
  unfold makeEntity
  rw [h.shape?, h.sort]
  split
  · exact .error _
  · split
    · exact .error _
    · split
      · exact .ok ⟨rfl, h, .nil⟩
      · exact .error _

/-! ### Operands -/

theorem related_listElement (position : Nat) {value value' : Node} (h : Alike r value value') :
    Related (AlikeEntity r) (listElement position value) (listElement position value') := by
  have hsame := h
  have hdescribe := h.describe
  cases h with
  | ofEntity hkind =>
    simp only [listElement, hkind, hdescribe]
    split
    · exact .ok (alike_entity_iff.mp hsame)
    · exact .error _
  | _ => simp only [listElement, hdescribe]; exact .error _

theorem related_numericOperand (op : NumericOp) (position : Nat) {value value' : Node}
    (h : Alike r value value') :
    Related (AlikeEntity r) (numericOperand op position value)
      (numericOperand op position value') := by
  have hsame := h
  have hdescribe := h.describe
  cases h with
  | ofEntity hkind =>
    simp only [numericOperand, hkind, hdescribe]
    split
    · exact .ok (alike_entity_iff.mp hsame)
    · exact .error _
  | _ => simp only [numericOperand, hdescribe]; exact .error _

/-! ### Scopes -/

namespace Scope

variable {scope scope' : Scope Node}

theorem Agree.lookup? (h : scope.Agree r scope') {name : String} (hname : name ∉ r.hidden) :
    Option.Rel (Alike r) (scope.lookup? name) (scope'.lookup? name) := by
  have hget := h.bindings.get? name
  rwa [Table.get?_visible hname, Table.get?_visible hname] at hget

theorem Agree.define (h : scope.Agree r scope') (name : String) {value value' : Node}
    (hvalue : Alike r value value') :
    (scope.define name value).Agree r (scope'.define name value') := by
  refine ⟨?_, h.traits⟩
  by_cases hname : name ∈ r.hidden
  · show Table.Pointwise _ (Table.visible _ (Table.put _ _ _)) (Table.visible _ (Table.put _ _ _))
    rw [Table.visible_put_of_mem hname, Table.visible_put_of_mem hname]
    exact h.bindings
  · show Table.Pointwise _ (Table.visible _ (Table.put _ _ _)) (Table.visible _ (Table.put _ _ _))
    rw [Table.visible_put_of_not_mem hname, Table.visible_put_of_not_mem hname]
    exact h.bindings.put name hvalue

theorem Agree.defineAll (h : scope.Agree r scope') {bindings bindings' : List (String × Node)}
    (hbindings : List.Forall₂ (AlikeBinding r) bindings bindings') :
    (scope.defineAll bindings).Agree r (scope'.defineAll bindings') := by
  induction hbindings generalizing scope scope' with
  | nil => exact h
  | @cons binding binding' rest rest' hbinding _ ih =>
    obtain ⟨name, value⟩ := binding
    obtain ⟨name', value'⟩ := binding'
    obtain ⟨rfl, hvalue⟩ := hbinding
    exact ih (h.define name hvalue)

theorem Agree.implement (h : scope.Agree r scope') (type : TypeTag) (trait : TraitTag) :
    (scope.implement type trait).Agree r (scope'.implement type trait) := by
  constructor
  · rw [bindings_implement, bindings_implement]
    exact h.bindings
  · intro htraits
    have hsame := h.traits htraits
    have htraitsFor : scope.traitsFor type = scope'.traitsFor type := by
      unfold traitsFor
      rw [hsame]
    unfold Scope.implement hasTrait
    rw [htraitsFor]
    split
    · exact hsame
    · rw [hsame]

theorem Agree.mergedWith {caller caller' : Scope Node} (h : scope.Agree r scope')
    (hcaller : caller.Agree r caller') :
    (scope.mergedWith caller).Agree r (scope'.mergedWith caller') := by
  constructor
  · show Table.Pointwise _ (Table.visible _ (Table.overlay _ _))
      (Table.visible _ (Table.overlay _ _))
    rw [Table.visible_overlay, Table.visible_overlay]
    exact h.bindings.overlay hcaller.bindings
  · intro htraits
    show uniteTraits _ _ = uniteTraits _ _
    rw [h.traits htraits, hcaller.traits htraits]

/-- A hidden name may be bound to anything in either scope. -/
theorem Agree.define_left (h : scope.Agree r scope') {name : String} (hname : name ∈ r.hidden)
    (value : Node) : (scope.define name value).Agree r scope' := by
  refine ⟨?_, h.traits⟩
  show Table.Pointwise _ (Table.visible _ (Table.put _ _ _)) _
  rw [Table.visible_put_of_mem hname]
  exact h.bindings

theorem Agree.define_right (h : scope.Agree r scope') {name : String} (hname : name ∈ r.hidden)
    (value : Node) : scope.Agree r (scope'.define name value) := by
  refine ⟨?_, h.traits⟩
  show Table.Pointwise _ _ (Table.visible _ (Table.put _ _ _))
  rw [Table.visible_put_of_mem hname]
  exact h.bindings

theorem hasOrigin_eq_of_alike {value value' : Node} (h : Alike r value value') (origin : Nat) :
    value.hasOrigin origin = value'.hasOrigin (r.origin origin) := by
  cases h with
  | ofClosure _ _ _ _ horigin =>
    simp only [Node.hasOrigin]
    rw [horigin, Bool.eq_iff_iff, beq_iff_eq, beq_iff_eq]
    exact r.injective.eq_iff.symm
  | _ => rfl

/-- A closure and one that is alike are left out alike. -/
theorem Agree.unbindOrigin (h : scope.Agree r scope') (origin : Nat) :
    (scope.unbindOrigin origin).Agree r (scope'.unbindOrigin (r.origin origin)) := by
  refine ⟨?_, h.traits⟩
  have hcomm : ∀ (table : Table String Node) (origin : Nat), Table.visible r.hidden
      (table.filter fun binding => !binding.2.hasOrigin origin) =
        (Table.visible r.hidden table).filter fun binding => !binding.2.hasOrigin origin := by
    intro table origin
    simp only [Table.visible, List.filter_filter, Bool.and_comm]
  show Table.Pointwise _ (Table.visible _ (List.filter _ _)) (Table.visible _ (List.filter _ _))
  rw [hcomm, hcomm]
  have hkept : ∀ value value', Alike r value value' →
      (!value.hasOrigin origin) = !value'.hasOrigin (r.origin origin) := by
    intro value value' hvalue
    rw [hasOrigin_eq_of_alike hvalue origin]
  exact h.bindings.filter hkept

/-! ### Fixing -/

/-- The fixed states of closures that are alike, in scopes that agree. -/
theorem alike_fix {c c' : Closure Node} (h : AlikeClosure r c c') (hscope : scope.Agree r scope') :
    Alike r (.closure (c.fix scope)) (.closure (c'.fix scope')) := by
  unfold Closure.fix
  rw [h.fixed]
  split
  · exact alike_closure_iff.mpr h
  · exact alike_closure_iff.mpr ⟨h.params, h.returns, rfl, h.body, h.origin, hscope⟩

/-- Either both of two values that are alike are pending closures, or fixing leaves both. -/
theorem fixBinding_of_alike {value value' : Node} (hvalue : Alike r value value') :
    (∀ (name : String) (scope : Scope Node), fixBinding scope (name, value) = scope ∧
      fixBinding scope (name, value') = scope) ∨
    ∃ c c', AlikeClosure r c c' ∧ ∀ (name : String) (scope : Scope Node),
      fixBinding scope (name, value) =
        scope.define name (.closure (c.fix (scope.mergedWith c.scope))) ∧
      fixBinding scope (name, value') =
        scope.define name (.closure (c'.fix (scope.mergedWith c'.scope))) := by
  have hsame := hvalue
  cases hvalue with
  | @ofClosure c c' _ _ hfixed =>
    cases hpending : c.fixed with
    | true =>
      refine Or.inl fun name scope => ⟨if_pos hpending, if_pos ?_⟩
      rw [← hfixed, hpending]
    | false =>
      have hpending' : c'.fixed = false := hfixed ▸ hpending
      refine Or.inr ⟨c, c', alike_closure_iff.mp hsame, fun name scope => ⟨if_neg ?_, if_neg ?_⟩⟩
      · simp [hpending]
      · simp [hpending']
  | _ => exact Or.inl fun _ _ => ⟨rfl, rfl⟩

/-- Fixing the binding of a name in both scopes. -/
theorem Agree.fixBinding (h : scope.Agree r scope') {binding binding' : String × Node}
    (hbinding : AlikeBinding r binding binding') :
    (fixBinding scope binding).Agree r (fixBinding scope' binding') := by
  obtain ⟨name, value⟩ := binding
  obtain ⟨name', value'⟩ := binding'
  obtain ⟨rfl, hvalue⟩ := hbinding
  rcases fixBinding_of_alike hvalue with hleft | ⟨c, c', hc, hfix⟩
  · rw [(hleft name scope).1, (hleft name scope').2]
    exact h
  · rw [(hfix name scope).1, (hfix name scope').2]
    exact h.define name (alike_fix hc (h.mergedWith hc.scope))

/-- Fixing the binding of a hidden name is not seen. -/
theorem Agree.fixBinding_left (h : scope.Agree r scope') {binding : String × Node}
    (hname : binding.1 ∈ r.hidden) : (EntityLisp.fixBinding scope binding).Agree r scope' := by
  unfold EntityLisp.fixBinding
  split
  · split
    · exact h
    · exact h.define_left hname _
  · exact h

theorem Agree.fixBinding_right (h : scope.Agree r scope') {binding : String × Node}
    (hname : binding.1 ∈ r.hidden) : scope.Agree r (EntityLisp.fixBinding scope' binding) := by
  unfold EntityLisp.fixBinding
  split
  · split
    · exact h
    · exact h.define_right hname _
  · exact h

/-- Fixing the bindings of hidden names is not seen. -/
theorem Agree.foldl_right (h : scope.Agree r scope') {bindings : Table String Node}
    (hhidden : ∀ binding ∈ bindings, binding.1 ∈ r.hidden) :
    scope.Agree r (bindings.foldl EntityLisp.fixBinding scope') := by
  induction bindings generalizing scope' with
  | nil => exact h
  | cons binding rest ih =>
    rw [List.forall_mem_cons] at hhidden
    exact ih (h.fixBinding_right hhidden.1) hhidden.2

theorem Agree.foldl_fixBinding {bindings bindings' : Table String Node}
    (hbindings : Table.Pointwise (Alike r) (Table.visible r.hidden bindings)
      (Table.visible r.hidden bindings')) (h : scope.Agree r scope') :
    (bindings.foldl EntityLisp.fixBinding scope).Agree r
      (bindings'.foldl EntityLisp.fixBinding scope') := by
  induction bindings generalizing bindings' scope scope' with
  | nil =>
    refine h.foldl_right fun binding hbinding => ?_
    have hnil : Table.visible r.hidden bindings' = [] := List.forall₂_nil_left_iff.mp hbindings
    simpa using List.filter_eq_nil_iff.mp hnil binding hbinding
  | cons binding rest ih =>
    obtain ⟨name, value⟩ := binding
    by_cases hname : name ∈ r.hidden
    · rw [Table.visible_cons_of_mem hname] at hbindings
      exact ih hbindings (h.fixBinding_left hname)
    · rw [Table.visible_cons_of_not_mem hname] at hbindings
      obtain ⟨binding', visible', hbinding, hrest, hvisible⟩ :=
        List.forall₂_cons_left_iff.mp hbindings
      -- the bindings before the one that corresponds are those of hidden names
      obtain ⟨before, rest', rfl, hbefore, -, rfl⟩ := List.filter_eq_cons_iff.mp hvisible
      have hhidden : ∀ other ∈ before, other.1 ∈ r.hidden := fun other hother => by
        simpa using hbefore other hother
      have hfolded := ih hrest ((h.foldl_right hhidden).fixBinding hbinding)
      rw [List.foldl_append]
      exact hfolded

/-- **Scopes that agree are fixed alike.** -/
theorem Agree.fixClosures (h : scope.Agree r scope') :
    scope.fixClosures.Agree r scope'.fixClosures :=
  Agree.foldl_fixBinding h.bindings h

end Scope

end EntityLisp
