import EntityLisp.Proofs.OperandForms

/-!
# Equality of entities

The form `eq` compares numbers of either sort by value, and other entities by type and payload. What
an entity stands for in such a comparison is its `Meaning`: a quantity, or else a truth value or a
text under a type. No number is rounded for it, so that equality is that of meanings.

* `Number.sameValue_iff`: numbers compare equal if and only if they are of the same quantity.
* `equalEntities_iff`: entities do if and only if they have the same meaning.
* `eq_same_meaning`: **`eq` is an equivalence on entities that are no errors and hold no NaN,**
  compares integers with floating-point numbers exactly, and agrees with the equality of entities.
-/

namespace EntityLisp

open Node Run

/-! ### Quantities -/

/-- **What a number stands for:** a rational number, or an infinity with its sign. -/
inductive Quantity where
  | rational (value : ℚ)
  | infinite (negative : Bool)

/-- The quantity of a floating-point number. A NaN has none. -/
def Binary64.quantity? : Binary64 → Option Quantity
  | .finite negative units _ => some (.rational (signed negative units / unitsPerOne))
  | .infinite negative => some (.infinite negative)
  | .nan _ => none

/-- The quantity of a number. -/
def Number.quantity? : Number → Option Quantity
  | .int n => some (.rational n)
  | .float x => x.quantity?

namespace Binary64

theorem unitsPerOne_ne_zero : (unitsPerOne : ℚ) ≠ 0 := Nat.cast_ne_zero.mpr unitsPerOne_pos.ne'

/-- A count of units is a whole number of ones if its quotient is. -/
theorem units_eq_iff (units n : Int) :
    units = unitsPerOne * n ↔ (units : ℚ) / unitsPerOne = n := by
  rw [div_eq_iff unitsPerOne_ne_zero, mul_comm (n : ℚ)]
  exact_mod_cast Iff.rfl

/-- **A floating-point number has the value of an integer** if that is its quantity. -/
theorem isWhole_iff (x : Binary64) (n : Int) :
    x.isWhole n = true ↔ x.quantity? = some (.rational n) := by
  cases x with
  | finite negative units h =>
    rw [isWhole, beq_iff_eq, units_eq_iff, quantity?, Option.some.injEq, Quantity.rational.injEq]
  | infinite negative => simp [isWhole, quantity?]
  | nan mark => simp [isWhole, quantity?]

theorem sameValue_iff_quantity {x y : Binary64} {q : Quantity} (hx : x.quantity? = some q) :
    x.sameValue y = true ↔ y.quantity? = some q := by
  rw [← hx]
  cases x with
  | finite a u h =>
    cases y with
    | finite b v h' =>
      rw [sameValue, beq_iff_eq, quantity?, quantity?, Option.some.injEq, Quantity.rational.injEq,
        div_left_inj' unitsPerOne_ne_zero, Int.cast_inj, eq_comm]
    | _ => exact iff_of_false (by rintro ⟨⟩) (by rintro ⟨⟩)
  | infinite a =>
    cases y with
    | infinite b =>
      rw [sameValue, beq_iff_eq, quantity?, quantity?, Option.some.injEq, Quantity.infinite.injEq,
        eq_comm]
    | _ => exact iff_of_false (by rintro ⟨⟩) (by rintro ⟨⟩)
  | nan mark => cases hx

end Binary64

namespace Number

/-- **Numbers have the same value** if and only if they are of the same quantity. -/
theorem sameValue_iff {x y : Number} {p q : Quantity} (hx : x.quantity? = some p)
    (hy : y.quantity? = some q) : x.sameValue y = true ↔ p = q := by
  cases x with
  | int m =>
    obtain rfl : Quantity.rational m = p := Option.some.inj hx
    cases y with
    | int n =>
      obtain rfl : Quantity.rational n = q := Option.some.inj hy
      rw [sameValue, beq_iff_eq, Quantity.rational.injEq, Int.cast_inj]
    | float y =>
      rw [quantity?] at hy
      rw [sameValue, Binary64.isWhole_iff, hy, Option.some.injEq, eq_comm]
  | float x =>
    rw [quantity?] at hx
    cases y with
    | int n =>
      obtain rfl : Quantity.rational n = q := Option.some.inj hy
      rw [sameValue, Binary64.isWhole_iff, hx, Option.some.injEq]
    | float y =>
      rw [quantity?] at hy
      rw [sameValue, Binary64.sameValue_iff_quantity hx, hy, Option.some.injEq, eq_comm]

/-- Only a NaN has no quantity. -/
theorem exists_quantity {x : Number} (h : (Node.ofNumber x).isNaN = false) :
    ∃ q, x.quantity? = some q := by
  cases x with
  | int n => exact ⟨_, rfl⟩
  | float x =>
    cases x with
    | nan mark => cases h
    | _ => exact ⟨_, rfl⟩

theorem isNaN_ofNumber {x : Number} {q : Quantity} (h : x.quantity? = some q) :
    (Node.ofNumber x).isNaN = false := by
  cases x with
  | int n => rfl
  | float x =>
    cases x with
    | nan mark => cases h
    | _ => rfl

theorem same_ofNumber (x y : Number) : (Node.ofNumber x).same (.ofNumber y) = x.sameValue y := by
  cases x <;> cases y <;> simp only [Node.ofNumber, Node.same, sameCount, Node.count?]

end Number

/-! ### Meanings -/

/-- **What an entity stands for** in a comparison: a quantity, or a payload under a type. -/
inductive Meaning where
  | quantity (value : Quantity)
  | typed (kind : TypeTag) (payload : Node)

/-- **A payload that is no number:** a truth value or a text. -/
inductive Node.IsNameOrTruth : Node → Prop where
  | bool (value : Bool) : IsNameOrTruth (.bool value)
  | str (text : String) : IsNameOrTruth (.str text)

/-- **The meaning of an entity.** A number means its quantity, of whichever type it is, and any
other entity its payload under its type. Attributes do not count. -/
inductive Entity.Means : Entity Node → Meaning → Prop where
  | number {e : Entity Node} {x : Number} {q : Quantity} (holds : e.Holds x)
      (hasQuantity : x.quantity? = some q) : Means e (.quantity q)
  | typed {e : Entity Node} (notNumeric : e.kind.isNumeric = false)
      (payload : e.payload.IsNameOrTruth) : Means e (.typed e.kind e.payload)

/-- **An entity that can be compared** with itself: it is well formed and no error, and its payload
is no NaN. -/
structure Entity.IsComparable (e : Entity Node) : Prop where
  isFit : e.IsFit
  notError : e.isError = false
  notNaN : e.payload.isNaN = false

/-- The payload of a well-formed entity that is no number. -/
theorem Entity.IsFit.isNameOrTruth {e : Entity Node} (h : e.IsFit)
    (hnumeric : e.kind.isNumeric = false) : e.payload.IsNameOrTruth := by
  have haccepts := h.accepts
  obtain ⟨kind, payload, attrs⟩ := e
  cases kind with
  | integer | float => cases hnumeric
  | boolean =>
    cases payload with
    | bool value => exact .bool value
    | _ => cases haccepts
  | lambda => cases haccepts
  | _ =>
    cases payload with
    | str text => exact .str text
    | _ => cases haccepts

/-- **Every entity that can be compared has a meaning.** -/
theorem Entity.IsComparable.exists_means {e : Entity Node} (h : e.IsComparable) :
    ∃ m, e.Means m := by
  cases hnumeric : e.kind.isNumeric with
  | true =>
    obtain ⟨x, hx⟩ := h.isFit.exists_holds hnumeric
    have hnotNaN := h.notNaN
    rw [hx.payload_eq] at hnotNaN
    obtain ⟨q, hq⟩ := Number.exists_quantity hnotNaN
    exact ⟨_, .number hx hq⟩
  | false => exact ⟨_, .typed hnumeric (h.isFit.isNameOrTruth hnumeric)⟩

theorem isNumeric_kind_of_holds {e : Entity Node} {x : Number} (h : e.Holds x) :
    e.kind.isNumeric = true := by
  cases h <;> rfl

/-- Truth values and texts are the same only if they are equal. -/
theorem equalPayloads_iff_of_isNameOrTruth {x y : Node} (hx : x.IsNameOrTruth)
    (hy : y.IsNameOrTruth) : equalPayloads x y = true ↔ x = y := by
  cases hx with
  | bool a =>
    cases hy with
    | bool b => cases a <;> cases b <;> simp [equalPayloads, same, sameCount, count?, isNaN,
        Number.sameValue]
    | str t => simp [equalPayloads, same, sameCount, count?]
  | str s =>
    cases hy with
    | bool b => simp [equalPayloads, same]
    | str t => simp [equalPayloads, same, isNaN]

/-- Unless both are numbers, equal entities agree in type and payload. -/
theorem equalEntities_of_not_numeric {a b : Entity Node}
    (h : a.kind.isNumeric = false ∨ b.kind.isNumeric = false) :
    equalEntities a b = true ↔ a.kind = b.kind ∧ equalPayloads a.payload b.payload = true := by
  have hkinds : ¬(a.kind.isNumeric && b.kind.isNumeric) = true := by
    rcases h with h | h <;> simp [h]
  rw [equalEntities, if_neg hkinds, Bool.and_eq_true, beq_iff_eq]

/-- **Entities are equal if and only if they have the same meaning.** -/
theorem equalEntities_iff {a b : Entity Node} {p q : Meaning} (ha : a.Means p) (hb : b.Means q) :
    equalEntities a b = true ↔ p = q := by
  -- a number is told from other entities by its type
  have hdiffer : ∀ {a b : Entity Node} {x : Number}, a.Holds x → b.kind.isNumeric = false →
      a.kind ≠ b.kind := by
    intro a b x hx hb hkind
    have hnumeric := isNumeric_kind_of_holds hx
    rw [hkind, hb] at hnumeric
    cases hnumeric
  cases ha with
  | number hx hu =>
    cases hb with
    | number hy hv =>
      have hkinds : (a.kind.isNumeric && b.kind.isNumeric) = true := by
        rw [isNumeric_kind_of_holds hx, isNumeric_kind_of_holds hy]
        rfl
      rw [equalEntities, if_pos hkinds, equalPayloads, hx.payload_eq, hy.payload_eq,
        Number.isNaN_ofNumber hu, Number.same_ofNumber, Bool.not_false, Bool.and_true,
        Number.sameValue_iff hu hv, Meaning.quantity.injEq]
    | typed hother _ =>
      rw [equalEntities_of_not_numeric (Or.inr hother)]
      exact iff_of_false (fun h => hdiffer hx hother h.1) nofun
  | typed hother hpayload =>
    rw [equalEntities_of_not_numeric (Or.inl hother)]
    cases hb with
    | number hy hv => exact iff_of_false (fun h => hdiffer hy hother h.1.symm) nofun
    | typed hother' hpayload' =>
      rw [equalPayloads_iff_of_isNameOrTruth hpayload hpayload', Meaning.typed.injEq]

/-! ### Equality of entities as nodes -/

section Same

variable {a b : Entity Node}

theorem same_entity_iff : (Node.entity a).same (.entity b) = true ↔
    a.kind = b.kind ∧ a.payload.sameClass b.payload = true ∧ a.payload.same b.payload = true ∧
      a.attrs.length = b.attrs.length ∧ sameAttrs a.attrs b.attrs = true := by
  obtain ⟨kind, payload, attrs⟩ := a
  simp only [same, sameEntity, Bool.and_eq_true, beq_iff_eq, and_assoc]

/-- **Entities that are the same are equal,** unless their payload is a NaN. -/
theorem equalEntities_of_same (hnan : a.payload.isNaN = false)
    (h : (Node.entity a).same (.entity b) = true) : equalEntities a b = true := by
  obtain ⟨hkind, -, hpayload, -, -⟩ := same_entity_iff.mp h
  have hequal : equalPayloads a.payload b.payload = true := by
    rw [equalPayloads, hpayload, hnan]
    rfl
  rw [equalEntities, hequal, hkind]
  split <;> simp

/-- Payloads that suit one type are of one class. -/
theorem sameClass_of_accepts {kind : TypeTag} {x y : Node} (hx : kind.accepts x = true)
    (hy : kind.accepts y = true) : x.sameClass y = true := by
  unfold TypeTag.accepts at hx hy
  cases hshape : kind.shape? with
  | none =>
    rw [hshape] at hx
    cases hx
  | some shape =>
    simp only [hshape, beq_iff_eq] at hx hy
    have hboth : x.shape? = y.shape? := hx.trans hy.symm
    cases x with
    | nil | symbol | keyword | form | entity | entities | closure => cases hx
    | _ =>
      cases y with
      | nil | symbol | keyword | form | entity | entities | closure => cases hy
      | _ => first | rfl | cases hboth

/-- **Equal entities of one type without attributes are the same.** -/
theorem same_of_equalEntities (ha : a.IsFit) (hb : b.IsFit) (hkind : a.kind = b.kind)
    (hattrs : a.attrs = []) (hattrs' : b.attrs = []) (h : equalEntities a b = true) :
    (Node.entity a).same (.entity b) = true := by
  have hequal : equalPayloads a.payload b.payload = true := by
    unfold equalEntities at h
    split at h
    · exact h
    · exact (Bool.and_eq_true_iff.mp h).2
  have haccepts := ha.accepts
  rw [hkind] at haccepts
  refine same_entity_iff.mpr ⟨hkind, sameClass_of_accepts haccepts hb.accepts,
    (Bool.and_eq_true_iff.mp hequal).1, ?_, ?_⟩
  · rw [hattrs, hattrs']
  · rw [hattrs]
    simp [sameAttrs]

end Same

/-! ### The form -/

/-- **The form `eq`** with two names, where evaluation may go on for so many levels more than it
needs, gives a truth value and does nothing but report that it runs. -/
def Compares (limit levels : Nat) (state : RunState) (x y : String) (result : Bool) : Prop :=
  eval limit (levels + 2) (.form [.symbol CoreForm.eq.name, .symbol x, .symbol y]) state =
    .ok (.truth result) (state.reporting (.coreForm CoreForm.eq.name))

/-- A name is bound to an entity that can be compared. -/
structure Scope.BindsComparable (scope : Scope Node) (name : String) (e : Entity Node) : Prop where
  lookup?_eq : scope.lookup? name = some (.entity e)
  isComparable : e.IsComparable

section Form

variable {limit levels : Nat} {state : RunState} {x y z : String} {a b c : Entity Node}

/-- **A comparison of two names** gives whether the entities are equal. -/
theorem compares_equalEntities (hx : state.scope.BindsComparable x a)
    (hy : state.scope.BindsComparable y b) :
    Compares limit levels state x y (equalEntities a b) := by
  have hname : ∀ {name : String} {e : Entity Node}, state.scope.BindsComparable name e →
      eval limit (levels + 1) (.symbol name) (state.reporting (.coreForm CoreForm.eq.name)) =
        .ok (.entity e) (state.reporting (.coreForm CoreForm.eq.name)) := by
    intro name e hbinds
    rw [eval_succ]
    exact lookup_of_eq_some hbinds.lookup?_eq
  have haccepts : ∀ {e : Entity Node}, e.IsComparable → comparable (.entity e) = .ok e := by
    intro e he
    simp [comparable, he.notError]
  have hvalues : compareValues (.entity a) (.entity b) = .ok (.truth (equalEntities a b)) := by
    rw [compareValues, haccepts hx.isComparable, haccepts hy.isComparable]
    rfl
  rw [Compares, eval_succ, evalNode_core, bind_of_ok (report_apply _ state)]
  show (eval limit (levels + 1) (.symbol x) >>= fun _ => _) _ = _
  rw [bind_of_ok (hname hx)]
  show (eval limit (levels + 1) (.symbol y) >>= fun _ => _) _ = _
  rw [bind_of_ok (hname hy), hvalues]
  rfl

/-- A comparison has one result. -/
theorem compares_iff (hx : state.scope.BindsComparable x a) (hy : state.scope.BindsComparable y b)
    {result : Bool} : Compares limit levels state x y result ↔ equalEntities a b = result := by
  have hcompares : Compares limit levels state x y (equalEntities a b) :=
    compares_equalEntities hx hy
  constructor
  · intro h
    obtain ⟨hresult, -⟩ := EStateM.Result.ok.inj (hcompares.symm.trans h)
    cases hresult
    rfl
  · rintro rfl
    exact hcompares

/-- **Names compare equal** if and only if their entities have the same meaning. -/
theorem compares_true_iff (hx : state.scope.BindsComparable x a)
    (hy : state.scope.BindsComparable y b) {p q : Meaning} (ha : a.Means p) (hb : b.Means q) :
    Compares limit levels state x y true ↔ p = q := by
  rw [compares_iff hx hy, equalEntities_iff ha hb]

/-- **An integer and a floating-point number compare equal** if and only if the second stands for
the rational number that the first one is. -/
theorem compares_integer_float (hx : state.scope.BindsComparable x a)
    (hy : state.scope.BindsComparable y b) {n : Int} {v : Binary64} (ha : a.Holds (.int n))
    (hb : b.Holds (.float v)) :
    (Compares limit levels state x y true ↔ v.quantity? = some (.rational n)) ∧
      (Compares limit levels state y x true ↔ v.quantity? = some (.rational n)) := by
  have hnotNaN := hy.isComparable.notNaN
  rw [hb.payload_eq] at hnotNaN
  obtain ⟨q, hq⟩ := Number.exists_quantity hnotNaN
  have hfirst : a.Means (.quantity (.rational n)) := .number ha rfl
  have hsecond : b.Means (.quantity q) := .number hb hq
  replace hq : v.quantity? = some q := hq
  rw [compares_true_iff hx hy hfirst hsecond, compares_true_iff hy hx hsecond hfirst, hq,
    Option.some.injEq, Meaning.quantity.injEq, Meaning.quantity.injEq]
  exact ⟨eq_comm, Iff.rfl⟩

/-- **Equality as `eq` tells it.** On entities that are no errors and hold no NaN, given by name,
the form always gives a truth value, and is reflexive, symmetric and transitive. An integer equals a
floating-point number exactly if it is the rational number that the other one stands for, so two
integers that equal one such number are equal. On entities of one type without attributes `eq` tells
whether they are the same entity, and entities that are the same are equal, whatever their
attributes are. -/
theorem eq_same_meaning (limit levels : Nat) (hx : state.scope.BindsComparable x a)
    (hy : state.scope.BindsComparable y b) (hz : state.scope.BindsComparable z c) :
    (∃ result, Compares limit levels state x y result) ∧
    Compares limit levels state x x true ∧
    (Compares limit levels state x y true → Compares limit levels state y x true) ∧
    (Compares limit levels state x y true → Compares limit levels state y z true →
      Compares limit levels state x z true) ∧
    (∀ n v, a.Holds (.int n) → b.Holds (.float v) →
      (Compares limit levels state x y true ↔ v.quantity? = some (.rational n)) ∧
      (Compares limit levels state y x true ↔ v.quantity? = some (.rational n))) ∧
    (∀ m n v, a.Holds (.int m) → b.Holds (.float v) → c.Holds (.int n) →
      Compares limit levels state x y true → Compares limit levels state z y true → m = n) ∧
    (a.kind = b.kind → a.attrs = [] → b.attrs = [] →
      (Compares limit levels state x y true ↔ (Node.entity a).same (.entity b) = true)) ∧
    ((Node.entity a).same (.entity b) = true → Compares limit levels state x y true) := by
  obtain ⟨p, hp⟩ := hx.isComparable.exists_means
  obtain ⟨q, hq⟩ := hy.isComparable.exists_means
  obtain ⟨r, hr⟩ := hz.isComparable.exists_means
  refine ⟨⟨_, compares_equalEntities hx hy⟩, (compares_true_iff hx hx hp hp).mpr rfl, ?_, ?_, ?_,
    ?_, ?_, ?_⟩
  · rw [compares_true_iff hx hy hp hq, compares_true_iff hy hx hq hp]
    exact Eq.symm
  · rw [compares_true_iff hx hy hp hq, compares_true_iff hy hz hq hr, compares_true_iff hx hz hp hr]
    exact Eq.trans
  · exact fun n v => compares_integer_float hx hy
  · intro m n v hm hv hn hfirst hsecond
    have hquantity := (compares_integer_float hx hy hm hv).1.mp hfirst
    rw [(compares_integer_float hz hy hn hv).1.mp hsecond, Option.some.injEq,
      Quantity.rational.injEq, Int.cast_inj] at hquantity
    exact hquantity.symm
  · intro hkind hattrs hattrs'
    rw [compares_iff hx hy]
    exact ⟨same_of_equalEntities hx.isComparable.isFit hy.isComparable.isFit hkind hattrs hattrs',
      equalEntities_of_same hx.isComparable.notNaN⟩
  · intro hsame
    rw [compares_iff hx hy]
    exact equalEntities_of_same hx.isComparable.notNaN hsame

end Form

/-- The least integer that no floating-point number holds. -/
def leastUnheld : Entity Node := ⟨.integer, .int (2 ^ 53 + 1), []⟩

/-- The integer before it. -/
def greatestHeld : Entity Node := ⟨.integer, .int (2 ^ 53), [("unit", .str "m")]⟩

/-- The same as a floating-point number, to which both integers are rounded. -/
def heldFloat : Entity Node := ⟨.float, .float (.ofScaled false (2 ^ 53) 0), []⟩

/-- The state in which the three are bound. -/
def heldState : RunState := .initial
  ⟨[("n", .entity leastUnheld), ("f", .entity heldFloat), ("m", .entity greatestHeld)], []⟩

/-- Of the two integers, only the one that is that number equals it, whatever attributes it has. -/
theorem eq_same_meaning_held :
    heldState.scope.BindsComparable "n" leastUnheld ∧
    heldState.scope.BindsComparable "f" heldFloat ∧
    heldState.scope.BindsComparable "m" greatestHeld ∧
    (∃ result, Compares 200 7 heldState "n" "f" result) ∧
    Compares 200 7 heldState "m" "f" true ∧ Compares 200 7 heldState "f" "m" true ∧
    ¬Compares 200 7 heldState "n" "f" true := by
  have hn : heldState.scope.BindsComparable "n" leastUnheld :=
    ⟨rfl, ⟨rfl, fun _ h => by cases h⟩, rfl, rfl⟩
  have hm : heldState.scope.BindsComparable "m" greatestHeld :=
    ⟨rfl, ⟨rfl, fun _ h => by cases h⟩, rfl, rfl⟩
  have hf : heldState.scope.BindsComparable "f" heldFloat :=
    ⟨rfl, ⟨rfl, fun _ h => by cases h⟩, rfl, by decide +kernel⟩
  have hequal : Compares 200 7 heldState "m" "f" true :=
    (compares_iff hm hf).mpr (by decide +kernel)
  obtain ⟨hresult, -, -, -, -, hexact, -, -⟩ := eq_same_meaning 200 7 hn hf hm
  obtain ⟨-, -, hsymm, -⟩ := eq_same_meaning 200 7 hm hf hn
  refine ⟨hn, hf, hm, hresult, hequal, hsymm hequal, fun h => ?_⟩
  have heq : (2 ^ 53 + 1 : Int) = 2 ^ 53 :=
    hexact _ _ _ (.integer _ _) (.float _ _) (.integer _ _) h hequal
  exact absurd heq (by decide)

end EntityLisp
