import EntityLisp.Proofs.Visits

/-!
# The attributes that keys and values give

Keys and values stand in turn behind the value of an entity. `AttributesKept` says which name and
which value are kept of each pair, without the table that they are entered into, and `lastGiven?`
which value is given last under a name.

* `enterAttributes_eq_ok_iff`: the attributes are the kept names and values, entered in order.
* `AttributesKept.rel_lastGiven?`: **a name holds the value that is given last under it,** as it is
  written or, if it is the adjective, evaluated.
-/

namespace EntityLisp

open Node Run

/-! ### Tables of entries -/

namespace Table

variable {κ α : Type} [DecidableEq κ]

theorem get?_append (key : κ) (first second : Table κ α) :
    get? key (first ++ second) = (get? key first).or (get? key second) := by
  induction first with
  | nil => rfl
  | cons entry rest ih =>
    obtain ⟨k, v⟩ := entry
    by_cases hk : k = key
    · simp [get?, hk]
    · simp [get?, hk, ih]

/-- **Of the entries of a key the last one counts,** and before them what the key had already. -/
theorem get?_overlay (key : κ) (upper lower : Table κ α) :
    get? key (overlay upper lower) = (get? key upper.reverse).or (get? key lower) := by
  induction upper generalizing lower with
  | nil => rfl
  | cons entry rest ih =>
    obtain ⟨k, v⟩ := entry
    show get? key (overlay rest (put k v lower)) = _
    rw [ih, get?_put, List.reverse_cons, get?_append, Option.or_assoc]
    by_cases hk : key = k
    · simp [get?, hk]
    · simp [get?, hk, Ne.symm hk]

end Table

/-! ### Keys and values -/

/-- **Keys and values in turn.** -/
def alternate (pairs : List (Node × Node)) : List Node := pairs.flatMap fun pair => [pair.1, pair.2]

theorem alternate_cons (key value : Node) (pairs : List (Node × Node)) :
    alternate ((key, value) :: pairs) = key :: value :: alternate pairs := rfl

theorem alternate_append (first second : List (Node × Node)) :
    alternate (first ++ second) = alternate first ++ alternate second := List.flatMap_append

theorem length_alternate (pairs : List (Node × Node)) :
    (alternate pairs).length = 2 * pairs.length := by
  induction pairs with
  | nil => rfl
  | cons pair rest ih =>
    rw [alternate_cons, List.length_cons, List.length_cons, List.length_cons, ih]
    omega

/-- No value is missing where keys and values stand in turn. -/
theorem unpairedKey?_alternate (pairs : List (Node × Node)) :
    unpairedKey? (alternate pairs) = none := by
  have heven : ¬(alternate pairs).length % 2 = 1 := by
    rw [length_alternate]
    omega
  exact if_neg heven

/-- In a list of odd length, the last key has no value. -/
theorem exists_unpairedKey {nodes : List Node} (h : nodes.length % 2 = 1) :
    ∃ key, nodes.getLast? = some key ∧ unpairedKey? nodes = some key := by
  have hne : nodes ≠ [] := by
    rintro rfl
    cases h
  have hlast := List.getLast?_eq_some_getLast hne
  exact ⟨_, hlast, (if_pos h).trans hlast⟩

/-- **The value that is given last** under a name. -/
def lastGiven? (name : String) : List (Node × Node) → Option Node
  | [] => none
  | (key, value) :: rest =>
    (lastGiven? name rest).or (if key.mapKey? = some name then some value else none)

theorem lastGiven?_append_singleton (name : String) (pairs : List (Node × Node))
    (key value : Node) :
    lastGiven? name (pairs ++ [(key, value)]) =
      if key.mapKey? = some name then some value else lastGiven? name pairs := by
  induction pairs with
  | nil =>
    show (none : Option Node).or _ = _
    rw [Option.none_or]
    rfl
  | cons pair rest ih =>
    rw [List.cons_append, lastGiven?, ih]
    split
    · rfl
    · rfl

/-! ### What is kept -/

/-- **What is kept of keys and values:** each value under the name of its key, as it is written,
and an adjective as the entity that it evaluates to. -/
inductive AttributesKept (eval : Node → Run Node) :
    List (Node × Node) → List (String × Node) → RunState → RunState → Prop where
  | nil (state : RunState) : AttributesKept eval [] [] state state
  | written {key value : Node} {name : String} {pairs : List (Node × Node)}
      {kept : List (String × Node)} {state after : RunState} (named : key.mapKey? = some name)
      (other : name ≠ adjectiveKey) (others : AttributesKept eval pairs kept state after) :
      AttributesKept eval ((key, value) :: pairs) ((name, value) :: kept) state after
  | adjective {key value : Node} {e : Entity Node} {pairs : List (Node × Node)}
      {kept : List (String × Node)} {state between after : RunState}
      (named : key.mapKey? = some adjectiveKey)
      (found : eval value state = .ok (.entity e) between) (isAdjective : e.kind = .adjective)
      (others : AttributesKept eval pairs kept between after) :
      AttributesKept eval ((key, value) :: pairs) ((adjectiveKey, .entity e) :: kept) state after

section Kept

variable {eval : Node → Run Node}

theorem attributeValue_of_ne {name : String} (h : name ≠ adjectiveKey) (value : Node) :
    attributeValue eval name value = pure (.ok value) := if_neg h

/-- An adjective is kept if it evaluates to an entity of that type. -/
theorem attributeValue_adjective_eq_ok_iff {value held : Node} {state after : RunState} :
    attributeValue eval adjectiveKey value state = .ok (.ok held) after ↔
      ∃ e, eval value state = .ok (.entity e) after ∧ e.kind = .adjective ∧ held = .entity e := by
  rw [attributeValue, if_pos rfl, bind_eq_ok_iff]
  constructor
  · rintro ⟨found, between, hfound, h⟩
    split at h
    · next e =>
      split at h
      · next hkind =>
        cases h
        exact ⟨e, hfound, hkind, rfl⟩
      · cases h
    · cases h
  · rintro ⟨e, hfound, hkind, rfl⟩
    refine ⟨.entity e, after, hfound, ?_⟩
    have hkept : (if e.kind = .adjective then pure (.ok (.entity e))
        else pure (.error (.invalidAdjective (Node.entity e).describe)) :
          Run (Except Failure Node)) = pure (.ok (.entity e)) := if_pos hkind
    exact congrFun hkept after

/-- A first key and value are entered, and then the others. -/
theorem enterAttributes_cons_eq_ok_iff {key value : Node} {rest : List Node}
    {attrs result : Table String Node} {state after : RunState} :
    enterAttributes eval attrs (key :: value :: rest) state = .ok (.ok result) after ↔
      ∃ name held between, key.mapKey? = some name ∧
        attributeValue eval name value state = .ok (.ok held) between ∧
          enterAttributes eval (Table.put name held attrs) rest between =
            .ok (.ok result) after := by
  cases hkey : key.mapKey? with
  | none =>
    rw [enterAttributes_of_not_key hkey]
    constructor
    · rintro ⟨⟩
    · rintro ⟨name, held, between, ⟨⟩, -⟩
  | some name =>
    rw [enterAttributes_cons hkey, bind_eq_ok_iff]
    constructor
    · rintro ⟨kept, between, hkept, h⟩
      cases kept with
      | error failure => cases h
      | ok held => exact ⟨name, held, between, rfl, hkept, h⟩
    · rintro ⟨_, held, between, ⟨⟩, hkept, h⟩
      exact ⟨.ok held, between, hkept, h⟩

/-- **Of keys and values the first ones are kept,** entered in order, and then the others are
entered. -/
theorem enterAttributes_append_eq_ok_iff {pairs : List (Node × Node)} {others : List Node}
    {attrs result : Table String Node} {state after : RunState} :
    enterAttributes eval attrs (alternate pairs ++ others) state = .ok (.ok result) after ↔
      ∃ kept reached, AttributesKept eval pairs kept state reached ∧
        enterAttributes eval (Table.overlay kept attrs) others reached =
          .ok (.ok result) after := by
  induction pairs generalizing attrs state with
  | nil =>
    constructor
    · exact fun h => ⟨[], state, .nil state, h⟩
    · rintro ⟨kept, reached, ⟨⟩, h⟩
      exact h
  | cons pair rest ih =>
    obtain ⟨key, value⟩ := pair
    rw [alternate_cons, List.cons_append, List.cons_append, enterAttributes_cons_eq_ok_iff]
    simp only [ih]
    constructor
    · rintro ⟨name, held, between, hkey, hheld, kept, reached, hkept, hothers⟩
      by_cases hname : name = adjectiveKey
      · subst hname
        obtain ⟨e, hfound, hkind, rfl⟩ := attributeValue_adjective_eq_ok_iff.mp hheld
        exact ⟨_, reached, .adjective hkey hfound hkind hkept, hothers⟩
      · rw [attributeValue_of_ne hname] at hheld
        cases hheld
        exact ⟨_, reached, .written hkey hname hkept, hothers⟩
    · rintro ⟨kept, reached, hkept, hothers⟩
      cases hkept with
      | @written _ _ name _ kept _ _ hkey hname hrest =>
        exact ⟨name, value, state, hkey, by rw [attributeValue_of_ne hname]; rfl, kept, reached,
          hrest, hothers⟩
      | @adjective _ _ e _ kept _ between _ hkey hfound hkind hrest =>
        exact ⟨adjectiveKey, .entity e, between, hkey,
          attributeValue_adjective_eq_ok_iff.mpr ⟨e, hfound, hkind, rfl⟩, kept, reached, hrest,
          hothers⟩

/-- **The attributes of keys and values** are the kept names and values, entered in order. -/
theorem enterAttributes_eq_ok_iff {pairs : List (Node × Node)} {attrs result : Table String Node}
    {state after : RunState} :
    enterAttributes eval attrs (alternate pairs) state = .ok (.ok result) after ↔
      ∃ kept, AttributesKept eval pairs kept state after ∧ result = Table.overlay kept attrs := by
  rw [← List.append_nil (alternate pairs), enterAttributes_append_eq_ok_iff]
  constructor
  · rintro ⟨kept, reached, hkept, ⟨⟩⟩
    exact ⟨kept, hkept, rfl⟩
  · rintro ⟨kept, hkept, rfl⟩
    exact ⟨kept, after, hkept, rfl⟩

/-- What a name holds if a value is given for it: the value as it is written, or, of the adjective,
an entity of that type that the value evaluates to. -/
def IsHeld (eval : Node → Run Node) (name : String) (given held : Node) : Prop :=
  if name = adjectiveKey then
    held.isAdjective = true ∧ ∃ state after, eval given state = .ok held after
  else held = given

theorem isHeld_self {name : String} (h : name ≠ adjectiveKey) (value : Node) :
    IsHeld eval name value value := (if_neg h).mpr rfl

theorem isHeld_adjective {value : Node} {e : Entity Node} {state after : RunState}
    (hfound : eval value state = .ok (.entity e) after) (hkind : e.kind = .adjective) :
    IsHeld eval adjectiveKey value (.entity e) :=
  (if_pos rfl).mpr ⟨beq_iff_eq.mpr hkind, state, after, hfound⟩

/-- **A name holds the value that is given last under it,** and nothing if none is given. -/
theorem AttributesKept.rel_lastGiven? {pairs : List (Node × Node)} {kept : List (String × Node)}
    {state after : RunState} (h : AttributesKept eval pairs kept state after) (name : String) :
    Option.Rel (IsHeld eval name) (lastGiven? name pairs) (Table.get? name kept.reverse) := by
  -- a pair in front counts if no later one has its name
  have hcons : ∀ {key value held : Node} {own : String} {rest : List (Node × Node)}
      {others : List (String × Node)}, key.mapKey? = some own → IsHeld eval own value held →
      Option.Rel (IsHeld eval name) (lastGiven? name rest) (Table.get? name others.reverse) →
      Option.Rel (IsHeld eval name) (lastGiven? name ((key, value) :: rest))
        (Table.get? name ((own, held) :: others).reverse) := by
    intro key value held own rest others hkey hheld hothers
    rw [lastGiven?, List.reverse_cons, Table.get?_append, hkey]
    generalize lastGiven? name rest = given, Table.get? name others.reverse = found at hothers ⊢
    cases hothers with
    | some hlater => exact .some hlater
    | none =>
      by_cases hname : own = name
      · subst hname
        simpa [Table.get?] using hheld
      · simp [Table.get?, hname]
  induction h with
  | nil state => exact .none
  | written named other others ih => exact hcons named (isHeld_self other _) ih
  | adjective named found isAdjective others ih =>
    exact hcons named (isHeld_adjective found isAdjective) ih

end Kept

end EntityLisp
