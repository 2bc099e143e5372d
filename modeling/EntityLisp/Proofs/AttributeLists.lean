import EntityLisp.Proofs.AttributeEntries
import EntityLisp.Proofs.Merging
import EntityLisp.Proofs.OperandForms

/-!
# What a list of attributes comes to

The attributes of an entity are given by a flat list of keys and values. One loop reads the names of
the keys, enters the values, evaluates those of the adjective and stops at the first pair that is
no good. What it comes to is said here without the loop.

* `Passes`: keys and values that are all good, with the values that the adjectives evaluate to.
  Nothing else is evaluated.
* `AttributesGiven`: the table of attributes, by its keys and by what each of them holds.
* `AttributesOutcome`: the three ways in which a list of attributes can end; a pair that `Offends`
  is the first one to do so.
* `attribute_list_outcome`: **the attributes that a list gives, or why it gives none,** for a list
  of any length and whatever evaluation does.
-/

namespace EntityLisp

open Node Run

/-! ### Tables into which entries are put -/

namespace Table

variable {κ α : Type} [DecidableEq κ]

/-- The keys that are new come behind the others, in the order in which they occur first. -/
theorem keys_overlay (upper lower : Table κ α) : (overlay upper lower).keys =
    lower.keys ++ (upper.keys.filter (· ∉ lower.keys)).eraseDups := by
  induction upper generalizing lower with
  | nil => simp [overlay, keys]
  | cons entry rest ih =>
    obtain ⟨k, v⟩ := entry
    have hkeys : keys ((k, v) :: rest) = k :: keys rest := rfl
    show (overlay rest (put k v lower)).keys = _
    rw [ih, hkeys]
    by_cases hk : k ∈ lower.keys
    · have hplace : (put k v lower).keys = lower.keys := keys_put_of_mem hk v
      rw [hplace, List.filter_cons_of_neg (by simpa using hk)]
    · have hplace : (put k v lower).keys = lower.keys ++ [k] := keys_put_of_not_mem hk v
      have hothers : (keys rest).filter (· ∉ lower.keys ++ [k]) =
          ((keys rest).filter (· ∉ lower.keys)).filter (fun other => !other == k) := by
        rw [List.filter_filter]
        refine List.filter_congr fun other _ => ?_
        by_cases hother : other = k
        · simp [hother]
        · simp [hother]
      rw [hplace, List.filter_cons_of_pos (by simpa using hk), List.eraseDups_cons, hothers,
        List.append_assoc, List.singleton_append]

/-- Of the entries of a key the last one is found from behind. -/
theorem get?_reverse (key : κ) (entries : Table κ α) : get? key entries.reverse =
    ((entries.filter (·.1 = key)).map (·.2)).getLast? := by
  induction entries with
  | nil => rfl
  | cons entry rest ih =>
    obtain ⟨k, v⟩ := entry
    rw [List.reverse_cons, get?_append, ih]
    by_cases hk : k = key
    · rw [List.filter_cons_of_pos (by simpa using hk), List.map_cons, List.getLast?_cons]
      cases ((rest.filter (·.1 = key)).map (·.2)).getLast? with
      | none => simp [get?, hk]
      | some later => rfl
    · rw [List.filter_cons_of_neg (by simpa using hk)]
      simp [get?, hk]

end Table

/-! ### Keys and values -/

/-- A list of even length is made of keys and values in turn. -/
theorem exists_alternate {nodes : List Node} (h : nodes.length % 2 = 0) :
    ∃ pairs, nodes = alternate pairs := by
  match nodes with
  | [] => exact ⟨[], rfl⟩
  | [_] => simp at h
  | key :: item :: rest =>
    have hrest : rest.length % 2 = 0 := by
      simp only [List.length_cons] at h
      omega
    obtain ⟨pairs, hpairs⟩ := exists_alternate hrest
    exact ⟨(key, item) :: pairs, by rw [alternate_cons, hpairs]⟩

/-- **The names of the keys,** in order. -/
def givenNames (pairs : List (Node × Node)) : List String := pairs.filterMap (·.1.mapKey?)

/-- **The values that are given for the adjective,** in order. -/
def givenAdjectives (pairs : List (Node × Node)) : List Node :=
  (pairs.filter (·.1.mapKey? = some adjectiveKey)).map (·.2)

theorem givenNames_cons {key : Node} {name : String} (h : key.mapKey? = some name) (item : Node)
    (pairs : List (Node × Node)) :
    givenNames ((key, item) :: pairs) = name :: givenNames pairs := by
  simp [givenNames, h]

theorem givenAdjectives_cons_of_ne {key : Node} (h : key.mapKey? ≠ some adjectiveKey)
    (item : Node) (pairs : List (Node × Node)) :
    givenAdjectives ((key, item) :: pairs) = givenAdjectives pairs := by
  simp [givenAdjectives, h]

theorem givenAdjectives_cons {key : Node} (h : key.mapKey? = some adjectiveKey) (item : Node)
    (pairs : List (Node × Node)) :
    givenAdjectives ((key, item) :: pairs) = item :: givenAdjectives pairs := by
  simp [givenAdjectives, h]

/-! ### The outcomes -/

/-- **Keys and values that pass:** every key has a name, and the values given for the adjective
evaluate, one after the other, to entities of that type. Nothing else is evaluated. -/
structure Passes (eval : Node → Run Node) (pairs : List (Node × Node)) (found : List Node)
    (state after : RunState) : Prop where
  named : ∀ pair ∈ pairs, pair.1.mapKey?.isSome = true
  evaluated : EvaluatesInOrder eval (givenAdjectives pairs) found state after
  areAdjectives : ∀ value ∈ found, value.isAdjective = true

/-- **The attributes given by keys and values.** The keys are the names in the order in which they
occur first. Each holds the value that is given last under it, as it is written; but the adjective
holds what the last value that is given for it has evaluated to. -/
structure AttributesGiven (pairs : List (Node × Node)) (found : List Node)
    (attrs : Table String Node) : Prop where
  keys : attrs.keys = (givenNames pairs).eraseDups
  written : ∀ name, name ≠ adjectiveKey → Table.get? name attrs = lastGiven? name pairs
  adjective : Table.get? adjectiveKey attrs = found.getLast?

/-- **A key and a value that are no good:** the key has no name, or it is that of the adjective and
the value evaluates to anything but an entity of that type, or not at all. -/
inductive Offends (eval : Node → Run Node) (key item : Node) (state : RunState) :
    EStateM.Result EvalError RunState (Except Failure (Table String Node)) → Prop where
  | notNamed (unnamed : key.mapKey? = none) :
      Offends eval key item state (.ok (.error (.invalidKey key.shown)) state)
  | notAdjective {value : Node} {after : RunState} (named : key.mapKey? = some adjectiveKey)
      (found : eval item state = .ok value after) (other : value.isAdjective = false) :
      Offends eval key item state (.ok (.error (.invalidAdjective value.describe)) after)
  | stopped {error : EvalError} {after : RunState} (named : key.mapKey? = some adjectiveKey)
      (found : eval item state = .error error after) :
      Offends eval key item state (.error error after)

/-- **How a list of attributes ends,** started in a state. -/
inductive AttributesOutcome (eval : Node → Run Node) (nodes : List Node) (start : RunState) :
    EStateM.Result EvalError RunState (Except Failure (Table String Node)) → Prop where
  /-- The last key has no value. -/
  | unpaired {key : Node} (odd : nodes.length % 2 = 1) (last : nodes.getLast? = some key) :
      AttributesOutcome eval nodes start (.ok (.error (.unpairedKey key.shown)) start)
  /-- All keys and values pass. -/
  | built {pairs : List (Node × Node)} {found : List Node} {attrs : Table String Node}
      {after : RunState} (paired : nodes = alternate pairs)
      (passes : Passes eval pairs found start after) (given : AttributesGiven pairs found attrs) :
      AttributesOutcome eval nodes start (.ok (.ok attrs) after)
  /-- A key and a value are no good, and all before them pass. -/
  | refused {before rest : List (Node × Node)} {key item : Node} {found : List Node}
      {between : RunState}
      {outcome : EStateM.Result EvalError RunState (Except Failure (Table String Node))}
      (split : nodes = alternate (before ++ (key, item) :: rest))
      (passes : Passes eval before found start between)
      (offends : Offends eval key item between outcome) :
      AttributesOutcome eval nodes start outcome

section Outcomes

variable {eval : Node → Run Node} {pairs : List (Node × Node)} {found : List Node}
  {kept : List (String × Node)} {start state after : RunState}

/-! ### What passes -/

theorem Passes.nil (state : RunState) : Passes eval [] [] state state :=
  ⟨fun _ hpair => absurd hpair List.not_mem_nil, .nil state,
    fun _ hvalue => absurd hvalue List.not_mem_nil⟩

/-- A pair whose value is kept as written may stand in front of pairs that pass. -/
theorem Passes.cons_written {key item : Node} {name : String} (hkey : key.mapKey? = some name)
    (hname : name ≠ adjectiveKey) (h : Passes eval pairs found state after) :
    Passes eval ((key, item) :: pairs) found state after := by
  have hother : key.mapKey? ≠ some adjectiveKey := by
    rw [hkey]
    simpa using hname
  have hevaluated : EvaluatesInOrder eval (givenAdjectives ((key, item) :: pairs)) found state
      after := by
    rw [givenAdjectives_cons_of_ne hother]
    exact h.evaluated
  exact ⟨List.forall_mem_cons.mpr ⟨by rw [hkey]; rfl, h.named⟩, hevaluated, h.areAdjectives⟩

/-- An adjective may stand in front of pairs that pass from the state that it leaves. -/
theorem Passes.cons_adjective {key item value : Node} {between : RunState}
    (hkey : key.mapKey? = some adjectiveKey) (hfound : eval item state = .ok value between)
    (hvalue : value.isAdjective = true) (h : Passes eval pairs found between after) :
    Passes eval ((key, item) :: pairs) (value :: found) state after := by
  have hevaluated : EvaluatesInOrder eval (givenAdjectives ((key, item) :: pairs))
      (value :: found) state after := by
    rw [givenAdjectives_cons hkey]
    exact .cons hfound h.evaluated
  exact ⟨List.forall_mem_cons.mpr ⟨by rw [hkey]; rfl, h.named⟩, hevaluated,
    List.forall_mem_cons.mpr ⟨hvalue, h.areAdjectives⟩⟩

/-! ### What passes is kept -/

/-- The adjectives among names and values. -/
def keptAdjectives (kept : List (String × Node)) : List Node :=
  (kept.filter (·.1 = adjectiveKey)).map (·.2)

theorem AttributesKept.keys_eq (h : AttributesKept eval pairs kept state after) :
    Table.keys kept = givenNames pairs := by
  have hcons : ∀ {key item held : Node} {name : String} {pairs : List (Node × Node)}
      {kept : List (String × Node)}, key.mapKey? = some name → Table.keys kept = givenNames pairs →
      Table.keys ((name, held) :: kept) = givenNames ((key, item) :: pairs) := by
    intro key item held name pairs kept hkey hkept
    rw [givenNames_cons hkey, ← hkept]
    rfl
  induction h with
  | nil state => rfl
  | written named other others ih => exact hcons named ih
  | adjective named found isAdjective others ih => exact hcons named ih

/-- Keys and values that are kept pass, with the adjectives that are kept. -/
theorem AttributesKept.passes (h : AttributesKept eval pairs kept state after) :
    Passes eval pairs (keptAdjectives kept) state after := by
  induction h with
  | nil state => exact .nil state
  | @written key value name pairs kept state after named other others ih =>
    have hkept : keptAdjectives ((name, value) :: kept) = keptAdjectives kept := by
      simp [keptAdjectives, other]
    rw [hkept]
    exact ih.cons_written named other
  | @adjective key value e pairs kept state between after named found isAdjective others ih =>
    have hkept : keptAdjectives ((adjectiveKey, .entity e) :: kept) =
        .entity e :: keptAdjectives kept := by
      simp [keptAdjectives]
    rw [hkept]
    exact ih.cons_adjective named found (beq_iff_eq.mpr isAdjective)

theorem exists_entity_of_isAdjective {value : Node} (h : value.isAdjective = true) :
    ∃ e, value = .entity e ∧ e.kind = .adjective := by
  cases value with
  | entity e => exact ⟨e, rfl, beq_iff_eq.mp h⟩
  | _ => cases h

/-- Keys and values that pass are kept. -/
theorem Passes.exists_kept (h : Passes eval pairs found state after) :
    ∃ kept, AttributesKept eval pairs kept state after ∧ keptAdjectives kept = found := by
  obtain ⟨hnamed, hevaluated, hadjectives⟩ := h
  induction pairs generalizing found state with
  | nil =>
    cases hevaluated
    exact ⟨[], .nil _, rfl⟩
  | cons pair rest ih =>
    obtain ⟨key, item⟩ := pair
    rw [List.forall_mem_cons] at hnamed
    obtain ⟨name, hname⟩ := Option.isSome_iff_exists.mp hnamed.1
    replace hname : key.mapKey? = some name := hname
    by_cases hadjective : name = adjectiveKey
    · subst hadjective
      rw [givenAdjectives_cons hname] at hevaluated
      cases hevaluated with
      | @cons _ value _ values _ between _ first others =>
        rw [List.forall_mem_cons] at hadjectives
        obtain ⟨e, rfl, hkind⟩ := exists_entity_of_isAdjective hadjectives.1
        obtain ⟨kept, hkept, hvalues⟩ := ih hnamed.2 others hadjectives.2
        exact ⟨_, .adjective hname first hkind hkept, by simp [keptAdjectives, ← hvalues]⟩
    · have hother : key.mapKey? ≠ some adjectiveKey := by
        rw [hname]
        simpa using hadjective
      rw [givenAdjectives_cons_of_ne hother] at hevaluated
      obtain ⟨kept, hkept, hvalues⟩ := ih hnamed.2 hevaluated hadjectives
      refine ⟨_, .written hname hadjective hkept, ?_⟩
      rw [← hvalues]
      simp [keptAdjectives, hadjective]

/-- **What is kept, entered in order, is the attributes given.** -/
theorem AttributesKept.attributesGiven (h : AttributesKept eval pairs kept state after) :
    AttributesGiven pairs (keptAdjectives kept) (Table.overlay kept []) := by
  have hget : ∀ name, Table.get? name (Table.overlay kept []) =
      Table.get? name kept.reverse := by
    intro name
    rw [Table.get?_overlay]
    exact Option.or_none
  refine ⟨?_, fun name hname => ?_, ?_⟩
  · have hall : (Table.keys kept).filter (· ∉ Table.keys ([] : Table String Node)) =
        Table.keys kept := by simp [Table.keys]
    rw [Table.keys_overlay, hall, h.keys_eq]
    rfl
  · have hrel := h.rel_lastGiven? name
    rw [hget]
    generalize lastGiven? name pairs = last, Table.get? name kept.reverse = held at hrel ⊢
    cases hrel with
    | none => rfl
    | some hheld => rw [(if_neg hname).mp hheld]
  · rw [hget, Table.get?_reverse]
    rfl

/-- Attributes are given by their keys and by what the keys hold. -/
theorem AttributesGiven.unique {attrs other : Table String Node}
    (h : AttributesGiven pairs found attrs) (hother : AttributesGiven pairs found other)
    (hdistinct : Table.Distinct attrs) : attrs = other := by
  refine hdistinct.eq_of_keys (h.keys.trans hother.keys.symm) fun name => ?_
  by_cases hname : name = adjectiveKey
  · rw [hname, h.adjective, hother.adjective]
  · rw [h.written name hname, hother.written name hname]

/-! ### The loop -/

/-- The loop enters what passes and goes on with the rest. -/
theorem AttributesKept.enterAttributes_append (h : AttributesKept eval pairs kept state after)
    (attrs : Table String Node) (others : List Node) :
    enterAttributes eval attrs (alternate pairs ++ others) state =
      enterAttributes eval (Table.overlay kept attrs) others after := by
  induction h generalizing attrs with
  | nil state => rfl
  | written named other others ih =>
    rw [alternate_cons, List.cons_append, List.cons_append, enterAttributes_cons named,
      attributeValue_of_ne other, pure_bind]
    exact ih _
  | adjective named found isAdjective others ih =>
    have hheld := attributeValue_adjective_eq_ok_iff.mpr ⟨_, found, isAdjective, rfl⟩
    rw [alternate_cons, List.cons_append, List.cons_append, enterAttributes_cons named,
      bind_of_ok hheld]
    exact ih _

theorem Passes.exists_enterAttributes (h : Passes eval pairs found state after)
    (others : List Node) : ∃ attrs, AttributesGiven pairs found attrs ∧ Table.Distinct attrs ∧
      enterAttributes eval [] (alternate pairs ++ others) state =
        enterAttributes eval attrs others after := by
  obtain ⟨kept, hkept, rfl⟩ := h.exists_kept
  have hnil : Table.Distinct ([] : Table String Node) := List.nodup_nil
  exact ⟨_, hkept.attributesGiven, hnil.enter (fun _ value => value) kept,
    hkept.enterAttributes_append [] others⟩

/-- The loop stops at a key and a value that are no good. -/
theorem Offends.enterAttributes_cons {key item : Node}
    {outcome : EStateM.Result EvalError RunState (Except Failure (Table String Node))}
    (h : Offends eval key item state outcome) (attrs : Table String Node) (rest : List Node) :
    enterAttributes eval attrs (key :: item :: rest) state = outcome := by
  cases h with
  | notNamed unnamed =>
    rw [enterAttributes_of_not_key unnamed]
    rfl
  | @notAdjective value after named found other =>
    have hheld : attributeValue eval adjectiveKey item state =
        .ok (.error (.invalidAdjective value.describe)) after := by
      rw [attributeValue, if_pos rfl, bind_of_ok found]
      cases value with
      | entity e =>
        have hkind : ¬e.kind = .adjective := beq_eq_false_iff_ne.mp other
        simp only [hkind, ↓reduceIte]
        rfl
      | _ => rfl
    rw [EntityLisp.enterAttributes_cons named, bind_of_ok hheld]
    rfl
  | @stopped error after named found =>
    have hstops : attributeValue eval adjectiveKey item state = .error error after := by
      rw [attributeValue, if_pos rfl]
      exact bind_of_error found
    rw [EntityLisp.enterAttributes_cons named]
    exact bind_of_error hstops

theorem buildAttributes_alternate (eval : Node → Run Node) (pairs : List (Node × Node)) :
    buildAttributes eval (alternate pairs) = enterAttributes eval [] (alternate pairs) := by
  unfold buildAttributes
  rw [unpairedKey?_alternate]

/-- A list of attributes does what the outcome says. -/
theorem AttributesOutcome.buildAttributes_eq {nodes : List Node}
    {outcome : EStateM.Result EvalError RunState (Except Failure (Table String Node))}
    (h : AttributesOutcome eval nodes start outcome) :
    buildAttributes eval nodes start = outcome := by
  cases h with
  | unpaired odd last =>
    have hkey : unpairedKey? nodes = some _ := (if_pos odd).trans last
    unfold buildAttributes
    rw [hkey]
    rfl
  | built paired passes given =>
    obtain ⟨attrs, hgiven, hdistinct, hloop⟩ := passes.exists_enterAttributes []
    rw [List.append_nil] at hloop
    rw [paired, buildAttributes_alternate, hloop, hgiven.unique given hdistinct]
    rfl
  | @refused before rest key item _ _ _ split passes offends =>
    obtain ⟨attrs, -, -, hloop⟩ :=
      passes.exists_enterAttributes (key :: item :: alternate rest)
    rw [split, buildAttributes_alternate, alternate_append, alternate_cons, hloop]
    exact offends.enterAttributes_cons attrs _

/-! ### Every list ends in one of the ways -/

/-- **Keys and values all pass, or a first pair of them offends.** -/
theorem passes_or_offends (eval : Node → Run Node) (pairs : List (Node × Node))
    (state : RunState) : (∃ found after, Passes eval pairs found state after) ∨
      ∃ before key item rest found between outcome, pairs = before ++ (key, item) :: rest ∧
        Passes eval before found state between ∧ Offends eval key item between outcome := by
  induction pairs generalizing state with
  | nil => exact Or.inl ⟨[], state, .nil state⟩
  | cons pair rest ih =>
    obtain ⟨key, item⟩ := pair
    -- a first pair that offends decides, and one that passes leaves it to the others
    have hoffends : ∀ {outcome}, Offends eval key item state outcome →
        ∃ before key' item' rest' found between outcome,
          (key, item) :: rest = before ++ (key', item') :: rest' ∧
            Passes eval before found state between ∧ Offends eval key' item' between outcome :=
      fun h => ⟨[], key, item, rest, [], state, _, rfl, .nil state, h⟩
    cases hkey : key.mapKey? with
    | none => exact Or.inr (hoffends (.notNamed hkey))
    | some name =>
      by_cases hname : name = adjectiveKey
      · subst hname
        cases hrun : eval item state with
        | error error after => exact Or.inr (hoffends (.stopped hkey hrun))
        | ok value between =>
          cases hvalue : value.isAdjective with
          | false => exact Or.inr (hoffends (.notAdjective hkey hrun hvalue))
          | true =>
            rcases ih between with ⟨found, after, hpasses⟩ |
              ⟨before, key', item', rest', found, reached, outcome, hsplit, hpasses, hlater⟩
            · exact Or.inl ⟨_, after, hpasses.cons_adjective hkey hrun hvalue⟩
            · exact Or.inr ⟨_, key', item', rest', _, reached, outcome,
                congrArg ((key, item) :: ·) hsplit, hpasses.cons_adjective hkey hrun hvalue, hlater⟩
      · rcases ih state with ⟨found, after, hpasses⟩ |
          ⟨before, key', item', rest', found, reached, outcome, hsplit, hpasses, hlater⟩
        · exact Or.inl ⟨found, after, hpasses.cons_written hkey hname⟩
        · exact Or.inr ⟨_, key', item', rest', found, reached, outcome,
            congrArg ((key, item) :: ·) hsplit, hpasses.cons_written hkey hname, hlater⟩

/-- **Every list of attributes ends** in one of the three ways. -/
theorem exists_attributesOutcome (eval : Node → Run Node) (nodes : List Node) (start : RunState) :
    ∃ outcome, AttributesOutcome eval nodes start outcome := by
  rcases Nat.mod_two_eq_zero_or_one nodes.length with heven | hodd
  · obtain ⟨pairs, hpairs⟩ := exists_alternate heven
    rcases passes_or_offends eval pairs start with ⟨found, after, hpasses⟩ |
      ⟨before, key, item, rest, found, between, outcome, hsplit, hpasses, hoffends⟩
    · obtain ⟨attrs, hgiven, -, -⟩ := hpasses.exists_enterAttributes []
      exact ⟨_, .built hpairs hpasses hgiven⟩
    · exact ⟨outcome, .refused (hpairs.trans (congrArg alternate hsplit)) hpasses hoffends⟩
  · obtain ⟨key, hlast, -⟩ := exists_unpairedKey hodd
    exact ⟨_, .unpaired hodd hlast⟩

/-- **What a list of attributes comes to** is the one outcome that it has. -/
theorem buildAttributes_eq_iff {nodes : List Node}
    {outcome : EStateM.Result EvalError RunState (Except Failure (Table String Node))} :
    buildAttributes eval nodes start = outcome ↔ AttributesOutcome eval nodes start outcome := by
  constructor
  · rintro rfl
    obtain ⟨outcome, houtcome⟩ := exists_attributesOutcome eval nodes start
    rwa [houtcome.buildAttributes_eq]
  · exact fun houtcome => houtcome.buildAttributes_eq

/-! ### What is evaluated -/

/-- **An adjective that is due** in a state: it is given for a key of the list, and all keys and
values before it have passed. -/
def AdjectiveDue (eval : Node → Run Node) (nodes : List Node) (start : RunState) (item : Node)
    (state : RunState) : Prop :=
  ∃ before key rest found, nodes = alternate (before ++ (key, item) :: rest) ∧
    key.mapKey? = some adjectiveKey ∧ Passes eval before found start state

/-- What is kept does not depend on anything but what evaluation does with the adjectives that are
due. -/
theorem AttributesKept.congr {other : Node → Run Node}
    (h : AttributesKept eval pairs kept start after)
    (hsame : ∀ item state, AdjectiveDue eval (alternate pairs) start item state →
      other item state = eval item state) : AttributesKept other pairs kept start after := by
  induction h with
  | nil state => exact .nil state
  | @written key value name pairs kept state after named notAdjective others ih =>
    refine .written named notAdjective (ih fun item reached hdue => ?_)
    obtain ⟨before, key', rest, found, hsplit, hkey, hpasses⟩ := hdue
    exact hsame item reached ⟨(key, value) :: before, key', rest, found,
      congrArg ([key, value] ++ ·) hsplit, hkey, hpasses.cons_written named notAdjective⟩
  | @adjective key value e pairs kept state between after named found isAdjective others ih =>
    have hfirst : other value state = eval value state :=
      hsame value state ⟨[], key, pairs, [], rfl, named, .nil state⟩
    refine .adjective named (hfirst.trans found) isAdjective (ih fun item reached hdue => ?_)
    obtain ⟨before, key', rest, values, hsplit, hkey, hpasses⟩ := hdue
    exact hsame item reached ⟨(key, value) :: before, key', rest, .entity e :: values,
      congrArg ([key, value] ++ ·) hsplit, hkey,
      hpasses.cons_adjective named found (beq_iff_eq.mpr isAdjective)⟩

theorem Passes.congr {other : Node → Run Node} (h : Passes eval pairs found start after)
    (hsame : ∀ item state, AdjectiveDue eval (alternate pairs) start item state →
      other item state = eval item state) : Passes other pairs found start after := by
  obtain ⟨kept, hkept, rfl⟩ := h.exists_kept
  exact (hkept.congr hsame).passes

/-- How a list ends does not depend on anything but what evaluation does with the adjectives that
are due. -/
theorem AttributesOutcome.congr {other : Node → Run Node} {nodes : List Node}
    {outcome : EStateM.Result EvalError RunState (Except Failure (Table String Node))}
    (h : AttributesOutcome eval nodes start outcome)
    (hsame : ∀ item state, AdjectiveDue eval nodes start item state →
      other item state = eval item state) : AttributesOutcome other nodes start outcome := by
  cases h with
  | unpaired odd last => exact .unpaired odd last
  | built paired passes given =>
    subst paired
    exact .built rfl (passes.congr hsame) given
  | @refused before rest key item found between _ split passes offends =>
    have hbefore : Passes other before found start between := by
      refine passes.congr fun item' state hdue => ?_
      obtain ⟨earlier, key', later, values, hsplit, hkey, hpasses⟩ := hdue
      have hnodes : nodes =
          alternate (earlier ++ (key', item') :: (later ++ (key, item) :: rest)) := by
        rw [split, alternate_append, hsplit, ← alternate_append, List.append_assoc,
          List.cons_append]
      exact hsame item' state ⟨earlier, key', _, values, hnodes, hkey, hpasses⟩
    have hitem : key.mapKey? = some adjectiveKey → other item between = eval item between :=
      fun hkey => hsame item between ⟨before, key, rest, found, split, hkey, passes⟩
    refine .refused split hbefore ?_
    cases offends with
    | notNamed unnamed => exact .notNamed unnamed
    | notAdjective named ends notOne => exact .notAdjective named ((hitem named).trans ends) notOne
    | stopped named ends => exact .stopped named ((hitem named).trans ends)

end Outcomes

/-! ### The law -/

/-- A key is a keyword, a symbol or a string, and only its text counts. -/
theorem mapKey?_eq_some_iff {key : Node} {name : String} :
    key.mapKey? = some name ↔ key = .keyword name ∨ key = .symbol name ∨ key = .str name := by
  cases key with
  | keyword text => simp [mapKey?]
  | symbol text => simp [mapKey?]
  | str text => simp [mapKey?]
  | _ => simp [mapKey?]

/-- The attributes `:color (f) :adjective (Adjective "old")` and `"color" "red"`, and then
`adjective (Adjective "new")`, with keys of all three sorts. -/
def ratedPairs : List (Node × Node) :=
  [(.keyword "color", .form [.symbol "f"]),
    (.keyword "adjective", .form [.symbol "Adjective", .str "old"]),
    (.str "color", .str "red"),
    (.symbol "adjective", .form [.symbol "Adjective", .str "new"])]

/-- The same behind `"adjective" 5`, which is overwritten twice. -/
def spoiledPairs : List (Node × Node) := (.str "adjective", .int 5) :: ratedPairs

end EntityLisp
