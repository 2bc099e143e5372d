import EntityLisp.Proofs.EntryOrder

/-!
# Merging as a monoid

Folding the scope of a caller in is an operation on scopes. The empty scope is neutral on both
sides, it does not matter in which order three scopes are folded together, and a scope that has
been folded in already adds nothing. All of this holds with the order of entry, which is part of
a scope, though the operation is not commutative: the keys of the caller come first, and the own
values win.

Bindings and traits are combined by different rules, a value of the scope replacing that of the
caller and a set of traits being added to that of the caller. `Table.unite op` is the one operation
behind both. It combines what two tables hold under a key by `op`, and it inherits the laws of
`op`.

* `Table.Distinct.eq_of_keys`: a table that enters no key twice is its keys, in order, and what they
  hold.
* `Table.unite_assoc`, `Table.unite_self`: tables are united as their values are combined.
* `Scope.merging_is_monoid`: **merging is associative and idempotent,** with the empty scope
  neutral, the own values winning and the traits of both.
-/

namespace EntityLisp

/-! ### Tables that are united -/

namespace Table

variable {κ α : Type} [DecidableEq κ]

theorem get?_eq_none_iff {key : κ} {table : Table κ α} :
    get? key table = none ↔ key ∉ table.keys := by
  rw [← get?_isSome_iff, Option.not_isSome_iff_eq_none]

/-- **A table that enters no key twice** is its keys, in order, and what they hold. -/
theorem Distinct.eq_of_keys {first second : Table κ α} (h : first.Distinct)
    (hkeys : first.keys = second.keys) (hget : ∀ key, get? key first = get? key second) :
    first = second := by
  induction first generalizing second with
  | nil =>
    have hnil : second = [] := by simpa [keys] using hkeys.symm
    exact hnil.symm
  | cons entry rest ih =>
    obtain ⟨k, v⟩ := entry
    cases second with
    | nil => simp [keys] at hkeys
    | cons other others =>
      obtain ⟨k', v'⟩ := other
      obtain ⟨hk, hrest⟩ : k = k' ∧ keys rest = keys others := by simpa [keys] using hkeys
      subst hk
      obtain ⟨hnew, hdistinct⟩ := List.nodup_cons.mp h
      have hvalue : v = v' := by simpa [get?] using hget k
      have hothers : ∀ key, get? key rest = get? key others := by
        intro key
        by_cases hkey : k = key
        · -- the first key is in neither of the rests
          subst hkey
          have hnone : get? k rest = none := get?_eq_none_iff.mpr hnew
          have hnone' : get? k others = none := get?_eq_none_iff.mpr (hrest ▸ hnew)
          rw [hnone, hnone']
        · have hsame := hget key
          simpa [get?, hkey] using hsame
      rw [hvalue, ih hdistinct hrest hothers]

/-- What a key holds once a value has been combined with what it held before. -/
def combineWith (op : α → α → α) : Option α → α → α
  | none, value => value
  | some old, value => op old value

/-- **Two tables united:** the keys of `lower` come first, and what both hold under a key is
combined. -/
def unite (op : α → α → α) (upper lower : Table κ α) : Table κ α :=
  enter (combineWith op) upper lower

variable {op : α → α → α} {a b c : Table κ α}

theorem Distinct.unite (hb : b.Distinct) (op : α → α → α) (a : Table κ α) :
    (unite op a b).Distinct := hb.enter (combineWith op) a

theorem keys_unite (ha : a.Distinct) :
    (unite op a b).keys = b.keys ++ a.keys.filter (· ∉ b.keys) := keys_enter ha

/-- A key of the united tables holds what it holds in either, combined. -/
theorem get?_unite (ha : a.Distinct) (key : κ) :
    get? key (unite op a b) = Option.merge op (get? key b) (get? key a) := by
  unfold unite
  rw [get?_enter ha]
  cases get? key a with
  | none => cases get? key b <;> rfl
  | some value => cases get? key b <;> rfl

/-- **Three tables** may be united from either side. -/
theorem unite_assoc (op : α → α → α) [Std.Associative op] (ha : a.Distinct) (hb : b.Distinct)
    (hc : c.Distinct) :
    unite op (unite op a b) c = unite op a (unite op b c) := by
  have hab : (unite op a b).Distinct := hb.unite op a
  refine (hc.unite op _).eq_of_keys ?_ fun key => ?_
  · -- the keys of `c`, then the new ones of `b`, then those of `a` that are in neither
    have hnew : (a.keys.filter (· ∉ b.keys)).filter (· ∉ c.keys) =
        a.keys.filter (· ∉ c.keys ++ b.keys.filter (· ∉ c.keys)) := by
      rw [List.filter_filter]
      refine List.filter_congr fun key _ => ?_
      by_cases hkey : key ∈ c.keys
      · simp [hkey]
      · simp [hkey]
    rw [keys_unite hab, keys_unite ha, keys_unite ha, keys_unite hb, List.filter_append, hnew,
      List.append_assoc]
  · have hassoc : Std.Associative (Option.merge op) := inferInstance
    rw [get?_unite hab, get?_unite ha, get?_unite ha, get?_unite hb, hassoc.assoc]

theorem unite_nil_right (op : α → α → α) (ha : a.Distinct) : unite op a [] = a := by
  have hnil : Distinct ([] : Table κ α) := List.nodup_nil
  refine (hnil.unite op a).eq_of_keys ?_ fun key => ?_
  · rw [keys_unite ha]
    simp [keys]
  · rw [get?_unite ha]
    exact Option.merge_none_left

/-- **A table united with itself** stays as it is, keys in order. -/
theorem unite_self [Std.IdempotentOp op] (ha : a.Distinct) : unite op a a = a := by
  have hidempotent : Std.IdempotentOp (Option.merge op) := inferInstance
  refine (ha.unite op a).eq_of_keys ?_ fun key => ?_
  · rw [keys_unite ha]
    simp
  · rw [get?_unite ha, hidempotent.idempotent]

/-- Of two values under a key, the later one. -/
def later (_old value : α) : α := value

instance : Std.Associative (later : α → α → α) := ⟨fun _ _ _ => rfl⟩

instance : Std.IdempotentOp (later : α → α → α) := ⟨fun _ => rfl⟩

theorem overlay_eq_unite (upper lower : Table κ α) :
    overlay upper lower = unite later upper lower := by
  have hcombine : combineWith (later : α → α → α) = fun _ value => value := by
    funext old value
    cases old <;> rfl
  unfold unite
  rw [hcombine]
  rfl

end Table

/-! ### Sets of traits -/

instance : Std.Associative TraitSet.union := ⟨TraitSet.union_assoc⟩

instance : Std.IdempotentOp TraitSet.union := ⟨TraitSet.union_self⟩

theorem TraitSet.empty_union (set : TraitSet) : TraitSet.empty.union set = set :=
  TraitSet.ext_has fun trait => by simp

namespace Scope

theorem uniteTraits_eq_unite (upper lower : Table TypeTag TraitSet) :
    uniteTraits upper lower = Table.unite TraitSet.union upper lower := by
  have hcombine : Table.combineWith TraitSet.union =
      fun old set => (old.getD .empty).union set := by
    funext old set
    cases old with
    | none => exact (TraitSet.empty_union set).symm
    | some kept => rfl
  unfold Table.unite
  rw [hcombine]
  rfl

/-! ### Scopes that are merged -/

variable {α : Type} {a b c : Scope α}

/-- A merged scope is its bindings and its traits, each united by its own rule. -/
theorem mergedWith_eq (a b : Scope α) : a.mergedWith b =
    ⟨Table.unite Table.later a.bindings b.bindings,
      Table.unite TraitSet.union a.traits b.traits⟩ := by
  unfold mergedWith
  rw [Table.overlay_eq_unite, uniteTraits_eq_unite]

theorem mergedWith_assoc (ha : a.IsDistinct) (hb : b.IsDistinct) (hc : c.IsDistinct) :
    (a.mergedWith b).mergedWith c = a.mergedWith (b.mergedWith c) := by
  have hbindings := Table.unite_assoc Table.later ha.bindings hb.bindings hc.bindings
  have htraits := Table.unite_assoc TraitSet.union ha.traits hb.traits hc.traits
  simp only [mergedWith_eq, hbindings, htraits]

theorem mergedWith_empty (ha : a.IsDistinct) : a.mergedWith .empty = a := by
  have hbindings := Table.unite_nil_right Table.later ha.bindings
  have htraits := Table.unite_nil_right TraitSet.union ha.traits
  rw [mergedWith_eq, empty, hbindings, htraits]

theorem empty_mergedWith (a : Scope α) : Scope.empty.mergedWith a = a := rfl

theorem mergedWith_self (ha : a.IsDistinct) : a.mergedWith a = a := by
  rw [mergedWith_eq, Table.unite_self ha.bindings, Table.unite_self ha.traits]

/-- **Merging scopes is an ordered, left-biased monoid** on the scopes that enter no key twice,
which all environments are (`ScopeStep.isDistinct_run`). Equal scopes have the same bindings and the
same traits in the same order of entry. Merging gives such a scope again, may be done from either
side, has the empty scope neutral, and adds nothing if a scope is merged with itself or folded in
a second time. In a merged scope each own name keeps its value, every other name has that of the
caller, and a type has a trait exactly if it has it in one of the two. -/
theorem merging_is_monoid (a b c : Scope α) (ha : a.IsDistinct) (hb : b.IsDistinct)
    (hc : c.IsDistinct) :
    (a.mergedWith b).IsDistinct ∧
    (a.mergedWith b).mergedWith c = a.mergedWith (b.mergedWith c) ∧
    a.mergedWith .empty = a ∧
    Scope.empty.mergedWith a = a ∧
    a.mergedWith a = a ∧
    (a.mergedWith b).mergedWith b = a.mergedWith b ∧
    (∀ name value, a.lookup? name = some value →
      (a.mergedWith b).lookup? name = some value) ∧
    (∀ name, a.lookup? name = none → (a.mergedWith b).lookup? name = b.lookup? name) ∧
    ∀ type trait, (a.mergedWith b).hasTrait type trait = true ↔
      a.hasTrait type trait = true ∨ b.hasTrait type trait = true := by
  have hmerges := ha.mergesInOrder b
  refine ⟨hb.mergedWith a, mergedWith_assoc ha hb hc, mergedWith_empty ha, empty_mergedWith a,
    mergedWith_self ha, ?_, ?_, ?_, ?_⟩
  · rw [mergedWith_assoc ha hb hb, mergedWith_self hb]
  · intro name value hvalue
    rw [hmerges.values, hvalue, Option.some_or]
  · intro name hnone
    rw [hmerges.values, hnone, Option.none_or]
  · intro type trait
    have hunited : (a.mergedWith b).hasTrait type trait =
        (b.hasTrait type trait || a.hasTrait type trait) := by
      rw [hasTrait, hmerges.united, TraitSet.has_union]
      rfl
    rw [hunited, Bool.or_eq_true]
    exact or_comm

/-- The scope that is to be merged with the other two, each of which shares a name with it. -/
def innerScope : Scope Nat :=
  ⟨[("x", 1), ("y", 2)], [(.verb, .ofList [.temporal]), (.noun, .ofList [.numeric])]⟩

/-- A first caller. -/
def middleScope : Scope Nat := ⟨[("z", 3), ("y", 4)], [(.noun, .ofList [.relatable])]⟩

/-- A second caller, which has a type without traits. -/
def outerScope : Scope Nat :=
  ⟨[("w", 5), ("z", 6), ("x", 7)], [(.time, .ofList []), (.verb, .ofList [.numeric])]⟩

/-- The laws at three scopes that overlap, with the order of the names. If the first two change
places, so do their names. -/
theorem merging_is_monoid_overlapping :
    innerScope.IsDistinct ∧ middleScope.IsDistinct ∧ outerScope.IsDistinct ∧
      (innerScope.mergedWith middleScope).mergedWith outerScope =
        innerScope.mergedWith (middleScope.mergedWith outerScope) ∧
      (innerScope.mergedWith middleScope).mergedWith middleScope =
        innerScope.mergedWith middleScope ∧
      ((innerScope.mergedWith middleScope).mergedWith outerScope).bindings =
        [("w", 5), ("z", 3), ("x", 1), ("y", 2)] ∧
      (innerScope.mergedWith middleScope).names = ["z", "y", "x"] ∧
      (middleScope.mergedWith innerScope).names = ["x", "y", "z"] ∧
      (innerScope.mergedWith middleScope).hasTrait .noun .relatable = true := by
  have hinner : innerScope.IsDistinct := ⟨by decide, by decide⟩
  have hmiddle : middleScope.IsDistinct := ⟨by decide, by decide⟩
  have houter : outerScope.IsDistinct := ⟨by decide, by decide⟩
  obtain ⟨-, hassoc, -, -, -, htwice, -, -, htrait⟩ :=
    merging_is_monoid innerScope middleScope outerScope hinner hmiddle houter
  exact ⟨hinner, hmiddle, houter, hassoc, htwice, by decide, by decide, by decide,
    (htrait .noun .relatable).mpr (Or.inr (by decide))⟩

end Scope

end EntityLisp
