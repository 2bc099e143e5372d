import EntityLisp.SharedScope
import EntityLisp.Proofs.Captured

/-!
# The order of entries

Tables and scopes keep the order in which their keys were entered.

* `Table.keys_enter`, `Table.get?_enter`: what it does to a table if the entries of another one are
  entered into it.
* `Scope.entersInOrder`: **a name keeps its place when it is bound again,** and loses it when it is
  removed.
* `Scope.IsDistinct.mergesInOrder`: **in a merged scope the keys of the caller come first and the
  values of the scope itself win,** while the traits of both are united.
-/

namespace EntityLisp

/-! ### Tables -/

namespace Table

variable {κ α β : Type} [DecidableEq κ]

theorem remove_of_get?_eq_none {key : κ} {table : Table κ α} (h : get? key table = none) :
    remove key table = table := by
  induction table with
  | nil => rfl
  | cons entry rest ih =>
    obtain ⟨k, v⟩ := entry
    unfold get? at h
    split at h
    · cases h
    · next hne => rw [remove, if_neg hne, ih h]

theorem keys_remove (key : κ) (table : Table κ α) :
    (remove key table).keys = table.keys.filter (· ≠ key) := by
  induction table with
  | nil => rfl
  | cons entry rest ih =>
    obtain ⟨k, v⟩ := entry
    by_cases hk : k = key
    · rw [remove, if_pos hk, ih]
      simp [keys, hk]
    · rw [remove, if_neg hk]
      simpa [keys, hk] using ih

/-- **The table into which entries are entered** in their order, where the value of each is combined
with the one that the key has already. -/
def enter (combine : Option α → β → α) (entries : Table κ β) (table : Table κ α) : Table κ α :=
  entries.foldl (fun table entry =>
    put entry.1 (combine (get? entry.1 table) entry.2) table) table

instance (table : Table κ α) : Decidable table.Distinct :=
  inferInstanceAs (Decidable table.keys.Nodup)

theorem Distinct.put {table : Table κ α} (h : table.Distinct) (key : κ) (value : α) :
    (put key value table).Distinct := by
  by_cases hkey : key ∈ table.keys
  · rw [Distinct, keys_put_of_mem hkey]
    exact h
  · rw [Distinct, keys_put_of_not_mem hkey]
    exact List.nodup_append.mpr ⟨h, List.nodup_singleton key, fun other hother => by
      rintro _ hsingle rfl
      exact hkey (List.mem_singleton.mp hsingle ▸ hother)⟩

section Enter

variable {combine : Option α → β → α} {entries : Table κ β} {table : Table κ α}

theorem Distinct.enter (h : table.Distinct) (combine : Option α → β → α)
    (entries : Table κ β) : (enter combine entries table).Distinct := by
  induction entries generalizing table with
  | nil => exact h
  | cons entry rest ih => exact ih (h.put _ _)

/-- **Old keys keep their places,** and new ones come behind them. -/
theorem keys_enter (h : entries.Distinct) : (enter combine entries table).keys =
    table.keys ++ entries.keys.filter (· ∉ table.keys) := by
  induction entries generalizing table with
  | nil => exact (List.append_nil _).symm
  | cons entry rest ih =>
    obtain ⟨k, v⟩ := entry
    obtain ⟨hnew, hrest⟩ := List.nodup_cons.mp h
    show (Table.enter combine rest (put k _ table)).keys = _
    rw [ih hrest]
    rw [show keys ((k, v) :: rest) = k :: keys rest from rfl]
    by_cases hk : k ∈ table.keys
    · rw [keys_put_of_mem hk, List.filter_cons_of_neg (by simpa using hk)]
    · have hothers : (keys rest).filter (· ∉ table.keys ++ [k]) =
          (keys rest).filter (· ∉ table.keys) := by
        refine List.filter_congr fun other hother => ?_
        have hne : other ≠ k := fun heq => hnew (heq ▸ hother)
        simp [hne]
      rw [keys_put_of_not_mem hk, List.filter_cons_of_pos (by simpa using hk), hothers,
        List.append_assoc, List.singleton_append]

theorem get?_enter (h : entries.Distinct) (key : κ) : get? key (enter combine entries table) =
    match get? key entries with
    | none => get? key table
    | some value => some (combine (get? key table) value) := by
  induction entries generalizing table with
  | nil => rfl
  | cons entry rest ih =>
    obtain ⟨k, v⟩ := entry
    obtain ⟨hnew, hrest⟩ := List.nodup_cons.mp h
    show get? key (Table.enter combine rest (put k (combine (get? k table) v) table)) = _
    rw [ih hrest, get?_put]
    by_cases hk : k = key
    · subst hk
      have hnone : get? k rest = none := by
        rw [← Option.not_isSome_iff_eq_none, get?_isSome_iff]
        exact hnew
      simp only [hnone, get?, if_true]
    · simp only [get?, if_neg hk, if_neg (Ne.symm hk)]

end Enter

end Table

/-! ### Scopes -/

namespace Scope

variable {α : Type}

/-- The names that are bound, in order of entry. -/
def names (scope : Scope α) : List String := Table.keys scope.bindings

/-- The types for which traits are declared, in order of entry. -/
def types (scope : Scope α) : List TypeTag := Table.keys scope.traits

/-- A scope that enters no key twice. -/
structure IsDistinct (scope : Scope α) : Prop where
  bindings : Table.Distinct scope.bindings
  traits : Table.Distinct scope.traits

/-- **Names are entered in order:** one that is bound keeps its place, a new one goes to the end,
and so does one that is removed first. -/
structure EntersInOrder (scope : Scope α) : Prop where
  keeps : ∀ name value, name ∈ scope.names → (scope.define name value).names = scope.names
  appends : ∀ name value, name ∉ scope.names →
    (scope.define name value).names = scope.names ++ [name]
  moves : ∀ name value, ((scope.remove name).define name value).names =
    scope.names.filter (· ≠ name) ++ [name]

/-- **The keys of a caller come first and the values of the scope win,** while the traits of both
are united. -/
structure MergesInOrder (scope caller : Scope α) : Prop where
  names : (scope.mergedWith caller).names =
    caller.names ++ scope.names.filter (· ∉ caller.names)
  values : ∀ name, (scope.mergedWith caller).lookup? name =
    (scope.lookup? name).or (caller.lookup? name)
  types : (scope.mergedWith caller).types =
    caller.types ++ scope.types.filter (· ∉ caller.types)
  united : ∀ type, (scope.mergedWith caller).traitsFor type =
    (caller.traitsFor type).union (scope.traitsFor type)

variable {scope : Scope α}

theorem names_define_of_not_mem {name : String} (h : name ∉ scope.names) (value : α) :
    (scope.define name value).names = scope.names ++ [name] :=
  Table.keys_put_of_not_mem h value

theorem names_remove (name : String) :
    (scope.remove name).names = scope.names.filter (· ≠ name) :=
  Table.keys_remove name scope.bindings

theorem bindings_mergedWith (scope caller : Scope α) : (scope.mergedWith caller).bindings =
    Table.enter (fun _ value => value) scope.bindings caller.bindings := rfl

theorem traits_mergedWith (scope caller : Scope α) : (scope.mergedWith caller).traits =
    Table.enter (fun old set => (old.getD .empty).union set) scope.traits caller.traits := rfl

theorem entersInOrder (scope : Scope α) : scope.EntersInOrder := by
  refine ⟨fun name value h => Table.keys_put_of_mem h value,
    fun name value h => names_define_of_not_mem h value, fun name value => ?_⟩
  have hgone : name ∉ (scope.remove name).names := by
    rw [names_remove]
    simp
  rw [names_define_of_not_mem hgone, names_remove]

namespace IsDistinct

theorem ofEntries (bindings : List (String × α)) (traits : List (TypeTag × List TraitTag)) :
    (ofEntries bindings traits).IsDistinct := by
  have hnil : ∀ {κ β : Type}, Table.Distinct ([] : Table κ β) := List.nodup_nil
  exact ⟨hnil.enter (fun _ value => value) bindings, hnil.enter (fun _ set => set) _⟩

theorem define (h : scope.IsDistinct) (name : String) (value : α) :
    (scope.define name value).IsDistinct :=
  ⟨h.bindings.put name value, h.traits⟩

theorem remove (h : scope.IsDistinct) (name : String) : (scope.remove name).IsDistinct := by
  refine ⟨?_, h.traits⟩
  rw [Table.Distinct, show Table.keys (scope.remove name).bindings = _ from names_remove name]
  exact List.Nodup.filter _ h.bindings

theorem implement (h : scope.IsDistinct) (type : TypeTag) (trait : TraitTag) :
    (scope.implement type trait).IsDistinct := by
  unfold Scope.implement
  split
  · exact h
  · exact ⟨h.bindings, h.traits.put _ _⟩

theorem mergedWith {caller : Scope α} (h : caller.IsDistinct) (scope : Scope α) :
    (scope.mergedWith caller).IsDistinct := by
  refine ⟨?_, ?_⟩
  · rw [bindings_mergedWith]
    exact h.bindings.enter _ scope.bindings
  · rw [traits_mergedWith]
    exact h.traits.enter _ scope.traits

theorem mergesInOrder (h : scope.IsDistinct) (caller : Scope α) : scope.MergesInOrder caller := by
  refine ⟨?_, fun name => ?_, ?_, fun type => ?_⟩
  · rw [names, bindings_mergedWith, Table.keys_enter h.bindings]
    rfl
  · rw [lookup?, bindings_mergedWith, Table.get?_enter h.bindings, lookup?]
    cases Table.get? name scope.bindings <;> rfl
  · rw [types, traits_mergedWith, Table.keys_enter h.traits]
    rfl
  · rw [traitsFor, traits_mergedWith, Table.get?_enter h.traits, traitsFor, traitsFor]
    cases Table.get? type scope.traits with
    | none => exact TraitSet.ext_has fun trait => by simp
    | some set => rfl

end IsDistinct

theorem binds_iff_mem_names {name : String} :
    scope.binds name = true ↔ name ∈ scope.names := Table.get?_isSome_iff

/-- In a merged scope the names of the scope itself have its values. -/
theorem MergesInOrder.lookup?_of_mem {caller : Scope α} (h : scope.MergesInOrder caller)
    {name : String} (hname : name ∈ scope.names) :
    (scope.mergedWith caller).lookup? name = scope.lookup? name := by
  obtain ⟨value, hvalue⟩ := Option.isSome_iff_exists.mp (binds_iff_mem_names.mpr hname)
  rw [h.values, hvalue]
  rfl

/-- In a merged scope the other names have the values of the caller. -/
theorem MergesInOrder.lookup?_of_not_mem {caller : Scope α}
    (h : scope.MergesInOrder caller) {name : String} (hname : name ∉ scope.names) :
    (scope.mergedWith caller).lookup? name = caller.lookup? name := by
  have hnone : scope.lookup? name = none := by
    rw [← Option.not_isSome_iff_eq_none]
    exact fun hsome => hname (binds_iff_mem_names.mp hsome)
  rw [h.values, hnone, Option.none_or]

end Scope

end EntityLisp
