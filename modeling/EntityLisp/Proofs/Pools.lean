import EntityLisp.SharedScope
import Mathlib.Data.List.Basic

/-!
# Pools of shared tables

Behind the sharing of tables stands one fact: a table that is held by two environments is owned by
neither, so what is changed in place is seen by the environment that changes it only.

* `Pool.Shows`: which tables the environments of a pool show, with that fact as a part.
* `Pool.Shows.add`, `Pool.Shows.share`, `Pool.Shows.own`, `Pool.Shows.overwrite`: what the
  operations on a pool do to the tables that are shown.
* `Pool.Shows.write`: **a write changes the table of one environment.**
-/

namespace EntityLisp

/-! ### Lists at a position -/

section Lists

variable {α β : Type}

theorem getElem?_concat (xs : List α) (x : α) (position : Nat) :
    (xs ++ [x])[position]? = if position = xs.length then some x else xs[position]? := by
  rcases Nat.lt_trichotomy position xs.length with hlt | rfl | hlt
  · rw [List.getElem?_append_left hlt, if_neg (Nat.ne_of_lt hlt)]
  · rw [List.getElem?_concat_length, if_pos rfl]
  · rw [if_neg (Nat.ne_of_gt hlt), List.getElem?_eq_none (Nat.le_of_lt hlt),
      List.getElem?_eq_none (by rw [List.length_append]; exact hlt)]

theorem getElem?_set_of_some {xs : List α} {position : Nat} {old : α}
    (h : xs[position]? = some old) (x : α) (other : Nat) :
    (xs.set position x)[other]? = if other = position then some x else xs[other]? := by
  have hlt := (List.getElem?_eq_some_iff.mp h).choose
  by_cases heq : other = position
  · rw [if_pos heq, heq, List.getElem?_set_self hlt]
  · rw [if_neg heq, List.getElem?_set_ne (Ne.symm heq)]

theorem modify_of_none {xs : List α} {position : Nat} (h : xs[position]? = none) (f : α → α) :
    xs.modify position f = xs :=
  List.modify_eq_self (List.getElem?_eq_none_iff.mp h)

theorem modify_congr_of_some {xs : List α} {position : Nat} {x : α} (hx : xs[position]? = some x)
    {f g : α → α} (h : f x = g x) : xs.modify position f = xs.modify position g := by
  refine List.ext_getElem? fun other => ?_
  rw [List.getElem?_modify, List.getElem?_modify]
  by_cases heq : position = other
  · subst heq
    simp only [if_true, hx, Option.map_eq_map, Option.map_some, h]
  · simp only [if_neg heq]

theorem modify_of_some {xs : List α} {position : Nat} {x : α} (hx : xs[position]? = some x)
    {f : α → α} (h : f x = x) : xs.modify position f = xs := by
  have hid : xs.modify position f = xs.modify position id := modify_congr_of_some hx h
  rw [hid, List.modify_id]

theorem map_modify {f : α → α} {g : β → β} {part : α → β} (h : ∀ x, part (f x) = g (part x))
    (xs : List α) (position : Nat) :
    (xs.modify position f).map part = (xs.map part).modify position g := by
  refine List.ext_getElem? fun other => ?_
  rw [List.getElem?_map, List.getElem?_modify, List.getElem?_modify, List.getElem?_map]
  by_cases heq : position = other
  · cases xs[other]? <;> simp [heq, h]
  · simp [heq]

theorem map_modify_eq_map {f : α → α} {part : α → β} (h : ∀ x, part (f x) = part x)
    (xs : List α) (position : Nat) : (xs.modify position f).map part = xs.map part := by
  have hid : (xs.modify position f).map part = (xs.map part).modify position id :=
    map_modify h xs position
  rw [hid, List.modify_id]

theorem forall_mem_modify {xs : List α} {P : α → Prop} (h : ∀ x ∈ xs, P x) {f : α → α}
    (hf : ∀ x, P x → P (f x)) (position : Nat) : ∀ x ∈ xs.modify position f, P x := by
  intro x hx
  obtain ⟨other, hother⟩ := List.mem_iff_getElem?.mp hx
  rw [List.getElem?_modify] at hother
  obtain ⟨old, hold, rfl⟩ := Option.map_eq_some_iff.mp hother
  have hP := h old (List.mem_of_getElem? hold)
  split
  · exact hf old hP
  · exact hP

end Lists

/-! ### Pools -/

/-- **Owners hold their tables alone:** a table that two environments hold is owned by neither. -/
def OwnersAlone (holders : List Holder) : Prop :=
  ∀ {first second : Nat} {holder other : Holder}, first ≠ second →
    holders[first]? = some holder → holders[second]? = some other →
      holder.place = other.place → holder.owns = false

namespace Pool

variable {τ : Type}

/-- **The tables that the environments of a pool show,** by number, where owners hold theirs
alone. -/
structure Shows (pool : Pool τ) (tables : List τ) : Prop where
  length : pool.holders.length = tables.length
  shown : ∀ number : Nat, pool.shown? number = tables[number]?
  alone : OwnersAlone pool.holders

theorem shows_empty : (empty : Pool τ).Shows [] :=
  ⟨rfl, fun _ => rfl, fun _ h => by cases h⟩

namespace Shows

variable {pool : Pool τ} {tables : List τ} {number : Nat} {holder : Holder}
  (h : pool.Shows tables)

include h

/-! ### What an environment holds -/

theorem table_eq (hholder : pool.holders[number]? = some holder) :
    pool.tables[holder.place]? = tables[number]? := by
  rw [← h.shown, shown?, hholder]
  rfl

/-- What an environment holds is in the pool. -/
theorem place_lt (hholder : pool.holders[number]? = some holder) :
    holder.place < pool.tables.length := by
  have hlt : number < tables.length := h.length ▸ (List.getElem?_eq_some_iff.mp hholder).choose
  have htable := h.table_eq hholder
  rw [List.getElem?_eq_getElem hlt] at htable
  exact (List.getElem?_eq_some_iff.mp htable).choose

/-- **An environment that holds its old place shows the same** if that place was not changed. -/
theorem shown_eq {pool' : Pool τ}
    (hplace : pool'.holders[number]?.map Holder.place = pool.holders[number]?.map Holder.place)
    (htables : ∀ holder, pool.holders[number]? = some holder →
      pool'.tables[holder.place]? = pool.tables[holder.place]?) :
    pool'.shown? number = tables[number]? := by
  rw [← h.shown, shown?, shown?]
  cases hholder : pool.holders[number]? with
  | none =>
    rw [hholder, Option.map_none, Option.map_eq_none_iff] at hplace
    rw [hplace]
    rfl
  | some holder =>
    rw [hholder, Option.map_some, Option.map_eq_some_iff] at hplace
    obtain ⟨holder', hholder', hsame⟩ := hplace
    rw [hholder']
    show pool'.tables[holder'.place]? = pool.tables[holder.place]?
    rw [hsame, htables holder hholder]

/-- **A new table for one environment,** which owns it: no other environment holds its place. -/
theorem of_new_table {pool' : Pool τ} {table : τ} {owner : Nat}
    (htables : pool'.tables = pool.tables ++ [table])
    (hholders : ∀ number : Nat, pool'.holders[number]? =
      if number = owner then some ⟨pool.tables.length, true⟩ else pool.holders[number]?) :
    (∀ number, pool'.shown? number = if number = owner then some table else tables[number]?) ∧
      OwnersAlone pool'.holders := by
  refine ⟨fun number => ?_, fun {first second holder other} hne hfirst hsecond hplace => ?_⟩
  · split
    · next heq =>
      rw [shown?, hholders, if_pos heq, htables]
      exact List.getElem?_concat_length
    · next hne =>
      refine h.shown_eq (by rw [hholders, if_neg hne]) fun holder hholder => ?_
      rw [htables, List.getElem?_append_left (h.place_lt hholder)]
  · rw [hholders] at hfirst hsecond
    split at hfirst <;> split at hsecond
    · omega
    · cases hfirst
      exact absurd hplace (Nat.ne_of_gt (h.place_lt hsecond))
    · cases hsecond
      exact absurd hplace (Nat.ne_of_lt (h.place_lt hfirst))
    · exact h.alone hne hfirst hsecond hplace

/-! ### Operations -/

theorem add (table : τ) : (pool.add table).Shows (tables ++ [table]) := by
  obtain ⟨hshown, halone⟩ : (∀ number, (pool.add table).shown? number =
      if number = pool.holders.length then some table else tables[number]?) ∧
        OwnersAlone (pool.add table).holders := h.of_new_table rfl (getElem?_concat _ _)
  refine ⟨?_, fun number => ?_, halone⟩
  · rw [Pool.add, List.length_append, List.length_append, h.length]
    rfl
  · rw [hshown, getElem?_concat, h.length]

theorem share (number : Nat) :
    (pool.share number).Shows (tables ++ tables[number]?.toList) := by
  cases hholder : pool.holders[number]? with
  | none =>
    have hnone : tables[number]? = none := by
      rw [← h.shown, shown?, hholder]
      rfl
    rw [Pool.share, hholder, hnone, Option.toList_none, List.append_nil]
    exact h
  | some holder =>
    obtain ⟨table, htable⟩ : ∃ table, tables[number]? = some table :=
      ⟨_, List.getElem?_eq_getElem (h.length ▸ (List.getElem?_eq_some_iff.mp hholder).choose)⟩
    have hshare : pool.share number = { pool with
        holders := pool.holders.set number { holder with owns := false } ++
          [{ holder with owns := false }] } := by
      rw [Pool.share, hholder]
    have htables : (pool.share number).tables = pool.tables := by rw [hshare]
    have hholders : ∀ other, (pool.share number).holders[other]? =
        if other = pool.holders.length ∨ other = number then some { holder with owns := false }
        else pool.holders[other]? := by
      intro other
      rw [hshare, getElem?_concat, List.length_set, getElem?_set_of_some hholder]
      by_cases hlast : other = pool.holders.length <;> simp [hlast]
    rw [htable, Option.toList_some]
    refine ⟨?_, fun other => ?_, fun {first second held other} hne hfirst hsecond hplace => ?_⟩
    · rw [hshare, List.length_append, List.length_append, List.length_set, h.length]
      rfl
    · rw [getElem?_concat, ← h.length]
      split
      · next heq =>
        have hsource := h.table_eq hholder
        rw [shown?, hholders, if_pos (Or.inl heq), htables, ← htable]
        exact hsource
      · refine h.shown_eq ?_ fun _ _ => by rw [htables]
        rw [hholders]
        by_cases heq : other = number
        · rw [if_pos (Or.inr heq), heq, hholder]
          rfl
        · rw [if_neg (by simp_all)]
    · -- both sides of the new sharing have lost the flag
      rw [hholders] at hfirst hsecond
      split at hfirst
      · cases hfirst
        rfl
      · next hold =>
        split at hsecond
        · cases hsecond
          exact h.alone (fun heq => hold (Or.inr heq)) hfirst hholder hplace
        · exact h.alone hne hfirst hsecond hplace

/-- **After copying, an environment owns its table,** and all environments show the same. -/
theorem own (number : Nat) : (pool.own number).Shows tables ∧
    ∀ holder, (pool.own number).holders[number]? = some holder → holder.owns = true := by
  cases hholder : pool.holders[number]? with
  | none =>
    have hown : pool.own number = pool := by rw [Pool.own, hholder]
    rw [hown, hholder]
    exact ⟨h, nofun⟩
  | some holder =>
    by_cases howns : holder.owns = true
    · have hown : pool.own number = pool := by rw [Pool.own, hholder]; exact if_pos howns
      rw [hown, hholder]
      exact ⟨h, fun holder' heq => Option.some.inj heq ▸ howns⟩
    obtain ⟨table, htable⟩ : ∃ table, pool.tables[holder.place]? = some table :=
      ⟨_, List.getElem?_eq_getElem (h.place_lt hholder)⟩
    have hown : pool.own number =
        ⟨pool.tables ++ [table], pool.holders.set number ⟨pool.tables.length, true⟩⟩ := by
      rw [Pool.own, hholder]
      show (if holder.owns then _ else _) = _
      rw [if_neg howns, htable]
      rfl
    have hholders : ∀ other, (pool.own number).holders[other]? =
        if other = number then some ⟨pool.tables.length, true⟩ else pool.holders[other]? := by
      rw [hown]
      exact getElem?_set_of_some hholder _
    obtain ⟨hshown, halone⟩ := h.of_new_table (by rw [hown]) hholders
    refine ⟨⟨?_, fun other => ?_, halone⟩, fun held hheld => ?_⟩
    · rw [hown, List.length_set, h.length]
    · rw [hshown]
      split
      · next heq => rw [heq, ← h.table_eq hholder, htable]
      · rfl
    · rw [hholders, if_pos rfl] at hheld
      cases hheld
      rfl

/-- **A table that is owned may be changed in place.** -/
theorem overwrite (howns : ∀ holder, pool.holders[number]? = some holder → holder.owns = true)
    (change : τ → τ) : (pool.overwrite number change).Shows (tables.modify number change) := by
  cases hholder : pool.holders[number]? with
  | none =>
    have hle : tables.length ≤ number := h.length ▸ List.getElem?_eq_none_iff.mp hholder
    rw [Pool.overwrite, hholder, List.modify_eq_self hle]
    exact h
  | some holder =>
    have hwrite : pool.overwrite number change =
        { pool with tables := pool.tables.modify holder.place change } := by
      rw [Pool.overwrite, hholder]
    have htables : ∀ place, (pool.overwrite number change).tables[place]? =
        (fun table => if holder.place = place then change table else table) <$>
          pool.tables[place]? := by
      intro place
      rw [hwrite]
      exact List.getElem?_modify change holder.place pool.tables place
    refine ⟨?_, fun other => ?_, ?_⟩
    · rw [hwrite, List.length_modify]
      exact h.length
    · rw [List.getElem?_modify]
      by_cases heq : number = other
      · subst heq
        have hsource := htables holder.place
        rw [h.table_eq hholder] at hsource
        simp only [if_true] at hsource ⊢
        rw [← hsource, shown?, hwrite, hholder]
        rfl
      · simp only [if_neg heq, id_map']
        refine h.shown_eq (by rw [hwrite]) fun held hheld => ?_
        -- no other environment holds the table
        have hne : holder.place ≠ held.place := fun hplace => by
          have halone := h.alone heq hholder hheld hplace
          rw [howns holder hholder] at halone
          cases halone
        rw [htables]
        simp only [if_neg hne, id_map']
    · rw [hwrite]
      exact h.alone

/-- **A write changes the table of one environment.** -/
theorem write (number : Nat) (change : τ → τ) :
    (pool.write number change).Shows (tables.modify number change) :=
  (h.own number).1.overwrite (h.own number).2 change

end Shows

end Pool

end EntityLisp
