/-!
# Tables in order of entry

A table is a list of keys with their values, in the order in which the keys were entered. A key
that is put again keeps its place and takes the new value; a key that was removed and is put
again goes to the end. The bindings and the trait registry of a scope and the attributes of an
entity are tables.

`overlay upper lower` keeps the keys of `lower` first, in their order, then the new keys of
`upper`, and on a key of both the value of `upper`.
-/

namespace EntityLisp

/-- **A table:** keys with values in order of entry. -/
abbrev Table (κ α : Type) := List (κ × α)

namespace Table

variable {κ α : Type} [DecidableEq κ]

/-- The value of a key. -/
def get? (key : κ) : Table κ α → Option α
  | [] => none
  | (k, v) :: rest => if k = key then some v else get? key rest

/-- The table with `value` under `key`, in the place of `key` if it has one and else at the
end. -/
def put (key : κ) (value : α) : Table κ α → Table κ α
  | [] => [(key, value)]
  | (k, v) :: rest => if k = key then (k, value) :: rest else (k, v) :: put key value rest

/-- The table without `key`. -/
def remove (key : κ) : Table κ α → Table κ α
  | [] => []
  | (k, v) :: rest => if k = key then remove key rest else (k, v) :: remove key rest

/-- The keys in order of entry. -/
def keys (table : Table κ α) : List κ := table.map (·.1)

/-- **The table of both, where `upper` wins.** -/
def overlay (upper lower : Table κ α) : Table κ α :=
  upper.foldl (fun table (key, value) => put key value table) lower

/-- The table in which the pairs are entered one after the other. -/
def ofList (pairs : List (κ × α)) : Table κ α := overlay pairs []

/-- No key is entered twice. -/
def Distinct (table : Table κ α) : Prop := table.keys.Nodup

/-! ### What a key holds after an operation -/

theorem get?_put_self (key : κ) (value : α) (table : Table κ α) :
    get? key (put key value table) = some value := by
  induction table with
  | nil => simp [put, get?]
  | cons entry rest ih =>
    obtain ⟨k, v⟩ := entry
    by_cases h : k = key <;> simp [put, get?, h, ih]

theorem get?_put_of_ne {key other : κ} (h : other ≠ key) (value : α) (table : Table κ α) :
    get? other (put key value table) = get? other table := by
  induction table with
  | nil => simp [put, get?, Ne.symm h]
  | cons entry rest ih =>
    obtain ⟨k, v⟩ := entry
    by_cases hk : k = key
    · subst hk
      simp [put, get?, Ne.symm h]
    · simp [put, get?, hk, ih]

theorem get?_put (key other : κ) (value : α) (table : Table κ α) :
    get? other (put key value table) = if other = key then some value else get? other table := by
  split
  · next h => rw [h, get?_put_self]
  · next h => exact get?_put_of_ne h value table

theorem get?_remove_self (key : κ) (table : Table κ α) : get? key (remove key table) = none := by
  induction table with
  | nil => rfl
  | cons entry rest ih =>
    obtain ⟨k, v⟩ := entry
    by_cases h : k = key <;> simp [remove, get?, h, ih]

theorem get?_remove_of_ne {key other : κ} (h : other ≠ key) (table : Table κ α) :
    get? other (remove key table) = get? other table := by
  induction table with
  | nil => rfl
  | cons entry rest ih =>
    obtain ⟨k, v⟩ := entry
    by_cases hk : k = key
    · subst hk
      simp [remove, get?, Ne.symm h, ih]
    · simp [remove, get?, hk, ih]

/-! ### The keys after an operation -/

theorem keys_put_of_mem {key : κ} {table : Table κ α} (h : key ∈ table.keys) (value : α) :
    (put key value table).keys = table.keys := by
  induction table with
  | nil => simp [keys] at h
  | cons entry rest ih =>
    obtain ⟨k, v⟩ := entry
    by_cases hk : k = key
    · simp [put, keys, hk]
    · have hrest : key ∈ keys rest := by
        simp only [keys, List.map_cons, List.mem_cons] at h
        exact h.resolve_left (Ne.symm hk)
      have := ih hrest
      simp only [keys] at this
      simp [put, keys, hk, this]

theorem keys_put_of_not_mem {key : κ} {table : Table κ α} (h : key ∉ table.keys) (value : α) :
    (put key value table).keys = table.keys ++ [key] := by
  induction table with
  | nil => simp [put, keys]
  | cons entry rest ih =>
    obtain ⟨k, v⟩ := entry
    simp only [keys, List.map_cons, List.mem_cons, not_or] at h
    have := ih h.2
    simp only [keys] at this
    simp [put, keys, Ne.symm h.1, this]

end Table

end EntityLisp
