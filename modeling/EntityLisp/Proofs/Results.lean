/-!
# Results of computations that can fail

When a computation that is built with `map`, `bind` or `mapError` succeeds or fails, in terms of
the computations it is built from. `Except.Related` says that two computations fail in the same
way or succeed with related values.
-/

namespace Except

variable {ε ε' α β : Type}

theorem map_eq_ok_iff {f : α → β} {x : Except ε α} {b : β} :
    x.map f = .ok b ↔ ∃ a, x = .ok a ∧ f a = b := by
  cases x with
  | error e =>
    constructor
    · rintro ⟨⟩
    · rintro ⟨a, ha, -⟩
      cases ha
  | ok a => simp [Except.map]

theorem map_eq_error_iff {f : α → β} {x : Except ε α} {e : ε} :
    x.map f = .error e ↔ x = .error e := by
  cases x with
  | error e' => simp [Except.map]
  | ok a => simp [Except.map]

theorem bind_eq_ok_iff {f : α → Except ε β} {x : Except ε α} {b : β} :
    x.bind f = .ok b ↔ ∃ a, x = .ok a ∧ f a = .ok b := by
  cases x with
  | error e =>
    constructor
    · rintro ⟨⟩
    · rintro ⟨a, ha, -⟩
      cases ha
  | ok a => simp [Except.bind]

theorem bind_eq_error_iff {f : α → Except ε β} {x : Except ε α} {e : ε} :
    x.bind f = .error e ↔ x = .error e ∨ ∃ a, x = .ok a ∧ f a = .error e := by
  cases x with
  | error e' => simp [Except.bind]
  | ok a => simp [Except.bind]

theorem mapError_eq_ok_iff {f : ε → ε'} {x : Except ε α} {a : α} :
    x.mapError f = .ok a ↔ x = .ok a := by
  constructor
  · intro h
    cases x with
    | error e => cases h
    | ok a' =>
      cases h
      rfl
  · rintro rfl
    rfl

theorem mapError_eq_error_iff {f : ε → ε'} {x : Except ε α} {e' : ε'} :
    x.mapError f = .error e' ↔ ∃ e, x = .error e ∧ f e = e' := by
  constructor
  · intro h
    cases x with
    | error e =>
      cases h
      exact ⟨e, rfl, rfl⟩
    | ok a => cases h
  · rintro ⟨e, rfl, rfl⟩
    rfl

/-- A fold over a list fails at the first item at which its step fails. -/
theorem foldlM_eq_error_iff {f : β → α → Except ε β} {items : List α} {init : β} {e : ε} :
    items.foldlM f init = .error e ↔ ∃ before item after acc, items = before ++ item :: after ∧
      before.foldlM f init = .ok acc ∧ f acc item = .error e := by
  induction items generalizing init with
  | nil =>
    constructor
    · rintro ⟨⟩
    · rintro ⟨before, item, after, acc, heq, -⟩
      exact absurd heq (by simp)
  | cons first rest ih =>
    have hstep : (first :: rest).foldlM f init = (f init first).bind (rest.foldlM f ·) := rfl
    rw [hstep, bind_eq_error_iff]
    constructor
    · rintro (hfirst | ⟨acc, hfirst, hrest⟩)
      · exact ⟨[], first, rest, init, rfl, rfl, hfirst⟩
      · obtain ⟨before, item, after, acc', rfl, hbefore, hitem⟩ := ih.mp hrest
        refine ⟨first :: before, item, after, acc', rfl, ?_, hitem⟩
        exact bind_eq_ok_iff.mpr ⟨acc, hfirst, hbefore⟩
    · rintro ⟨before, item, after, acc, heq, hbefore, hitem⟩
      cases before with
      | nil =>
        obtain ⟨rfl, rfl⟩ := List.cons.inj heq
        cases hbefore
        exact Or.inl hitem
      | cons other before =>
        obtain ⟨rfl, rfl⟩ := List.cons.inj heq
        obtain ⟨acc', hfirst, hrest⟩ := bind_eq_ok_iff.mp hbefore
        exact Or.inr ⟨acc', hfirst, ih.mpr ⟨before, item, after, acc, rfl, hrest, hitem⟩⟩

/-! ### Related results -/

/-- **Two results are related:** both are the same error, or both are values that are related. -/
inductive Related (R : α → β → Prop) : Except ε α → Except ε β → Prop where
  | error (e : ε) : Related R (.error e) (.error e)
  | ok {a : α} {b : β} (h : R a b) : Related R (.ok a) (.ok b)

variable {γ δ : Type} {R : α → β → Prop} {S : γ → δ → Prop}

theorem Related.map {x : Except ε α} {y : Except ε β} (h : Related R x y) {f : α → γ} {g : β → δ}
    (hfg : ∀ a b, R a b → S (f a) (g b)) : Related S (x.map f) (y.map g) := by
  cases h with
  | error e => exact .error e
  | ok h => exact .ok (hfg _ _ h)

theorem Related.bind {x : Except ε α} {y : Except ε β} (h : Related R x y)
    {f : α → Except ε γ} {g : β → Except ε δ} (hfg : ∀ a b, R a b → Related S (f a) (g b)) :
    Related S (x.bind f) (y.bind g) := by
  cases h with
  | error e => exact .error e
  | ok h => exact hfg _ _ h

theorem Related.mapError {x : Except ε α} {y : Except ε β} (h : Related R x y) (f : ε → ε') :
    Related R (x.mapError f) (y.mapError f) := by
  cases h with
  | error e => exact .error (f e)
  | ok h => exact .ok h

/-- A result is related to itself if its value is. -/
theorem related_self {R : α → α → Prop} {x : Except ε α} (h : ∀ a, x = .ok a → R a a) :
    Related R x x := by
  cases x with
  | error e => exact .error e
  | ok a => exact .ok (h a rfl)

end Except
