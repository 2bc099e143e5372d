import EntityLisp.Proofs.Avoids
import EntityLisp.Proofs.Frame
import EntityLisp.Proofs.LetForms

/-!
# Captured bindings and the `let` around a call

What a closure has captured beats what its caller binds. A `let` around a call is such a caller,
but it also fixes the pending closures that it inherits, and fixing prefers the scope of the `let`
to what was captured before.

* `Scope.mergedWith_define`, `Scope.mergedWith_fixClosures`: a caller may bind or fix what a closure
  has captured, and the scope of the call stays the same.
* `captured_beats_let`: **a `let` of a captured name does not change what a call gives,** if the
  closure is bound to another name and is not itself fixed by the `let`.
* `let_beats_captured`: a pending closure that a `let` inherits is fixed by it and then sees the new
  value instead of the captured one.
-/

namespace EntityLisp

open Node Run

/-! ### Tables that are overlaid -/

namespace Table

variable {κ α : Type} [DecidableEq κ]

theorem get?_isSome_iff {key : κ} {table : Table κ α} :
    (get? key table).isSome = true ↔ key ∈ table.keys := by
  induction table with
  | nil => simp [get?, keys]
  | cons entry rest ih =>
    obtain ⟨k, v⟩ := entry
    by_cases hk : k = key
    · simp [get?, keys, hk]
    · rw [get?, if_neg hk, ih]
      simp [keys, Ne.symm hk]

theorem mem_put_of_ne {key : κ} {value : α} {table : Table κ α} {entry : κ × α}
    (h : entry ∈ put key value table) (hne : entry.1 ≠ key) : entry ∈ table := by
  induction table with
  | nil => exact absurd (by rw [List.mem_singleton.mp h]) hne
  | cons first rest ih =>
    obtain ⟨k, v⟩ := first
    unfold put at h
    split at h
    · next hk =>
      rcases List.mem_cons.mp h with rfl | h
      · exact absurd hk hne
      · exact List.mem_cons_of_mem _ h
    · rcases List.mem_cons.mp h with rfl | h
      · exact List.mem_cons_self
      · exact List.mem_cons_of_mem _ (ih h)

theorem mem_keys_put_iff {key other : κ} {value : α} {table : Table κ α} :
    other ∈ (put key value table).keys ↔ other = key ∨ other ∈ table.keys := by
  rw [← get?_isSome_iff, get?_put, ← get?_isSome_iff]
  split <;> simp_all

theorem put_put_self (key : κ) (value value' : α) (table : Table κ α) :
    put key value (put key value' table) = put key value table := by
  induction table with
  | nil => simp [put]
  | cons entry rest ih =>
    obtain ⟨k, v⟩ := entry
    by_cases hk : k = key <;> simp [put, hk, ih]

/-- Two keys may be put in either order if one of them has its place already. -/
theorem put_comm {key other : κ} (hne : key ≠ other) {table : Table κ α}
    (h : key ∈ table.keys ∨ other ∈ table.keys) (value value' : α) :
    put key value (put other value' table) = put other value' (put key value table) := by
  induction table with
  | nil => simp [keys] at h
  | cons entry rest ih =>
    obtain ⟨k, v⟩ := entry
    by_cases hk : k = key
    · have hko : k ≠ other := hk ▸ hne
      simp [put, hk, hne]
    · by_cases hko : k = other
      · simp [put, hko, Ne.symm hne]
      · have hrest : key ∈ keys rest ∨ other ∈ keys rest := by
          simpa [keys, Ne.symm hk, Ne.symm hko] using h
        simp [put, hk, hko, ih hrest]

/-- **What is put below a key of the upper table is not seen,** if it has its place there or takes
the place that it would get. -/
theorem overlay_put {key : κ} {upper lower : Table κ α} (hupper : key ∈ upper.keys)
    (hplace : key ∈ lower.keys ∨ upper.keys.find? (decide <| · ∉ lower.keys) = some key)
    (value : α) : overlay upper (put key value lower) = overlay upper lower := by
  induction upper generalizing lower with
  | nil => simp [keys] at hupper
  | cons entry rest ih =>
    obtain ⟨k, v⟩ := entry
    show overlay rest (put k v (put key value lower)) = overlay rest (put k v lower)
    by_cases hk : k = key
    · rw [hk, put_put_self]
    · have hrest : key ∈ keys rest := by simpa [keys, Ne.symm hk] using hupper
      rcases hplace with hlower | hfirst
      · rw [put_comm hk (Or.inr hlower)]
        exact ih hrest (Or.inl (mem_keys_put_iff.mpr (Or.inr hlower)))
      · rw [show keys ((k, v) :: rest) = k :: keys rest from rfl] at hfirst
        -- a key before it that had no place yet would be the first
        have hold : k ∈ lower.keys := by
          by_contra hnew
          rw [List.find?_cons_of_pos (by simpa using hnew)] at hfirst
          exact hk (Option.some.inj hfirst)
        rw [List.find?_cons_of_neg (by simpa using hold)] at hfirst
        rw [put_comm hk (Or.inl hold)]
        refine ih hrest (Or.inr ?_)
        rw [keys_put_of_mem hold]
        exact hfirst

end Table

/-! ### Captured names -/

/-- **A closure does not see what its caller binds to the name:** it has captured the name, which
has its place among the bindings of the caller or is the first captured one that has none. -/
structure Scope.Covers (captured caller : Scope Node) (name : String) : Prop where
  mem : name ∈ Table.keys captured.bindings
  place : name ∈ Table.keys caller.bindings ∨
    (Table.keys captured.bindings).find? (decide <| · ∉ Table.keys caller.bindings) = some name

namespace Scope

variable {scope captured caller : Scope Node}

/-- **Binding a captured name** does not change the scope of a call. -/
theorem mergedWith_define {name : String} (h : captured.Covers caller name) (value : Node) :
    captured.mergedWith (caller.define name value) = captured.mergedWith caller := by
  have hbindings : Table.overlay captured.bindings (caller.define name value).bindings =
      Table.overlay captured.bindings caller.bindings := Table.overlay_put h.mem h.place value
  unfold mergedWith
  rw [hbindings]
  rfl

theorem mem_keys_define {name other : String} {value : Node}
    (h : other ∈ Table.keys scope.bindings) :
    other ∈ Table.keys (scope.define name value).bindings :=
  Table.mem_keys_put_iff.mpr (Or.inr h)

theorem mem_pendingNames {name : String} {c : Closure Node}
    (h : (name, Node.closure c) ∈ scope.bindings) (hpending : c.fixed = false) :
    name ∈ scope.pendingNames :=
  List.mem_map_of_mem (f := (·.1)) (List.mem_filter.mpr ⟨h, by simp [Node.isPending, hpending]⟩)

/-- **Fixing captured names** does not change the scope of a call. -/
theorem mergedWith_fixClosures
    (h : ∀ name ∈ caller.pendingNames, name ∈ Table.keys captured.bindings) :
    captured.mergedWith caller.fixClosures = captured.mergedWith caller := by
  have hkept : captured.mergedWith caller.fixClosures = captured.mergedWith caller ∧
      ∀ name ∈ Table.keys caller.bindings, name ∈ Table.keys caller.fixClosures.bindings := by
    refine fixClosures_induction (P := fun current =>
      captured.mergedWith current = captured.mergedWith caller ∧
        ∀ name ∈ Table.keys caller.bindings, name ∈ Table.keys current.bindings)
      ⟨rfl, fun _ hname => hname⟩ fun current name c hcurrent hbinding hpending => ?_
    have hname : name ∈ caller.pendingNames := mem_pendingNames hbinding hpending
    have hold := hcurrent.2 name (List.mem_map_of_mem hbinding)
    refine ⟨?_, fun other hother => mem_keys_define (hcurrent.2 other hother)⟩
    rw [mergedWith_define ⟨h name hname, Or.inl hold⟩, hcurrent.1]
  exact hkept.1

/-- Fixing does not change a name that is not bound to a pending closure. -/
theorem lookup?_fixClosures {name : String} (h : name ∉ scope.pendingNames) :
    scope.fixClosures.lookup? name = scope.lookup? name := by
  refine fixClosures_induction (P := fun current => current.lookup? name = scope.lookup? name)
    rfl fun current other c hcurrent hbinding hpending => ?_
  have hne : name ≠ other := fun heq => h (heq ▸ mem_pendingNames hbinding hpending)
  rw [lookup?_define, if_neg hne, hcurrent]

theorem mem_pendingNames_define {name other : String} {value : Node}
    (h : other ∈ (scope.define name value).pendingNames) :
    other = name ∨ other ∈ scope.pendingNames := by
  obtain ⟨binding, hbinding, rfl⟩ := List.mem_map.mp h
  obtain ⟨hmem, hpending⟩ := List.mem_filter.mp hbinding
  by_cases hne : binding.1 = name
  · exact Or.inl hne
  · have hkept : binding ∈ scope.bindings := Table.mem_put_of_ne hmem hne
    exact Or.inr (List.mem_map_of_mem (List.mem_filter.mpr ⟨hkept, hpending⟩))

end Scope

/-! ### A `let` around a call -/

theorem not_reserved_of_mem_nil : ∀ name ∈ ([] : List String), name ∉ reservedNames :=
  fun _ hname => absurd hname List.not_mem_nil

/-- The correspondence of two runs of which the second has made some more closures before. -/
def Correspondence.shift (bound more : Nat) : Correspondence where
  origin origin := if origin < bound then origin else origin + more
  injective := by
    intro origin origin' h
    dsimp only at h
    split at h <;> split at h <;> omega
  hidden := []
  not_reserved := not_reserved_of_mem_nil
  traits := False

theorem keeps_shift (bound more : Nat) : (Correspondence.shift bound more).Keeps [] bound :=
  ⟨rfl, fun _ horigin => if_pos horigin⟩

/-- **A name bound to a closure that is shielded from a `let` of another name:** the closure is not
pending, has captured the other name, and has captured every name that is bound to a pending
closure, so that it does not see what the `let` binds or fixes. -/
structure Scope.Shields (scope : Scope Node) (name : String) (c : Closure Node) (other : String) :
    Prop where
  not_core : CoreForm.ofName? name = none
  not_sugar : Sugar.ofName? name = none
  bound : scope.lookup? name = some (.closure c)
  ne : other ≠ name
  covers : c.scope.Covers scope other
  settled : name ∉ scope.pendingNames
  pending : ∀ inherited ∈ scope.pendingNames, inherited ∈ Table.keys c.scope.bindings

namespace Scope.Shields

variable {scope : Scope Node} {name other : String} {c : Closure Node}

/-- The name is bound to the same closure in the `let`. -/
theorem lookup?_let (h : scope.Shields name c other) (value : Node) :
    (scope.define other value).fixClosures.lookup? name = some (.closure c) := by
  have hsettled : name ∉ (scope.define other value).pendingNames := fun hpending =>
    (mem_pendingNames_define hpending).elim (fun heq => h.ne heq.symm) h.settled
  rw [lookup?_fixClosures hsettled, lookup?_define, if_neg (Ne.symm h.ne), h.bound]

/-- **The scope of a call** is the same in the `let`. -/
theorem mergedWith_let (h : scope.Shields name c other) (value : Node) :
    c.scope.mergedWith (scope.define other value).fixClosures = c.scope.mergedWith scope := by
  rw [mergedWith_fixClosures, mergedWith_define h.covers]
  intro pending hpending
  rcases mem_pendingNames_define hpending with rfl | hinherited
  · exact h.covers.mem
  · exact h.pending pending hinherited

/-- Nothing but bindings is asked of the scope. -/
theorem of_bindings_eq {scope' : Scope Node} (h : scope.Shields name c other)
    (heq : scope'.bindings = scope.bindings) : scope'.Shields name c other := by
  obtain ⟨bindings, traits⟩ := scope
  obtain ⟨bindings', traits'⟩ := scope'
  obtain rfl : bindings' = bindings := heq
  have hcovers : c.scope.Covers ⟨bindings', traits'⟩ other := ⟨h.covers.mem, h.covers.place⟩
  exact ⟨h.not_core, h.not_sugar, h.bound, h.ne, hcovers, h.settled, h.pending⟩

end Scope.Shields

theorem Scope.Avoids.mergedWith {hidden : List String} {bound : Nat} {scope caller : Scope Node}
    (h : scope.Avoids hidden bound) (hcaller : caller.Avoids hidden bound) :
    (scope.mergedWith caller).Avoids hidden bound :=
  Table.forall_mem_overlay h hcaller

section Calls

variable {k n : String} {c : Closure Node} {e value : Node} {arguments : List Node}
  {state inside after : RunState}

/-- **Two calls of a closure in the same merged scope** give the same primitive entities, if the
closure, its arguments and the scope are from before the two runs part. -/
theorem exists_ok_applyClosure_iff (hc : (Node.closure c).Avoids [] state.nextOrigin)
    (hscope : state.scope.Avoids [] state.nextOrigin)
    (harguments : ∀ argument ∈ arguments, argument.Avoids [] state.nextOrigin)
    (hmerged : (c.scope.mergedWith inside.scope).bindings =
      (c.scope.mergedWith state.scope).bindings)
    (hlater : state.nextOrigin ≤ inside.nextOrigin) (limit levels : Nat)
    {v : Entity Node} (hv : v.IsPrimitive) :
    (∃ last, applyClosure (eval limit levels) c arguments state = .ok (.entity v) last) ↔
      ∃ last, applyClosure (eval limit levels) c arguments inside = .ok (.entity v) last := by
  let r := Correspondence.shift state.nextOrigin (inside.nextOrigin - state.nextOrigin)
  have hr : r.Keeps [] state.nextOrigin := keeps_shift _ _
  have hcaptured : c.scope.Avoids [] state.nextOrigin := by
    cases hc with
    | plain hplain => cases hplain
    | closure _ _ hcaptured => exact hcaptured
  have hagree : (c.scope.mergedWith state.scope).Agree r (c.scope.mergedWith inside.scope) := by
    refine ⟨?_, fun htraits => htraits.elim⟩
    rw [hmerged]
    exact (hr.agree (hcaptured.mergedWith hscope)).bindings
  have hstep : InStep r (fun scope scope' => (c.scope.mergedWith scope).Agree r
      (c.scope.mergedWith scope')) state inside := by
    refine ⟨hagree, fun later => ?_⟩
    show (if state.nextOrigin + later < state.nextOrigin then _ else _) = inside.nextOrigin + later
    rw [if_neg (by omega)]
    omega
  exact (matches_applyClosure (matchingEvals_eval limit levels)
    (alike_closure_iff.mp (hr.alike hc)) (fun _ _ h => h) (hr.forall₂ harguments)
    state inside hstep).exists_ok_iff hv

/-- What an evaluation leaves of the bindings and the origins. -/
theorem eval_keeps {limit levels : Nat} (h : eval limit levels e state = .ok value after) :
    after.scope.bindings = state.scope.bindings ∧ state.nextOrigin ≤ after.nextOrigin := by
  have hframe := declaredFrom_eval limit levels e state
  have hgrows := grows_eval limit levels e state
  rw [h] at hframe hgrows
  exact ⟨hframe.bindings_eq, hgrows.nextOrigin⟩

/-- **Captured bindings beat a `let`.** A call of a name that is shielded from a `let` of another
gives the same primitive entities inside the `let` as outside, if there the limit of depth is not
reached. -/
theorem captured_beats_let {limit levels : Nat} (h : state.scope.Shields k c n)
    (hscope : state.scope.Avoids [] state.nextOrigin)
    (harguments : ∀ argument ∈ arguments, argument.Avoids [] state.nextOrigin)
    (heval : eval limit levels e (state.startLet 1) = .ok value after)
    (hdepth : ¬DepthFails (eval limit (levels + 1)
      (letForm [(n, e)] [.form (.symbol k :: arguments)]) state))
    {v : Entity Node} (hv : v.IsPrimitive) :
    (∃ last, eval limit (levels + 1) (letForm [(n, e)] [.form (.symbol k :: arguments)]) state =
      .ok (.entity v) last) ↔
        ∃ last, eval limit (levels + 1) (.form (.symbol k :: arguments)) state =
          .ok (.entity v) last := by
  obtain ⟨levels, rfl⟩ : ∃ deeper, levels = deeper + 1 := by
    cases levels with
    | zero => cases heval
    | succ deeper => exact ⟨deeper, rfl⟩
  -- evaluating the value has declared traits at most, and made some closures
  obtain ⟨hbindings, hlater⟩ := eval_keeps heval
  have hafter : after.scope.Shields k c n := h.of_bindings_eq hbindings
  obtain ⟨journal, hlet⟩ := eval_letForm_single heval (.form (.symbol k :: arguments))
  rw [hlet, exists_ok_within_iff]
  rw [hlet, depthFails_within_iff] at hdepth
  let inside : RunState := ⟨(after.scope.define n value).fixClosures, after.nextOrigin, journal⟩
  change ¬DepthFails (eval limit (levels + 1) _ inside) at hdepth
  change (∃ after, eval limit (levels + 1) _ inside = _) ↔ _
  -- both calls apply the closure, the inner one with a level less
  have houter : eval limit (levels + 1 + 1) (.form (.symbol k :: arguments)) state =
      applyClosure (eval limit levels) c arguments state :=
    eval_bound h.not_core h.not_sugar h.bound
  rw [eval_bound h.not_core h.not_sugar (hafter.lookup?_let value)] at hdepth ⊢
  have hcut : applyClosure (eval limit levels) c arguments inside =
      applyClosure (eval limit (levels - 1)) c arguments inside :=
    ((isCutOff_applyClosure (isCutOff_eval limit limit (Nat.sub_le levels 1)) c
      arguments).agrees inside).resolve_left hdepth
  rw [houter, ← hcut]
  -- and both do so in the same merged scope
  have hmerged : (c.scope.mergedWith inside.scope).bindings =
      (c.scope.mergedWith state.scope).bindings := by
    rw [show inside.scope = (after.scope.define n value).fixClosures from rfl,
      hafter.mergedWith_let value]
    show Table.overlay c.scope.bindings after.scope.bindings = _
    rw [hbindings]
    rfl
  exact (exists_ok_applyClosure_iff (hscope (k, _) (Table.mem_of_get? h.bound)) hscope harguments
    hmerged hlater limit levels hv).symm

end Calls

/-- The function `(lambda ((x as Integer)) returns Integer (add x y))`, fixed where `y` is 1. -/
def addCaptured : Closure Node :=
  ⟨[("x", .integer)], .integer, .form [.symbol "add", .symbol "x", .symbol "y"],
    ⟨[("y", .entity (integerEntity 1))], []⟩, true, 1⟩

/-- A state in which `y` is 1 and `f` that function. -/
def addState : RunState :=
  ⟨⟨[("y", .entity (integerEntity 1)), ("f", .closure addCaptured)], []⟩, 2, []⟩

/-- The call `(f 1)` gives 2, and so it does with `y` bound to 1000 by a `let` around it. -/
theorem captured_beats_let_add :
    addState.scope.Shields "f" addCaptured "y" ∧
      (∃ last, eval 200 9 (.form [.symbol "f", .int 1]) addState =
        .ok (.entity (integerEntity 2)) last) ∧
      ∃ last, eval 200 9 (letForm [("y", .form [.symbol "Integer", .int 1000])]
        [.form [.symbol "f", .int 1]]) addState = .ok (.entity (integerEntity 2)) last := by
  have hshields : addState.scope.Shields "f" addCaptured "y" :=
    ⟨by decide, by decide, rfl, by decide, ⟨by decide, Or.inl (by decide)⟩, by decide, by decide⟩
  have hinteger : ∀ value, (Node.entity (integerEntity value)).Avoids [] 2 := fun value =>
    .entity (.plain rfl) fun _ hattr => absurd hattr List.not_mem_nil
  have hbody : addCaptured.body.Avoids [] 2 := by
    simp [addCaptured, avoids_form_iff, avoids_symbol_iff]
  have hscope : addState.scope.Avoids [] addState.nextOrigin := by
    intro binding hbinding
    rcases List.mem_cons.mp hbinding with rfl | hbinding
    · exact hinteger 1
    · obtain rfl := List.mem_singleton.mp hbinding
      refine .closure (by decide) hbody fun captured hcaptured => ?_
      obtain rfl := List.mem_singleton.mp hcaptured
      exact hinteger 1
  have hrun : ∃ last, eval 200 9 (.form [.symbol "f", .int 1]) addState =
    .ok (.entity (integerEntity 2)) last := ⟨_, rfl⟩
  have hlet : ∃ result last, eval 200 9 (letForm [("y", .form [.symbol "Integer", .int 1000])]
      [.form [.symbol "f", .int 1]]) addState = .ok result last ∧
        last.journal.any Event.isDepthFailure = false := ⟨_, _, rfl, rfl⟩
  have hvalue : ∃ after, eval 200 8 (.form [.symbol "Integer", .int 1000]) (addState.startLet 1) =
    .ok (.entity (integerEntity 1000)) after := ⟨_, rfl⟩
  obtain ⟨after, hvalue⟩ := hvalue
  refine ⟨hshields, hrun, (captured_beats_let hshields hscope (fun argument hargument => ?_)
    hvalue ?_ (isPrimitive_integerEntity 2)).mpr hrun⟩
  · obtain rfl := List.mem_singleton.mp hargument
    exact .plain rfl
  · obtain ⟨result, last, hlast, hjournal⟩ := hlet
    rw [hlast, depthFails_ok_iff]
    simpa using hjournal

/-! ### Closures that a `let` inherits -/

/-- The function `(lambda () returns Integer n)`, pending where `n` is 1. -/
def pendingFunction : Closure Node :=
  ⟨[], .integer, .symbol "n", ⟨[("n", .entity (integerEntity 1))], []⟩, false, 2⟩

/-- A state in which `k` is that function. -/
def pendingState : RunState := ⟨⟨[("k", .closure pendingFunction)], []⟩, 3, []⟩

/-- The program `((lambda ((k as Lambda)) returns Integer body) (let ((n be (Integer 1)))
(lambda () returns Integer n)))`, in whose body `k` is bound to that function. -/
def lentProgram (body : Node) : Node :=
  .form [.form [.symbol "lambda", .form [.form [.symbol "k", .symbol "as", .symbol "Lambda"]],
      .symbol "returns", .symbol "Integer", body],
    letForm [("n", .form [.symbol "Integer", .int 1])]
      [.form [.symbol "lambda", .form [], .symbol "returns", .symbol "Integer", .symbol "n"]]]

/-- **A `let` that inherits a pending closure fixes it** and prefers its own binding to the captured
one, although it does not bind the closure. -/
theorem let_beats_captured :
    pendingState.scope.lookup? "k" = some (.closure pendingFunction) ∧
      pendingFunction.scope.lookup? "n" = some (.entity (integerEntity 1)) ∧
      (∃ last, eval 200 9 (.form [.symbol "k"]) pendingState =
        .ok (.entity (integerEntity 1)) last) ∧
      (∃ last, eval 200 9 (letForm [("n", .form [.symbol "Integer", .int 5])]
        [.form [.symbol "k"]]) pendingState = .ok (.entity (integerEntity 5)) last) ∧
      (∃ last, evaluate 200 (lentProgram (.form [.symbol "k"])) (.initial .empty) =
        .ok (.entity (integerEntity 1)) last) ∧
      ∃ last, evaluate 200 (lentProgram (letForm [("n", .form [.symbol "Integer", .int 5])]
        [.form [.symbol "k"]])) (.initial .empty) = .ok (.entity (integerEntity 5)) last :=
  ⟨rfl, rfl, exists_ok_of_givesInteger (by decide +kernel),
    exists_ok_of_givesInteger (by decide +kernel), exists_ok_of_givesInteger (by decide +kernel),
    exists_ok_of_givesInteger (by decide +kernel)⟩

end EntityLisp
