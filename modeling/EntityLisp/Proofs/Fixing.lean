import EntityLisp.Proofs.EntryOrder
import EntityLisp.Proofs.LetAsCall
import EntityLisp.Proofs.Ledger

/-!
# Fixing

The pending closures of a scope are fixed one after the other, in order of entry, and each captures
the scope as the ones before it have left it. So a closure sees those before it fixed, and itself
and those behind it pending.

* `Scope.halfFixed`: the scope in which only the first bindings have been fixed.
  `Scope.rebindsOnly_halfFixed` compares it with the scope from before, and
  `Scope.IsPlace.lookup?_halfFixed` with the one in which all is fixed.
* `Scope.IsPlace.isSnapshot`: what the closure at one place among the bindings captures.
* `Scope.isFixing_fixClosures`: **what fixing does to each binding,** and that it is done once and
  for all.
-/

namespace EntityLisp

open Node

namespace Scope

/-! ### What is captured -/

/-- The names that are entered before a name. -/
def namesBefore (scope : Scope Node) (name : String) : List String :=
  scope.names.takeWhile (· ≠ name)

/-- **The snapshot that a closure captures under a name** when `scope` becomes `fixed`, where it has
captured `earlier` before: the names that are entered before its own have what they are fixed to,
the other names of the scope what they are bound to before, and all else is as captured earlier. -/
structure IsSnapshot (snapshot scope fixed : Scope Node) (name : String) (earlier : Scope Node) :
    Prop where
  binds : ∀ other, snapshot.binds other = (scope.binds other || earlier.binds other)
  before : ∀ other ∈ scope.namesBefore name, snapshot.lookup? other = fixed.lookup? other
  behind : ∀ other ∈ scope.names, other ∉ scope.namesBefore name →
    snapshot.lookup? other = scope.lookup? other
  captured : ∀ other, other ∉ scope.names → snapshot.lookup? other = earlier.lookup? other
  traits : ∀ type, snapshot.traitsFor type = (earlier.traitsFor type).union (scope.traitsFor type)

/-- **A scope whose pending closures are fixed:** names, traits and other values are as before, and
a pending closure is replaced by a fixed one with the same origin and code. -/
structure IsFixing (fixed scope : Scope Node) : Prop where
  names : fixed.names = scope.names
  traits : fixed.traits = scope.traits
  kept : ∀ name value, scope.lookup? name = some value → value.isPending = false →
    fixed.lookup? name = some value
  replaced : ∀ name c, scope.lookup? name = some (.closure c) → c.fixed = false →
    ∃ d : Closure Node, fixed.lookup? name = some (.closure d) ∧ d.fixed = true ∧
      d.origin = c.origin ∧ d.code = c.code ∧ d.scope.IsSnapshot scope fixed name c.scope
  settled : fixed.pendingNames = []

end Scope

/-! ### Small facts -/

theorem Closure.scope_fix (c : Closure Node) (h : c.fixed = false) (scope : Scope Node) :
    (c.fix scope).scope = scope := by
  rw [fix, h]
  rfl

theorem Node.isPending_iff {value : Node} :
    value.isPending = true ↔ ∃ c : Closure Node, value = .closure c ∧ c.fixed = false := by
  cases value <;> simp [isPending]

namespace Scope

/-! ### The scope in between -/

/-- **A scope that differs from another one** in what some of the names are bound to. -/
structure RebindsOnly (after before : Scope Node) (changed : List String) : Prop where
  names : after.names = before.names
  traits : after.traits = before.traits
  lookup? : ∀ name, name ∉ changed → after.lookup? name = before.lookup? name

theorem RebindsOnly.trans {before between after : Scope Node} {first second : List String}
    (hfirst : between.RebindsOnly before first) (hsecond : after.RebindsOnly between second) :
    after.RebindsOnly before (first ++ second) := by
  refine ⟨hsecond.names.trans hfirst.names, hsecond.traits.trans hfirst.traits,
    fun name hname => ?_⟩
  rw [List.mem_append, not_or] at hname
  exact (hsecond.lookup? name hname.2).trans (hfirst.lookup? name hname.1)

theorem RebindsOnly.binds {before after : Scope Node} {changed : List String}
    (h : after.RebindsOnly before changed) (name : String) :
    after.binds name = before.binds name := by
  rw [Bool.eq_iff_iff, binds_iff_mem_names, binds_iff_mem_names, h.names]

variable {scope : Scope Node}

theorem rebindsOnly_define {name : String} (h : name ∈ scope.names) (value : Node) :
    (scope.define name value).RebindsOnly scope [name] := by
  refine ⟨scope.entersInOrder.keeps name value h, rfl, fun other hother => ?_⟩
  rw [lookup?_define, if_neg fun heq => hother (List.mem_singleton.mpr heq)]

theorem fixBinding_of_isPending (scope : Scope Node) (name : String) {c : Closure Node}
    (h : c.fixed = false) : fixBinding scope (name, .closure c) =
      scope.define name (.closure (c.fix (scope.mergedWith c.scope))) := by
  unfold fixBinding
  exact if_neg (by rw [h]; exact Bool.false_ne_true)

theorem fixBinding_of_not_isPending {binding : String × Node} (h : binding.2.isPending = false) :
    fixBinding scope binding = scope := by
  unfold fixBinding
  split
  · next c heq =>
    rw [heq, isPending, Bool.not_eq_false'] at h
    exact if_pos h
  · rfl

/-- **A step of fixing** changes no value but that of its own name. -/
theorem rebindsOnly_fixBinding {binding : String × Node} (h : binding.1 ∈ scope.names) :
    (fixBinding scope binding).RebindsOnly scope [binding.1] := by
  unfold fixBinding
  split
  · split
    · exact ⟨rfl, rfl, fun _ _ => rfl⟩
    · exact rebindsOnly_define h _
  · exact ⟨rfl, rfl, fun _ _ => rfl⟩

/-- **The scope in which only the bindings in `done` have been fixed,** as far as they are pending
closures. -/
def halfFixed (scope : Scope Node) (done : List (String × Node)) : Scope Node :=
  done.foldl fixBinding scope

/-- **The steps of fixing** change no values but those of the names that they have come to. -/
theorem rebindsOnly_halfFixed {done : List (String × Node)}
    (h : ∀ binding ∈ done, binding.1 ∈ scope.names) :
    (scope.halfFixed done).RebindsOnly scope (Table.keys done) := by
  induction done generalizing scope with
  | nil => exact ⟨rfl, rfl, fun _ _ => rfl⟩
  | cons binding rest ih =>
    rw [List.forall_mem_cons] at h
    have hstep := rebindsOnly_fixBinding h.1
    have hrest : ∀ other ∈ rest, other.1 ∈ (fixBinding scope binding).names := by
      rw [hstep.names]
      exact h.2
    exact hstep.trans (ih hrest)

theorem IsDistinct.of_rebindsOnly {after : Scope Node} {changed : List String}
    (h : scope.IsDistinct) (hrebinds : after.RebindsOnly scope changed) : after.IsDistinct := by
  refine ⟨?_, ?_⟩
  · rw [Table.Distinct, show Table.keys after.bindings = _ from hrebinds.names]
    exact h.bindings
  · rw [hrebinds.traits]
    exact h.traits

/-! ### One closure among the others -/

/-- **A place among the bindings of a scope,** with those before it and those behind it. -/
structure IsPlace (scope : Scope Node) (done : List (String × Node)) (name : String) (value : Node)
    (rest : List (String × Node)) : Prop where
  bindings : scope.bindings = done ++ (name, value) :: rest
  distinct : scope.IsDistinct

theorem IsDistinct.exists_isPlace (h : scope.IsDistinct) {name : String} {value : Node}
    (hlookup : scope.lookup? name = some value) :
    ∃ done rest, scope.IsPlace done name value rest := by
  obtain ⟨done, rest, hsplit⟩ := List.append_of_mem (Table.mem_of_get? hlookup)
  exact ⟨done, rest, hsplit, h⟩

namespace IsPlace

variable {done rest : List (String × Node)} {name : String} {value : Node}

theorem names_eq (h : scope.IsPlace done name value rest) :
    scope.names = Table.keys done ++ name :: Table.keys rest := by
  rw [names, h.bindings, Table.keys, List.map_append, List.map_cons]
  rfl

theorem nodup (h : scope.IsPlace done name value rest) :
    (Table.keys done ++ name :: Table.keys rest).Nodup :=
  h.names_eq ▸ h.distinct.bindings

theorem not_mem_done (h : scope.IsPlace done name value rest) : name ∉ Table.keys done :=
  fun hmem => (List.nodup_append.mp h.nodup).2.2 name hmem name List.mem_cons_self rfl

theorem not_mem_rest (h : scope.IsPlace done name value rest) : name ∉ Table.keys rest :=
  (List.nodup_cons.mp (List.nodup_append.mp h.nodup).2.1).1

/-- The names before the place are those of the bindings before it. -/
theorem namesBefore_eq (h : scope.IsPlace done name value rest) :
    scope.namesBefore name = Table.keys done := by
  have hdone : ∀ other ∈ Table.keys done, decide (other ≠ name) = true := by
    rintro other hother
    exact decide_eq_true fun heq => h.not_mem_done (heq ▸ hother)
  rw [namesBefore, h.names_eq, List.takeWhile_append_of_pos hdone,
    List.takeWhile_cons_of_neg (by simp), List.append_nil]

theorem rebindsOnly_halfFixed (h : scope.IsPlace done name value rest) :
    (scope.halfFixed done).RebindsOnly scope (Table.keys done) := by
  refine Scope.rebindsOnly_halfFixed fun binding hbinding => ?_
  rw [h.names_eq]
  exact List.mem_append_left _ (List.mem_map_of_mem hbinding)

/-- The binding at the place is fixed in the scope that those before it have left, and then those
behind it. -/
theorem fixClosures_eq (h : scope.IsPlace done name value rest) :
    scope.fixClosures = (fixBinding (scope.halfFixed done) (name, value)).halfFixed rest := by
  rw [fixClosures, h.bindings, List.foldl_append]
  rfl

/-- The bindings behind the place do not change what the one at the place has come to. -/
theorem rebindsOnly_fixClosures (h : scope.IsPlace done name value rest) :
    scope.fixClosures.RebindsOnly (fixBinding (scope.halfFixed done) (name, value))
      (Table.keys rest) := by
  have hnames := h.rebindsOnly_halfFixed.names
  have hplace : name ∈ (scope.halfFixed done).names := by
    rw [hnames, h.names_eq]
    exact List.mem_append_right _ List.mem_cons_self
  rw [h.fixClosures_eq]
  refine Scope.rebindsOnly_halfFixed fun binding hbinding => ?_
  rw [(rebindsOnly_fixBinding hplace).names, hnames, h.names_eq]
  exact List.mem_append_right _ (List.mem_cons_of_mem _ (List.mem_map_of_mem hbinding))

/-- A value that is no pending closure is kept. -/
theorem lookup?_of_not_isPending (h : scope.IsPlace done name value rest)
    (hvalue : value.isPending = false) : scope.fixClosures.lookup? name = some value := by
  have hstep : fixBinding (scope.halfFixed done) (name, value) = scope.halfFixed done :=
    fixBinding_of_not_isPending hvalue
  have hbound : scope.lookup? name = some value := by
    have hmem : (name, value) ∈ scope.bindings := by
      rw [h.bindings]
      exact List.mem_append_right _ List.mem_cons_self
    exact Table.get?_of_mem h.distinct.bindings hmem
  rw [h.rebindsOnly_fixClosures.lookup? name h.not_mem_rest, hstep,
    h.rebindsOnly_halfFixed.lookup? name h.not_mem_done, hbound]

/-- A pending closure captures the scope that those before it have left. -/
theorem lookup?_of_isPending {c : Closure Node} (h : scope.IsPlace done name (.closure c) rest)
    (hpending : c.fixed = false) : scope.fixClosures.lookup? name =
      some (.closure (c.fix ((scope.halfFixed done).mergedWith c.scope))) := by
  rw [h.rebindsOnly_fixClosures.lookup? name h.not_mem_rest,
    fixBinding_of_isPending _ name hpending, lookup?_define, if_pos rfl]

/-- What is bound before the place has been fixed when the place is reached. -/
theorem lookup?_halfFixed {other : String} (h : scope.IsPlace done name value rest)
    (hother : other ∈ Table.keys done) :
    (scope.halfFixed done).lookup? other = scope.fixClosures.lookup? other := by
  have hne : other ≠ name := fun heq => h.not_mem_done (heq ▸ hother)
  have hrest : other ∉ Table.keys rest := fun hmem =>
    (List.nodup_append.mp h.nodup).2.2 other hother other (List.mem_cons_of_mem _ hmem) rfl
  have hplace : name ∈ (scope.halfFixed done).names := by
    rw [h.rebindsOnly_halfFixed.names, h.names_eq]
    exact List.mem_append_right _ List.mem_cons_self
  rw [h.rebindsOnly_fixClosures.lookup? other hrest,
    (rebindsOnly_fixBinding hplace).lookup? other fun hmem => hne (List.mem_singleton.mp hmem)]

/-- **The snapshot** that a closure at the place captures. -/
theorem isSnapshot (h : scope.IsPlace done name value rest) (earlier : Scope Node) :
    ((scope.halfFixed done).mergedWith earlier).IsSnapshot scope scope.fixClosures name
      earlier := by
  have hhalf := h.rebindsOnly_halfFixed
  have hmerged := (h.distinct.of_rebindsOnly hhalf).mergesInOrder earlier
  refine ⟨fun other => ?_, fun other hother => ?_, fun other hmem hother => ?_,
    fun other hother => ?_, fun type => ?_⟩
  · rw [binds, hmerged.values, Option.isSome_or]
    exact congrArg (· || earlier.binds other) (hhalf.binds other)
  · rw [h.namesBefore_eq] at hother
    have hmem : other ∈ (scope.halfFixed done).names := by
      rw [hhalf.names, h.names_eq]
      exact List.mem_append_left _ hother
    rw [hmerged.lookup?_of_mem hmem, h.lookup?_halfFixed hother]
  · rw [h.namesBefore_eq] at hother
    rw [← hhalf.names] at hmem
    rw [hmerged.lookup?_of_mem hmem, hhalf.lookup? other hother]
  · rw [← hhalf.names] at hother
    exact hmerged.lookup?_of_not_mem hother
  · have htraits : (scope.halfFixed done).traitsFor type = scope.traitsFor type := by
      rw [traitsFor, hhalf.traits]
      rfl
    rw [hmerged.united, htraits]

end IsPlace

/-! ### All of them -/

/-- A name that is bound to no pending closure keeps its value. -/
theorem IsDistinct.lookup?_fixClosures (h : scope.IsDistinct) {name : String} {value : Node}
    (hlookup : scope.lookup? name = some value) (hvalue : value.isPending = false) :
    scope.fixClosures.lookup? name = some value := by
  obtain ⟨done, rest, hplace⟩ := h.exists_isPlace hlookup
  exact hplace.lookup?_of_not_isPending hvalue

/-- The pending closures among the bindings are those that the names are bound to. -/
theorem pendingNames_eq_nil (h : scope.IsDistinct)
    (hsettled : ∀ name value, scope.lookup? name = some value → value.isPending = false) :
    scope.pendingNames = [] := by
  rw [pendingNames, List.map_eq_nil_iff, List.filter_eq_nil_iff]
  intro binding hbinding
  rw [hsettled binding.1 binding.2 (Table.get?_of_mem h.bindings hbinding)]
  exact Bool.false_ne_true

/-- **Fixing.** The pending closures of a scope are replaced by fixed ones with their snapshots, and
all else is kept; fixing them once more changes nothing. -/
theorem isFixing_fixClosures (h : scope.IsDistinct) :
    scope.fixClosures.IsFixing scope ∧ scope.fixClosures.fixClosures = scope.fixClosures := by
  have hrebinds : scope.fixClosures.RebindsOnly scope (Table.keys scope.bindings) :=
    rebindsOnly_halfFixed fun binding hbinding => List.mem_map_of_mem hbinding
  have hkept : ∀ name value, scope.lookup? name = some value → value.isPending = false →
      scope.fixClosures.lookup? name = some value := fun _ _ => h.lookup?_fixClosures
  have hreplaced : ∀ name c, scope.lookup? name = some (.closure c) → c.fixed = false →
      ∃ d : Closure Node, scope.fixClosures.lookup? name = some (.closure d) ∧ d.fixed = true ∧
        d.origin = c.origin ∧ d.code = c.code ∧
          d.scope.IsSnapshot scope scope.fixClosures name c.scope := by
    intro name c hlookup hpending
    obtain ⟨done, rest, hplace⟩ := h.exists_isPlace hlookup
    refine ⟨_, hplace.lookup?_of_isPending hpending, c.fixed_fix _, c.origin_fix _, c.code_fix _,
      ?_⟩
    rw [c.scope_fix hpending]
    exact hplace.isSnapshot c.scope
  have hsettled : scope.fixClosures.pendingNames = [] := by
    refine pendingNames_eq_nil (h.of_rebindsOnly hrebinds) fun name value hlookup => ?_
    have hbound : scope.binds name = true := by
      rw [← hrebinds.binds, binds, hlookup]
      rfl
    obtain ⟨old, hold⟩ := Option.isSome_iff_exists.mp hbound
    cases hpending : old.isPending with
    | false =>
      rw [hkept name old hold hpending] at hlookup
      cases hlookup
      exact hpending
    | true =>
      obtain ⟨c, rfl, hc⟩ := Node.isPending_iff.mp hpending
      obtain ⟨d, hd, hfixed, -⟩ := hreplaced name c hold hc
      rw [hd] at hlookup
      cases hlookup
      rw [Node.isPending, hfixed]
      rfl
  exact ⟨⟨hrebinds.names, hrebinds.traits, hkept, hreplaced, hsettled⟩,
    fixClosures_eq_self (isPending_of_pendingNames_eq_nil hsettled)⟩

end Scope

/-- The function `(lambda () returns Integer x)`, pending, with a number and what it has
captured. -/
def pendingReader (origin : Nat) (captured : Scope Node) : Closure Node :=
  ⟨[], .integer, .symbol "x", captured, false, origin⟩

/-- What `g` has captured before: `u` is 1, `x` is 2, and integers are countable. -/
def earlierScope : Scope Node :=
  ⟨[("u", .entity (integerEntity 1)), ("x", .entity (integerEntity 2))],
    [(.integer, .ofList [.countable])]⟩

/-- A scope in which `f` and `g` are pending and `x` is 5, and integers are numeric. -/
def pendingScope : Scope Node :=
  ⟨[("f", .closure (pendingReader 1 .empty)), ("x", .entity (integerEntity 5)),
    ("g", .closure (pendingReader 2 earlierScope))], [(.integer, .ofList [.numeric])]⟩

/-- `g` captures `f` fixed, itself pending, the `x` of the scope and the `u` from before. -/
theorem isFixing_fixClosures_pendingScope : pendingScope.IsDistinct ∧
    pendingScope.fixClosures.names = ["f", "x", "g"] ∧
    (∃ f g : Closure Node, pendingScope.fixClosures.lookup? "f" = some (.closure f) ∧
      pendingScope.fixClosures.lookup? "g" = some (.closure g) ∧ f.fixed = true ∧ g.origin = 2 ∧
      ["f", "x", "g", "u"].map g.scope.lookup? = [some (.closure f),
        some (.entity (integerEntity 5)), some (.closure (pendingReader 2 earlierScope)),
        some (.entity (integerEntity 1))] ∧
      g.scope.traitsFor .integer = .ofList [.countable, .numeric]) ∧
    pendingScope.fixClosures.fixClosures = pendingScope.fixClosures := by
  have h : pendingScope.IsDistinct := ⟨by decide, by decide⟩
  obtain ⟨hfixing, hagain⟩ := Scope.isFixing_fixClosures h
  obtain ⟨f, hf, hfixed, -⟩ := hfixing.replaced "f" _ rfl rfl
  obtain ⟨g, hg, -, horigin, -, hsnapshot⟩ := hfixing.replaced "g" _ rfl rfl
  refine ⟨h, hfixing.names, ⟨f, g, hf, hg, hfixed, horigin, ?_, ?_⟩, hagain⟩
  · have hbefore := (hsnapshot.before "f" (by decide)).trans hf
    have hvalue := hsnapshot.before "x" (by decide)
    rw [hfixing.kept "x" _ rfl rfl] at hvalue
    have hself := hsnapshot.behind "g" (by decide) (by decide)
    have hearlier := hsnapshot.captured "u" (by decide)
    simp only [List.map_cons, List.map_nil, hbefore, hvalue, hself, hearlier]
    rfl
  · exact (hsnapshot.traits .integer).trans (by decide)

end EntityLisp
