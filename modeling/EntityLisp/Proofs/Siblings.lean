import EntityLisp.Proofs.Avoids
import EntityLisp.Proofs.Frame
import EntityLisp.Proofs.LetForms
import Mathlib.Logic.Equiv.Basic

/-!
# Functions that are bound side by side

A `let` fixes the pending closures of its scope one after the other, and each captures the scope as
it is at that moment: the siblings before it already fixed, those after it still pending, with what
they had captured when they were made. So the order of two functions can be seen by those that
call the later one (`order_of_siblings_matters`).

It cannot be seen if the two do not mention each other and the rest of the program only calls
them.

* `Table.Exchanged`: two tables that differ in the order of two neighbours.
* `Node.Applies`: the programs that use two names only for their values and for calls.
* `exchange_siblings`: **two functions that are bound side by side and mention neither name can
  be exchanged** in a `let` that uses them in this way.
-/

namespace EntityLisp

open Node Run

/-! ### Tables with two neighbours exchanged -/

namespace Table

variable {κ α : Type}

/-- **Two tables with two neighbours exchanged:** the values are related, key by key, and the keys
are in the same order but for one place or more where `f` and `g` stand side by side. -/
inductive Exchanged (R : α → α → Prop) (f g : κ) : Table κ α → Table κ α → Prop where
  | nil : Exchanged R f g [] []
  | cons {key : κ} {value value' : α} {rest rest' : Table κ α} (related : R value value')
      (others : Exchanged R f g rest rest') :
      Exchanged R f g ((key, value) :: rest) ((key, value') :: rest')
  | swap {first first' second second' : α} {rest rest' : Table κ α} (relatedFirst : R first first')
      (relatedSecond : R second second') (others : Exchanged R f g rest rest') :
      Exchanged R f g ((f, first) :: (g, second) :: rest) ((g, second') :: (f, first') :: rest')

namespace Exchanged

variable {R : α → α → Prop} {f g : κ} {table table' : Table κ α}

theorem refl (h : ∀ entry ∈ table, R entry.2 entry.2) : Exchanged R f g table table := by
  induction table with
  | nil => exact .nil
  | cons entry rest ih =>
    rw [List.forall_mem_cons] at h
    exact .cons h.1 (ih h.2)

variable [DecidableEq κ]

theorem get? (h : Exchanged R f g table table') (hne : f ≠ g) (key : κ) :
    Option.Rel R (get? key table) (get? key table') := by
  induction h with
  | nil => exact .none
  | cons hvalue _ ih =>
    unfold Table.get?
    split
    · exact .some hvalue
    · exact ih
  | swap hfirst hsecond _ ih =>
    simp only [Table.get?]
    by_cases hf : f = key
    · rw [if_pos hf, if_neg (hf ▸ Ne.symm hne), if_pos hf]
      exact .some hfirst
    · rw [if_neg hf, if_neg hf]
      split
      · exact .some hsecond
      · exact ih

theorem put (h : Exchanged R f g table table') (hne : f ≠ g) (key : κ) {value value' : α}
    (hvalue : R value value') :
    Exchanged R f g (put key value table) (put key value' table') := by
  induction h with
  | nil => exact .cons hvalue .nil
  | cons hold hrest ih =>
    unfold Table.put
    split
    · exact .cons hvalue hrest
    · exact .cons hold ih
  | swap hfirst hsecond hrest ih =>
    simp only [Table.put]
    by_cases hf : f = key
    · rw [if_pos hf, if_neg (hf ▸ Ne.symm hne), if_pos hf]
      exact .swap hvalue hsecond hrest
    · rw [if_neg hf, if_neg hf]
      split
      · exact .swap hfirst hvalue hrest
      · exact .swap hfirst hsecond ih

/-- **The neighbours may be put in either order,** wherever they have or get their places. -/
theorem put_both (h : Exchanged R f g table table') (hne : f ≠ g) {first first' second second' : α}
    (hfirst : R first first') (hsecond : R second second') :
    Exchanged R f g (Table.put g second (Table.put f first table))
      (Table.put f first' (Table.put g second' table')) := by
  induction h with
  | nil =>
    simp only [Table.put, if_neg hne, if_neg (Ne.symm hne)]
    exact .swap hfirst hsecond .nil
  | @cons key value value' rest rest' hold hrest ih =>
    by_cases hf : key = f
    · subst hf
      simp only [Table.put, if_true, if_neg hne]
      exact .cons hfirst (hrest.put hne g hsecond)
    · by_cases hg : key = g
      · subst hg
        simp only [Table.put, if_true, if_neg hf]
        exact .cons hsecond (hrest.put hne f hfirst)
      · simp only [Table.put, if_neg hf, if_neg hg]
        exact .cons hold ih
  | swap _ _ hrest _ =>
    simp only [Table.put, if_true, if_neg hne, if_neg (Ne.symm hne)]
    exact .swap hfirst hsecond hrest

/-- The other keys are in the same order. -/
theorem visible (h : Exchanged R f g table table') {hidden : List κ} (hf : f ∈ hidden)
    (hg : g ∈ hidden) :
    Pointwise R (Table.visible hidden table) (Table.visible hidden table') := by
  induction h with
  | nil => exact .nil
  | @cons key value value' rest rest' hvalue _ ih =>
    by_cases hkey : key ∈ hidden
    · rw [visible_cons_of_mem hkey, visible_cons_of_mem hkey]
      exact ih
    · rw [visible_cons_of_not_mem hkey, visible_cons_of_not_mem hkey]
      exact .cons ⟨rfl, hvalue⟩ ih
  | swap _ _ _ ih =>
    rw [visible_cons_of_mem hf, visible_cons_of_mem hg, visible_cons_of_mem hg,
      visible_cons_of_mem hf]
    exact ih

end Exchanged

end Table

/-! ### Scopes with two neighbours exchanged -/

/-- The correspondence of two runs that make two closures in different order, under names that no
code mentions. -/
def Correspondence.exchange (f g : String) (hf : f ∉ reservedNames) (hg : g ∉ reservedNames)
    (origin : Nat) : Correspondence where
  origin := Equiv.swap origin (origin + 1)
  injective := (Equiv.swap origin (origin + 1)).injective
  hidden := [f, g]
  not_reserved := by
    intro name hname
    rcases List.mem_cons.mp hname with rfl | hname
    · exact hf
    · rwa [List.mem_singleton.mp hname]
  traits := False

/-- Scopes with two neighbours exchanged. -/
def Scope.Exchanged (r : Correspondence) (f g : String) (scope scope' : Scope Node) : Prop :=
  Table.Exchanged (Alike r) f g scope.bindings scope'.bindings

/-- **Two names whose order a correspondence leaves open:** they are hidden, and nothing is asked of
the declared traits. -/
structure Correspondence.Exchanges (r : Correspondence) (f g : String) : Prop where
  ne : f ≠ g
  first : f ∈ r.hidden
  second : g ∈ r.hidden
  traits : ¬r.traits

namespace Scope.Exchanged

variable {r : Correspondence} {f g : String} {scope scope' : Scope Node}
  (hr : r.Exchanges f g)

include hr

theorem agree (h : scope.Exchanged r f g scope') : scope.Agree r scope' :=
  ⟨h.visible hr.first hr.second, fun htraits => absurd htraits hr.traits⟩

theorem define (h : scope.Exchanged r f g scope') (name : String) {value value' : Node}
    (hvalue : Alike r value value') :
    (scope.define name value).Exchanged r f g (scope'.define name value') :=
  h.put hr.ne name hvalue

/-- Fixing a binding in both scopes. -/
theorem fixBinding (h : scope.Exchanged r f g scope') (name : String) {value value' : Node}
    (hvalue : Alike r value value') :
    (fixBinding scope (name, value)).Exchanged r f g (fixBinding scope' (name, value')) := by
  rcases fixBinding_of_alike hvalue with hleft | ⟨c, c', hc, hfix⟩
  · rw [(hleft name scope).1, (hleft name scope').2]
    exact h
  · rw [(hfix name scope).1, (hfix name scope').2]
    exact h.define hr name (alike_fix hc ((h.agree hr).mergedWith hc.scope))

/-- **Fixing the neighbours in either order:** what the one captures of the other is hidden. -/
theorem fixBinding_both (h : scope.Exchanged r f g scope') {first first' second second' : Node}
    (hfirst : Alike r first first') (hsecond : Alike r second second') :
    (EntityLisp.fixBinding (EntityLisp.fixBinding scope (f, first)) (g, second)).Exchanged r f g
      (EntityLisp.fixBinding (EntityLisp.fixBinding scope' (g, second')) (f, first')) := by
  rcases fixBinding_of_alike hfirst with hleft | ⟨c, c', hc, hfix⟩
  · rw [(hleft f _).1, (hleft f _).2]
    exact h.fixBinding hr g hsecond
  · rcases fixBinding_of_alike hsecond with hleft | ⟨d, d', hd, hfix'⟩
    · rw [(hleft g _).1, (hleft g _).2]
      exact h.fixBinding hr f hfirst
    · rw [(hfix f _).1, (hfix' g _).1, (hfix' g _).2, (hfix f _).2]
      have hagree := h.agree hr
      exact Table.Exchanged.put_both h hr.ne
        (alike_fix hc ((hagree.define_right hr.second _).mergedWith hc.scope))
        (alike_fix hd ((hagree.define_left hr.first _).mergedWith hd.scope))

theorem fixClosures (h : scope.Exchanged r f g scope') :
    scope.fixClosures.Exchanged r f g scope'.fixClosures := by
  have hfold : ∀ {bindings bindings' : Table String Node},
      Table.Exchanged (Alike r) f g bindings bindings' → ∀ {scope scope' : Scope Node},
        scope.Exchanged r f g scope' → (bindings.foldl EntityLisp.fixBinding scope).Exchanged r f g
          (bindings'.foldl EntityLisp.fixBinding scope') := by
    intro bindings bindings' hbindings
    induction hbindings with
    | nil => exact fun h => h
    | cons hvalue _ ih => exact fun h => ih (h.fixBinding hr _ hvalue)
    | swap hfirst hsecond _ ih => exact fun h => ih (h.fixBinding_both hr hfirst hsecond)
  exact hfold h h

end Scope.Exchanged

/-! ### Programs that only apply two names -/

/-- Whether a core form only evaluates its arguments and combines their values. -/
def CoreForm.isOperation : CoreForm → Bool
  | .list | .numeric _ | .eq => true
  | _ => false

/-- **A node that only applies names:** it mentions them to have their values or to call them with
arguments that avoid them, at most as an operand or inside a `let`. -/
inductive Node.Applies (hidden : List String) (bound : Nat) : Node → Prop where
  | clear {node : Node} (avoids : node.Avoids hidden bound) : Applies hidden bound node
  | name (name : String) : Applies hidden bound (.symbol name)
  | call {name : String} {arguments : List Node} (not_core : CoreForm.ofName? name = none)
      (not_sugar : Sugar.ofName? name = none)
      (avoids : ∀ argument ∈ arguments, argument.Avoids hidden bound) :
      Applies hidden bound (.form (.symbol name :: arguments))
  | operation {form : CoreForm} {operands : List Node} (isOperation : form.isOperation = true)
      (each : ∀ operand ∈ operands, Applies hidden bound operand) :
      Applies hidden bound (.form (.symbol form.name :: operands))
  | letIn {bindings : List (String × Node)} {body : List Node}
      (values : ∀ binding ∈ bindings, Applies hidden bound binding.2)
      (nodes : ∀ node ∈ body, Applies hidden bound node) :
      Applies hidden bound (letForm bindings body)

section Matching

variable {r : Correspondence} {f g : String} {hidden : List String} {bound : Nat}
  (hr : r.Exchanges f g) (hkeeps : r.Keeps hidden bound)

/-- Outcomes in scopes that agree leave exchanged bindings exchanged. -/
theorem outcomesAlike_exchanged {limit levels : Nat} {node node' : Node} {state state' : RunState}
    {Q : Node → Node → Prop} (hexchanged : state.scope.Exchanged r f g state'.scope)
    (h : OutcomesAlike r (Scope.Agree r) Q (eval limit levels node state)
      (eval limit levels node' state')) :
    OutcomesAlike r (Scope.Exchanged r f g) Q (eval limit levels node state)
      (eval limit levels node' state') := by
  have hbindings := (declaredFrom_eval limit levels node state).bindings_eq
  have hbindings' := (declaredFrom_eval limit levels node' state').bindings_eq
  generalize eval limit levels node state = outcome,
    eval limit levels node' state' = outcome' at h hbindings hbindings'
  have hafter : (finalState outcome).scope.Exchanged r f g (finalState outcome').scope := by
    unfold Scope.Exchanged
    rw [hbindings, hbindings']
    exact hexchanged
  cases h with
  | ok hvalue hstep => exact .ok hvalue ⟨hafter, hstep.origin⟩
  | error hstep => exact .error ⟨hafter, hstep.origin⟩

include hr

theorem matches_lookup_exchanged (name : String) :
    Matches r (Scope.Exchanged r f g) (Alike r) (lookup name) (lookup name) := by
  refine matches_bind matches_scope fun scope scope' hscope => ?_
  have hlookup := Table.Exchanged.get? hscope hr.ne name
  unfold Scope.lookup?
  generalize Table.get? name scope.bindings = found,
    Table.get? name scope'.bindings = found' at hlookup
  cases hlookup with
  | none => exact matches_throw _
  | some hvalue => exact matches_pure hvalue

include hkeeps

/-- **A node that only applies the names** has outcomes that are alike where they are exchanged. -/
theorem matches_applies (limit levels : Nat) {node : Node} (h : node.Applies hidden bound) :
    MatchingNodes r (Scope.Exchanged r f g) (eval limit levels) (eval limit levels) node node := by
  induction levels using Nat.strongRecOn generalizing node with
  | ind levels ih =>
    cases levels with
    | zero => exact matches_throw _
    | succ levels =>
      have hbelow : ∀ {nodes : List Node}, (∀ node ∈ nodes, node.Applies hidden bound) →
          List.Forall₂ (MatchingNodes r (Scope.Exchanged r f g) (eval limit levels)
            (eval limit levels)) nodes nodes :=
        fun hnodes => List.forall₂_same.mpr fun node hnode =>
          ih levels (Nat.lt_succ_self levels) (hnodes node hnode)
      cases h with
      | clear havoids =>
        intro state state' hstep
        exact outcomesAlike_exchanged hstep.scope (matchingEvals_eval limit (levels + 1) _ _
          (hkeeps.alike havoids) state state' ⟨hstep.scope.agree hr, hstep.origin⟩)
      | name name =>
        rw [MatchingNodes, eval_succ]
        exact matches_lookup_exchanged hr name
      | @call name arguments hcore hsugar havoids =>
        rw [MatchingNodes, eval_succ, evalNode_name hcore hsugar]
        refine matches_bind (matches_lookup_exchanged hr name) fun value value' hvalue => ?_
        exact matches_applyHead (matchingEvals_eval limit (levels - 1))
          (fun _ _ hscope => hscope.agree hr) rfl hvalue (hkeeps.forall₂ havoids)
      | @operation form operands hoperation heach =>
        rw [MatchingNodes, eval_succ, evalNode_core]
        refine matches_bind (matches_report _ _) fun _ _ _ => ?_
        cases form with
        | list => exact matches_runList (hbelow heach)
        | numeric op => exact matches_runNumeric op (hbelow heach)
        | eq => exact matches_runEq (hbelow heach)
        | _ => cases hoperation
      | @letIn bindings body hvalues hbody =>
        rw [MatchingNodes, eval_succ, letForm, evalNode_core, runCore_letIn]
        refine matches_bind (matches_report _ _) fun _ _ _ => ?_
        refine matches_bind matches_scope fun scope scope' hscope => matches_within hscope ?_
        refine matches_runBody (fun _ _ name _ _ hscope hvalue => hscope.define hr name hvalue)
          (fun _ _ hscope => hscope.fixClosures hr) ?_ (hbelow hbody)
        exact List.forall₂_same.mpr fun binding hbinding =>
          ⟨rfl, ih levels (Nat.lt_succ_self levels) (hvalues binding hbinding)⟩

/-- The rest of a `let` that only applies the names, after some of its bindings. -/
theorem matches_finishLet (limit levels : Nat) {bindings : List (String × Node)} {body : List Node}
    (hbindings : ∀ binding ∈ bindings, binding.2.Applies hidden bound)
    (hbody : ∀ node ∈ body, node.Applies hidden bound) :
    let rest := bindInOrder (eval limit levels) bindings >>= fun _ =>
      finishLet (eval limit levels) body
    Matches r (Scope.Exchanged r f g) (Alike r) rest rest := by
  have hmatches := fun {node : Node} (h : node.Applies hidden bound) =>
    matches_applies hr hkeeps limit levels h
  refine matches_bind (matches_bindInOrder
    (fun _ _ name _ _ hscope hvalue => hscope.define hr name hvalue)
    (List.forall₂_same.mpr fun binding hbinding => ⟨rfl, hmatches (hbindings binding hbinding)⟩))
    fun _ _ _ => ?_
  refine matches_bind (matches_fixCurrent fun _ _ hscope => hscope.fixClosures hr) fun _ _ _ => ?_
  exact matches_evalSequence
    (List.forall₂_same.mpr fun node hnode => hmatches (hbody node hnode)) .nil

end Matching

/-! ### Two functions side by side -/

/-- **A valid `lambda` form:** one that makes a closure. -/
inductive Node.IsFunction : Node → Prop where
  | intro {params returns type body : Node} {signature : List (String × TypeTag) × TypeTag}
      (reads : readSignature params returns type = .ok signature)
      (not_self : body.isSymbol selfName = false) :
      IsFunction (.form [.symbol CoreForm.lambda.name, params, returns, type, body])

/-- The closure that a `lambda` form makes in a state. -/
def RunState.function (state : RunState) (params : List (String × TypeTag)) (returns : TypeTag)
    (body : Node) : Closure Node :=
  ⟨params, returns, body, state.scope, false, state.nextOrigin⟩

/-- The state after a `lambda` form has made a closure. -/
def RunState.madeFunction (state : RunState) : RunState :=
  ⟨state.scope, state.nextOrigin + 1, .coreForm CoreForm.lambda.name :: state.journal⟩

/-- The state after the closure has been bound to a name. -/
def RunState.bindFunction (state : RunState) (name : String) (c : Closure Node) : RunState :=
  state.madeFunction.inScope (state.scope.define name (.closure c))

/-- **Binding a valid `lambda` form** binds a pending closure over the scope as it is. -/
theorem Node.IsFunction.bindInOrder {node : Node} (h : node.IsFunction) {hidden : List String}
    {bound : Nat} (havoids : node.Avoids hidden bound) (limit levels : Nat) :
    ∃ params returns body, body.Avoids hidden bound ∧ ∀ name rest (state : RunState),
      EntityLisp.bindInOrder (eval limit (levels + 1)) ((name, node) :: rest) state =
        EntityLisp.bindInOrder (eval limit (levels + 1)) rest
          (state.bindFunction name (state.function params returns body)) := by
  obtain @⟨params, returns, type, body, ⟨names, tag⟩, hreads, hself⟩ := h
  have hrun : runLambda [params, returns, type, body] = Run.scope >>= fun scope =>
      freshOrigin >>= fun origin => pure (.closure ⟨names, tag, body, scope, false, origin⟩) := by
    simp [runLambda, hreads, hself]
  refine ⟨names, tag, body, ?_, fun name rest state => ?_⟩
  · cases havoids with
    | plain hplain => cases hplain
    | form heach => exact heach body (by simp)
  · have heval : eval limit (levels + 1)
        (.form [.symbol CoreForm.lambda.name, params, returns, type, body]) state =
          .ok (.closure (state.function names tag body)) state.madeFunction := by
      rw [eval_succ, evalNode_core, bind_of_ok (report_apply _ state)]
      simp only [runCore, hrun]
      rfl
    show (eval limit (levels + 1) _ >>= fun _ => _) state = _
    rw [bind_of_ok heval]
    rfl

theorem Correspondence.Keeps.of_le {r : Correspondence} {hidden : List String} {bound bound' : Nat}
    (h : r.Keeps hidden bound') (hbound : bound ≤ bound') : r.Keeps hidden bound :=
  ⟨h.hidden_eq, fun origin horigin => h.origin_eq origin (Nat.lt_of_lt_of_le horigin hbound)⟩

section Exchange

variable {f g : String} (hf : f ∉ reservedNames) (hg : g ∉ reservedNames)

theorem exchanges_exchange (hne : f ≠ g) (origin : Nat) :
    (Correspondence.exchange f g hf hg origin).Exchanges f g :=
  ⟨hne, by simp [Correspondence.exchange], by simp [Correspondence.exchange], fun h => h⟩

theorem keeps_exchange (origin : Nat) :
    (Correspondence.exchange f g hf hg origin).Keeps [f, g] origin :=
  ⟨rfl, fun _ h => Equiv.swap_apply_of_ne_of_ne (Nat.ne_of_lt h) (by omega)⟩

/-- The states after two functions have been bound in either order are in step. -/
theorem inStep_exchange (hne : f ≠ g) {state : RunState}
    (hstate : state.scope.Avoids [f, g] state.nextOrigin) (params params' : List (String × TypeTag))
    (returns returns' : TypeTag) {body body' : Node} (hbody : body.Avoids [f, g] state.nextOrigin)
    (hbody' : body'.Avoids [f, g] state.nextOrigin) :
    let r := Correspondence.exchange f g hf hg state.nextOrigin
    let one := state.bindFunction f (state.function params returns body)
    let other := state.bindFunction g (state.function params' returns' body')
    InStep r (Scope.Exchanged r f g)
      (one.bindFunction g (one.function params' returns' body'))
      (other.bindFunction f (other.function params returns body)) := by
  intro r one other
  have hr : r.Exchanges f g := exchanges_exchange hf hg hne _
  have hkeeps : r.Keeps [f, g] state.nextOrigin := keeps_exchange hf hg _
  have hagree : state.scope.Agree r state.scope := hkeeps.agree hstate
  have hfirst : Alike r (.closure (state.function params returns body))
      (.closure (other.function params returns body)) :=
    alike_closure_iff.mpr ⟨rfl, rfl, rfl, hkeeps.alike hbody,
      (Equiv.swap_apply_left state.nextOrigin (state.nextOrigin + 1)).symm,
      hagree.define_right hr.second _⟩
  have hsecond : Alike r (.closure (one.function params' returns' body'))
      (.closure (state.function params' returns' body')) :=
    alike_closure_iff.mpr ⟨rfl, rfl, rfl, hkeeps.alike hbody',
      (Equiv.swap_apply_right state.nextOrigin (state.nextOrigin + 1)).symm,
      hagree.define_left hr.first _⟩
  have hsame : state.scope.Exchanged r f g state.scope :=
    .refl fun binding hbinding => hkeeps.alike (hstate binding hbinding)
  refine ⟨Table.Exchanged.put_both hsame hne hfirst hsecond, fun later => ?_⟩
  exact Equiv.swap_apply_of_ne_of_ne (by show state.nextOrigin + 1 + 1 + later ≠ _; omega)
    (by show state.nextOrigin + 1 + 1 + later ≠ _; omega)

/-- What follows the binding of two functions has outcomes that are alike. -/
theorem outcomesAlike_siblings (hne : f ≠ g) {limit levels bound : Nat} {first second : Node}
    (hfirst : first.IsFunction) (hsecond : second.IsFunction) (havoids : first.Avoids [f, g] bound)
    (havoids' : second.Avoids [f, g] bound) {after : List (String × Node)}
    (hafter : ∀ binding ∈ after, binding.2.Applies [f, g] bound) {body : List Node}
    (hbody : ∀ node ∈ body, node.Applies [f, g] bound) {state : RunState}
    (hbound : bound ≤ state.nextOrigin) (hstate : state.scope.Avoids [f, g] state.nextOrigin) :
    let r := Correspondence.exchange f g hf hg state.nextOrigin
    let finish := finishLet (eval limit (levels + 1)) body
    OutcomesAlike r (Scope.Exchanged r f g) (Alike r)
      ((bindInOrder (eval limit (levels + 1)) ((f, first) :: (g, second) :: after) >>= fun _ =>
        finish) state)
      ((bindInOrder (eval limit (levels + 1)) ((g, second) :: (f, first) :: after) >>= fun _ =>
        finish) state) := by
  intro r finish
  have hr : r.Exchanges f g := exchanges_exchange hf hg hne _
  have hkeeps : r.Keeps [f, g] bound := (keeps_exchange hf hg _).of_le hbound
  obtain ⟨params, returns, code, hcode, hbind⟩ := hfirst.bindInOrder havoids limit levels
  obtain ⟨params', returns', code', hcode', hbind'⟩ := hsecond.bindInOrder havoids' limit levels
  have hstep := inStep_exchange hf hg hne hstate params params' returns returns'
    (hcode.mono hbound) (hcode'.mono hbound)
  -- both runs bind the two functions, and go on with the same code
  have hsteps : ∀ {bindings : List (String × Node)} {between : RunState},
      bindInOrder (eval limit (levels + 1)) bindings state =
        bindInOrder (eval limit (levels + 1)) after between →
      (bindInOrder (eval limit (levels + 1)) bindings >>= fun _ => finish) state =
        (bindInOrder (eval limit (levels + 1)) after >>= fun _ => finish) between := by
    intro bindings between h
    show EStateM.bind _ _ state = EStateM.bind _ _ between
    unfold EStateM.bind
    rw [h]
  rw [hsteps ((hbind f _ state).trans (hbind' g _ _)),
    hsteps ((hbind' g _ state).trans (hbind f _ _))]
  exact matches_finishLet hr hkeeps limit (levels + 1) hafter hbody _ _ hstep

include hf hg in
/-- **Two functions that are bound side by side can be exchanged** in a `let`, if neither mentions
one of the two names, nothing does that is bound before them, and all that follows only applies
them: either order gives the same primitive entities. -/
theorem exchange_siblings (hne : f ≠ g) {limit levels : Nat} {first second : Node}
    (hfirst : first.IsFunction) (hsecond : second.IsFunction) {before after : List (String × Node)}
    {body : List Node} {state : RunState} (havoids : first.Avoids [f, g] state.nextOrigin)
    (havoids' : second.Avoids [f, g] state.nextOrigin)
    (hbefore : ∀ reached, bindInOrder (eval limit levels) before
      (state.startLet (before.length + (after.length + 2))) = .ok () reached →
        reached.scope.Avoids [f, g] reached.nextOrigin)
    (hafter : ∀ binding ∈ after, binding.2.Applies [f, g] state.nextOrigin)
    (hbody : ∀ node ∈ body, node.Applies [f, g] state.nextOrigin)
    {v : Entity Node} (hv : v.IsPrimitive) :
    (∃ last, eval limit (levels + 1)
      (letForm (before ++ (f, first) :: (g, second) :: after) body) state =
        .ok (.entity v) last) ↔
    ∃ last, eval limit (levels + 1)
      (letForm (before ++ (g, second) :: (f, first) :: after) body) state =
        .ok (.entity v) last := by
  have hlength : ∀ one other : String × Node, (before ++ one :: other :: after).length =
      before.length + (after.length + 2) := fun one other => List.length_append
  have hstart : ∀ count, (state.startLet count).inScope state.scope = state.startLet count :=
    fun _ => rfl
  rw [eval_letForm, eval_letForm, exists_ok_within_iff, exists_ok_within_iff, hlength, hlength,
    hstart, bindInOrder_append, bindInOrder_append, bind_assoc, bind_assoc]
  cases hrun : bindInOrder (eval limit levels) before
      (state.startLet (before.length + (after.length + 2))) with
  | error error reached =>
    rw [bind_of_error hrun, bind_of_error hrun]
  | ok _ reached =>
    rw [bind_of_ok hrun, bind_of_ok hrun]
    cases levels with
    | zero => constructor <;> rintro ⟨last, ⟨⟩⟩
    | succ levels =>
      have hlater : state.nextOrigin ≤ reached.nextOrigin := by
        have hgrows := (isCutOff_bindInOrder (isCutOff_eval limit limit (Nat.le_refl (levels + 1)))
          before).grows (state.startLet (before.length + (after.length + 2)))
        rw [hrun] at hgrows
        exact hgrows.nextOrigin
      exact (outcomesAlike_siblings hf hg hne hfirst hsecond havoids havoids' hafter hbody hlater
        (hbefore reached hrun)).exists_ok_iff hv

end Exchange

/-- The function `(lambda ((x as Integer)) returns Integer (operator x x))`. -/
def doubling (operator : String) : Node :=
  .form [.symbol "lambda", .form [.form [.symbol "x", .symbol "as", .symbol "Integer"]],
    .symbol "returns", .symbol "Integer", .form [.symbol operator, .symbol "x", .symbol "x"]]

/-- Two functions between other bindings: `x` is 1 before them, and `y` is `(f 2)` after them. -/
def between (one other : String × Node) : Node :=
  letForm ([("x", .entity (integerEntity 1))] ++ one :: other ::
      [("y", .form [.symbol "f", .int 2])])
    [.form [.symbol "add", .symbol "y", .form [.symbol "g", .int 3]]]

/-- With the sum `x + x` as `f` and the product `x * x` as `g`, in either order, the body
`(add y (g 3))` gives 13. -/
theorem exchange_siblings_doubling :
    (doubling "add").IsFunction ∧ (doubling "mul").IsFunction ∧
      (∃ last, eval 200 9 (between ("f", doubling "add") ("g", doubling "mul"))
        (.initial .empty) = .ok (.entity (integerEntity 13)) last) ∧
      ∃ last, eval 200 9 (between ("g", doubling "mul") ("f", doubling "add"))
        (.initial .empty) = .ok (.entity (integerEntity 13)) last := by
  have hcode : ∀ operator ∉ ["f", "g"], (doubling operator).Avoids ["f", "g"] 1 := by
    intro operator hoperator
    simp [doubling, avoids_form_iff, avoids_symbol_iff, hoperator]
  have hcall : ∀ name value, CoreForm.ofName? name = none → Sugar.ofName? name = none →
      (Node.form [.symbol name, .int value]).Applies ["f", "g"] 1 := by
    intro name value hcore hsugar
    refine .call hcore hsugar fun argument hargument => ?_
    rw [List.mem_singleton.mp hargument]
    exact .plain rfl
  have hbefore : ∀ reached, bindInOrder (eval 200 8) [("x", .entity (integerEntity 1))]
      ((RunState.initial .empty).startLet 4) = .ok () reached →
        reached.scope.Avoids ["f", "g"] reached.nextOrigin := by
    rintro reached ⟨⟩ binding hbinding
    rw [List.mem_singleton.mp hbinding]
    exact .entity (.plain rfl) fun _ hattr => absurd hattr List.not_mem_nil
  have hafter : ∀ binding ∈ [("y", Node.form [.symbol "f", .int 2])],
      binding.2.Applies ["f", "g"] 1 := by
    intro binding hbinding
    rw [List.mem_singleton.mp hbinding]
    exact hcall "f" 2 (by decide) (by decide)
  have hbody : ∀ node ∈ [Node.form [.symbol "add", .symbol "y", .form [.symbol "g", .int 3]]],
      node.Applies ["f", "g"] 1 := by
    intro node hnode
    rw [List.mem_singleton.mp hnode]
    refine @Node.Applies.operation _ _ (.numeric .add) _ rfl ?_
    simp only [List.forall_mem_cons]
    exact ⟨.name "y", hcall "g" 3 (by decide) (by decide),
      fun _ hnode => absurd hnode List.not_mem_nil⟩
  have hrun : ∃ last, eval 200 9 (between ("f", doubling "add") ("g", doubling "mul"))
      (.initial .empty) = .ok (.entity (integerEntity 13)) last :=
    exists_ok_of_givesInteger (by decide +kernel)
  have hexchange := @exchange_siblings "f" "g" (by decide) (by decide) (by decide) 200 8
    (doubling "add") (doubling "mul") (.intro rfl rfl) (.intro rfl rfl) _ _ _ (.initial .empty)
    (hcode "add" (by decide)) (hcode "mul" (by decide)) hbefore hafter hbody _
    (isPrimitive_integerEntity 13)
  exact ⟨.intro rfl rfl, .intro rfl rfl, hrun, hexchange.mp hrun⟩

/-! ### Functions that call a sibling -/

/-- The function `(lambda () returns Integer body)`. -/
def thunk (body : Node) : Node :=
  .form [.symbol "lambda", .form [], .symbol "returns", .symbol "Integer", body]

/-- The call `(f)` where `x` is bound to 1, then two functions, and then `x` to 2. -/
def rebound (one other : String × Node) : Node :=
  letForm [("x", .entity (integerEntity 1)), one, other, ("x", .entity (integerEntity 2))]
    [.form [.symbol "f"]]

/-- **A function that calls its sibling** sees it pending, with the old `x`, if it is bound before
the sibling, and fixed, with the new `x`, if it is bound after it. -/
theorem order_of_siblings_matters :
    (thunk (.form [.symbol "g"])).IsFunction ∧ (thunk (.symbol "x")).IsFunction ∧
      (∃ last, evaluate 200
        (rebound ("f", thunk (.form [.symbol "g"])) ("g", thunk (.symbol "x")))
          (.initial .empty) = .ok (.entity (integerEntity 1)) last) ∧
      ∃ last, evaluate 200
        (rebound ("g", thunk (.symbol "x")) ("f", thunk (.form [.symbol "g"])))
          (.initial .empty) = .ok (.entity (integerEntity 2)) last :=
  ⟨.intro rfl rfl, .intro rfl rfl, exists_ok_of_givesInteger (by decide +kernel),
    exists_ok_of_givesInteger (by decide +kernel)⟩

end EntityLisp
