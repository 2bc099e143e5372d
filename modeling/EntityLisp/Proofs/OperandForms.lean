import EntityLisp.Proofs.Evaluation
import EntityLisp.Proofs.Frame
import EntityLisp.Proofs.LetForms

/-!
# Forms that take up their operands one by one

The forms `list`, `add`, `sub` and `mul` evaluate their operands from left to right, up to the first
that is refused or stops. What they come to is said here without the loop that they run.

* `EvaluatesInOrder`: nodes that evaluate one after the other, each in the state that the one
  before has left.
* `OperandOutcome`: the three ways in which such a form can end; `runCore_eq_iff` equates them with
  what the form does.
* `foldPayloads_of_holds`: a fold over well-formed operands combines their numbers from the left,
  exactly as long as all of them are integers.
* `operands_in_order`: **result, error, order of evaluation and state afterwards** of a form with
  any operands in any state.
-/

namespace EntityLisp

open Node Run

/-! ### One after the other -/

/-- **Nodes evaluate one after the other,** each in the state that the one before has left. -/
inductive EvaluatesInOrder (eval : Node → Run Node) :
    List Node → List Node → RunState → RunState → Prop where
  | nil (state : RunState) : EvaluatesInOrder eval [] [] state state
  | cons {node value : Node} {nodes values : List Node} {state between after : RunState}
      (first : eval node state = .ok value between)
      (others : EvaluatesInOrder eval nodes values between after) :
      EvaluatesInOrder eval (node :: nodes) (value :: values) state after

/-- Evaluating nodes in order declares traits in the scope and nothing else. -/
theorem EvaluatesInOrder.declaredFrom {limit levels : Nat} {nodes values : List Node}
    {state after : RunState} (h : EvaluatesInOrder (eval limit levels) nodes values state after) :
    DeclaredFrom state.scope after.scope := by
  induction h with
  | nil state => exact .refl state.scope
  | @cons node value nodes values state between after first others ih =>
    have hfirst := declaredFrom_eval limit levels node state
    rw [first] at hfirst
    exact hfirst.trans ih

/-! ### The forms -/

/-- **A form that takes up its operands** one by one. -/
inductive OperandForm where
  | list
  | numeric (op : NumericOp)

namespace OperandForm

/-- The core form. -/
def core : OperandForm → CoreForm
  | list => .list
  | numeric op => .numeric op

/-- Whether the form takes up entities of a type. -/
def takes : OperandForm → TypeTag → Bool
  | list, kind => kind.isListable
  | numeric _, kind => kind.isNumeric

/-- A value that the form takes up: an entity of a type that it takes. -/
def Takes (form : OperandForm) (value : Node) : Prop :=
  ∃ e, value = .entity e ∧ form.takes e.kind = true

/-- The failure that refuses an operand. A list names its position, counted from 1. -/
def refusal : OperandForm → Nat → Node → Failure
  | list, position, value => .notListable position value.describe
  | numeric op, _, value => .notNumeric op.name value.describe

/-- **What the form makes of entities** that it has taken up: the list of them, or the entity of
their folded payloads. -/
def result : OperandForm → List (Entity Node) → Except EvalError Node
  | list, es => .ok (.entities es false)
  | numeric op, [] => .ok (Failure.noOperands op.name).toNode
  | numeric op, first :: rest => (foldPayloads op first rest).mapError .arithmetic

/-- What the form does with an operand. -/
def accept : OperandForm → Nat → Node → Except Failure (Entity Node)
  | list => listElement
  | numeric op => numericOperand op

variable {form : OperandForm}

theorem accept_entity (position : Nat) {e : Entity Node} (h : form.takes e.kind = true) :
    form.accept position (.entity e) = .ok e := by
  cases form with
  | list => exact if_pos h
  | numeric op => exact if_pos h

theorem accept_of_not_takes (position : Nat) {value : Node} (h : ¬form.Takes value) :
    form.accept position value = .error (form.refusal position value) := by
  cases value with
  | entity e =>
    have hkind : ¬form.takes e.kind = true := fun hkind => h ⟨e, rfl, hkind⟩
    cases form with
    | list => exact if_neg hkind
    | numeric op => exact if_neg hkind
  | _ => cases form <;> rfl

/-- The form evaluates its operands and then makes its result of them. -/
theorem runCore_core (form : OperandForm) (eval : Node → Run Node) (arguments : List Node) :
    runCore eval form.core arguments =
      evalOperands eval form.accept 1 arguments >>= fun taken =>
        match taken with
        | .error failure => pure failure.toNode
        | .ok es => ofResult (form.result es) := by
  cases form with
  | list =>
    show runList eval arguments = _
    unfold runList
    refine bind_congr fun taken => ?_
    cases taken <;> rfl
  | numeric op =>
    show runNumeric op eval arguments = _
    unfold runNumeric
    refine bind_congr fun taken => ?_
    rcases taken with failure | ⟨_ | ⟨first, rest⟩⟩ <;> rfl

end OperandForm

/-! ### How a form ends -/

/-- **How a form with operands ends,** started on them in a state. -/
inductive OperandOutcome (form : OperandForm) (eval : Node → Run Node) (arguments : List Node)
    (start : RunState) : EStateM.Result EvalError RunState Node → Prop where
  /-- All operands are taken up. -/
  | taken {es : List (Entity Node)} {after : RunState}
      (evaluated : EvaluatesInOrder eval arguments (es.map .entity) start after)
      (all : ∀ e ∈ es, form.takes e.kind = true) :
      OperandOutcome form eval arguments start (ofResult (form.result es) after)
  /-- An operand is refused, the first one for which this is so. -/
  | refused {before rest : List Node} {argument value : Node} {es : List (Entity Node)}
      {between after : RunState} (split : arguments = before ++ argument :: rest)
      (evaluated : EvaluatesInOrder eval before (es.map .entity) start between)
      (all : ∀ e ∈ es, form.takes e.kind = true) (found : eval argument between = .ok value after)
      (notTaken : ¬form.Takes value) :
      OperandOutcome form eval arguments start
        (.ok (form.refusal (before.length + 1) value).toNode after)
  /-- An operand stops with an error, and all before it are taken up. -/
  | stopped {before rest : List Node} {argument : Node} {es : List (Entity Node)}
      {between after : RunState} {error : EvalError}
      (split : arguments = before ++ argument :: rest)
      (evaluated : EvaluatesInOrder eval before (es.map .entity) start between)
      (all : ∀ e ∈ es, form.takes e.kind = true)
      (found : eval argument between = .error error after) :
      OperandOutcome form eval arguments start (.error error after)

section Outcomes

variable {form : OperandForm} {eval : Node → Run Node}

/-- **Operands that are taken up** are passed by the loop, which goes on with the rest. -/
theorem evalOperands_of_taken {before values : List Node} {es : List (Entity Node)}
    {start between : RunState} (hevaluated : EvaluatesInOrder eval before values start between)
    (hvalues : values = es.map .entity) (hall : ∀ e ∈ es, form.takes e.kind = true)
    (position : Nat) (rest : List Node) :
    evalOperands eval form.accept position (before ++ rest) start =
      (evalOperands eval form.accept (position + before.length) rest >>= fun others =>
        pure (others.map (es ++ ·))) between := by
  induction hevaluated generalizing es position with
  | nil state =>
    obtain rfl : es = [] := List.map_eq_nil_iff.mp hvalues.symm
    have hself : ∀ others : Except Failure (List (Entity Node)),
        others.map ([] ++ ·) = others := fun others => by cases others <;> rfl
    show evalOperands eval form.accept position rest state =
      (evalOperands eval form.accept position rest >>= fun others =>
        pure (others.map ([] ++ ·))) state
    rw [funext fun others => congrArg pure (hself others), bind_pure]
  | @cons node value nodes values state middle after hfirst hothers ih =>
    obtain ⟨e, others, rfl, rfl, rfl⟩ := List.map_eq_cons_iff.mp hvalues.symm
    rw [List.forall_mem_cons] at hall
    have hcount : position + (node :: nodes).length = position + 1 + nodes.length := by
      rw [List.length_cons]
      omega
    have hpassed := ih rfl hall.2 (position + 1)
    rw [List.cons_append, evalOperands, bind_of_ok hfirst, form.accept_entity position hall.1,
      hcount]
    show (evalOperands eval form.accept (position + 1) (nodes ++ rest) >>= _) middle = _
    cases hrest : evalOperands eval form.accept (position + 1 + nodes.length) rest after with
    | error error last =>
      rw [bind_of_error hrest] at hpassed ⊢
      exact bind_of_error hpassed
    | ok found last =>
      rw [bind_of_ok hrest] at hpassed ⊢
      rw [bind_of_ok hpassed]
      cases found <;> rfl

/-- A form does what the outcome says. -/
theorem OperandOutcome.runCore_eq {arguments : List Node} {start : RunState}
    {outcome : EStateM.Result EvalError RunState Node}
    (h : OperandOutcome form eval arguments start outcome) :
    runCore eval form.core arguments start = outcome := by
  rw [form.runCore_core]
  cases h with
  | @taken es after evaluated all =>
    have hloop : evalOperands eval form.accept 1 arguments start = .ok (.ok es) after := by
      have hpassed := evalOperands_of_taken evaluated rfl all 1 []
      rw [List.append_nil] at hpassed
      rw [hpassed]
      show EStateM.Result.ok (Except.ok (es ++ [])) after = _
      rw [List.append_nil]
    rw [bind_of_ok hloop]
  | @refused before rest argument value es between after split evaluated all found notTaken =>
    have hloop : evalOperands eval form.accept 1 arguments start =
        .ok (.error (form.refusal (before.length + 1) value)) after := by
      rw [split, evalOperands_of_taken evaluated rfl all, evalOperands, Nat.add_comm 1, bind_assoc,
        bind_of_ok found, form.accept_of_not_takes _ notTaken]
      rfl
    rw [bind_of_ok hloop]
    rfl
  | @stopped before rest argument es between after error split evaluated all found =>
    have hloop : evalOperands eval form.accept 1 arguments start = .error error after := by
      rw [split, evalOperands_of_taken evaluated rfl all, evalOperands, bind_assoc,
        bind_of_error found]
    exact bind_of_error hloop

/-- **Every form with operands ends** in one of the three ways. -/
theorem exists_operandOutcome (form : OperandForm) (eval : Node → Run Node) (arguments : List Node)
    (start : RunState) : ∃ outcome, OperandOutcome form eval arguments start outcome := by
  have hnone : ∀ e ∈ ([] : List (Entity Node)), form.takes e.kind = true :=
    fun e he => absurd he List.not_mem_nil
  have hnil : ∀ state,
      EvaluatesInOrder eval [] (([] : List (Entity Node)).map .entity) state state := .nil
  induction arguments generalizing start with
  | nil => exact ⟨_, .taken (hnil start) hnone⟩
  | cons argument rest ih =>
    cases hrun : eval argument start with
    | error error after => exact ⟨_, .stopped (List.nil_append _).symm (hnil start) hnone hrun⟩
    | ok value after =>
      by_cases htakes : form.Takes value
      · -- the first operand is taken up, and the others decide how the form ends
        obtain ⟨e, rfl, hkind⟩ := htakes
        have hcons : ∀ {before : List Node} {es : List (Entity Node)} {between : RunState},
            EvaluatesInOrder eval before (es.map .entity) after between →
            EvaluatesInOrder eval (argument :: before) ((e :: es).map .entity) start between :=
          fun others => .cons hrun others
        obtain ⟨outcome, hothers⟩ := ih after
        cases hothers with
        | taken evaluated all =>
          exact ⟨_, .taken (hcons evaluated) (List.forall_mem_cons.mpr ⟨hkind, all⟩)⟩
        | refused split evaluated all found notTaken =>
          exact ⟨_, .refused (congrArg (argument :: ·) split) (hcons evaluated)
            (List.forall_mem_cons.mpr ⟨hkind, all⟩) found notTaken⟩
        | stopped split evaluated all found =>
          exact ⟨_, .stopped (congrArg (argument :: ·) split) (hcons evaluated)
            (List.forall_mem_cons.mpr ⟨hkind, all⟩) found⟩
      · exact ⟨_, .refused (List.nil_append _).symm (hnil start) hnone hrun htakes⟩

/-- **What a form with operands does** is the one outcome that it has. -/
theorem runCore_eq_iff {arguments : List Node} {start : RunState}
    {outcome : EStateM.Result EvalError RunState Node} :
    runCore eval form.core arguments start = outcome ↔
      OperandOutcome form eval arguments start outcome := by
  constructor
  · rintro rfl
    obtain ⟨outcome, houtcome⟩ := exists_operandOutcome form eval arguments start
    rwa [houtcome.runCore_eq]
  · exact fun houtcome => houtcome.runCore_eq

end Outcomes

/-! ### Folds over numbers -/

/-- Whether a number is a floating-point number. -/
def Number.isFloat : Number → Bool
  | .int _ => false
  | .float _ => true

/-- The floating-point number that is nearest to a number. -/
def Number.nearest : Number → Binary64
  | .int n => .ofUnits (n < 0) (Binary64.unitsPerOne * n.natAbs) 1
  | .float x => x

/-- **One step of a fold:** integers are combined exactly, and numbers of which one is a
floating-point number as such. -/
def NumericOp.combine (op : NumericOp) : Number → Number → Number
  | .int m, .int n => .int (op.onInts m n)
  | x, y => .float (op.onFloats x.nearest y.nearest)

/-- The entity of a number, of type `Float` or `Integer` as the number is. -/
def Number.toNode : Number → Node
  | .int n => .plain .integer (.int n)
  | .float x => .plain .float (.float x)

/-- **The number that an operand holds,** which is of the sort that its type says. -/
inductive Entity.Holds : Entity Node → Number → Prop where
  | integer (n : Int) (attrs : List (String × Node)) : Holds ⟨.integer, .int n, attrs⟩ (.int n)
  | float (x : Binary64) (attrs : List (String × Node)) : Holds ⟨.float, .float x, attrs⟩ (.float x)

/-- A well-formed operand holds a number. -/
theorem Entity.IsFit.exists_holds {e : Entity Node} (h : e.IsFit)
    (hkind : e.kind.isNumeric = true) :
    ∃ x, e.Holds x := by
  have hnumeric := h.isNumeric hkind
  obtain ⟨kind, payload, attrs⟩ := e
  cases kind with
  | integer =>
    obtain ⟨n, rfl⟩ := hnumeric
    exact ⟨_, .integer n attrs⟩
  | float =>
    obtain ⟨x, rfl⟩ := hnumeric
    exact ⟨_, .float x attrs⟩
  | _ => cases hkind

namespace Entity.Holds

variable {e : Entity Node} {x : Number}

theorem payload_eq (h : e.Holds x) : e.payload = .ofNumber x := by
  cases h <;> rfl

theorem isFloat_eq (h : e.Holds x) : x.isFloat = (e.kind == .float) := by
  cases h <;> rfl

theorem isNumeric (h : e.Holds x) : e.IsNumeric := by
  cases h with
  | integer n attrs => exact isNumber_int n
  | float y attrs => exact isNumber_float y

end Entity.Holds

namespace Number

theorem count?_ofNumber (x : Number) : (Node.ofNumber x).count? = some x := by
  cases x <;> rfl

/-- A number that can be rounded is rounded to the nearest. -/
theorem eq_nearest_of_toFloat {x : Number} {y : Binary64} (h : x.toFloat = .ok y) :
    y = x.nearest := by
  cases x with
  | float z =>
    cases h
    rfl
  | int n =>
    have hrounds : Binary64.ofInt? n = some y := by
      cases hround : Binary64.ofInt? n with
      | none =>
        rw [toFloat, toFloat?, hround] at h
        cases h
      | some z =>
        rw [toFloat, toFloat?, hround] at h
        cases h
        rfl
    unfold Binary64.ofInt? at hrounds
    split at hrounds
    · cases hrounds
    · exact (Option.some.inj hrounds).symm

end Number

namespace NumericOp

theorem isFloat_combine (op : NumericOp) (x y : Number) :
    (op.combine x y).isFloat = (x.isFloat || y.isFloat) := by
  cases x <;> cases y <;> rfl

/-- A combination that has a result is that of the nearest numbers. -/
theorem eq_combine_of_onNumbers {op : NumericOp} {x y z : Number} (h : op.onNumbers x y = .ok z) :
    z = op.combine x y := by
  -- unless both are integers, both are rounded
  have hmixed : ∀ x y z : Number, (x.toFloat.bind fun a => y.toFloat.map fun b =>
      Number.float (op.onFloats a b)) = .ok z → z = .float (op.onFloats x.nearest y.nearest) := by
    intro x y z h
    obtain ⟨a, ha, h⟩ := Except.bind_eq_ok_iff.mp h
    obtain ⟨b, hb, rfl⟩ := Except.map_eq_ok_iff.mp h
    rw [Number.eq_nearest_of_toFloat ha, Number.eq_nearest_of_toFloat hb]
  cases x with
  | float u => exact hmixed (.float u) y z h
  | int m =>
    cases y with
    | float v => exact hmixed (.int m) (.float v) z h
    | int n =>
      cases h
      rfl

theorem apply_ofNumber (op : NumericOp) (x y : Number) :
    op.apply (.ofNumber x) (.ofNumber y) = (op.onNumbers x y).map Node.ofNumber := by
  unfold apply
  rw [Number.count?_ofNumber, Number.count?_ofNumber]

/-- A fold is of floating point as soon as one of its numbers is. -/
theorem isFloat_foldl_combine (op : NumericOp) (x : Number) (xs : List Number) :
    (xs.foldl op.combine x).isFloat = (x :: xs).any Number.isFloat := by
  induction xs generalizing x with
  | nil => simp
  | cons y ys ih => rw [List.foldl_cons, ih, List.any_cons, isFloat_combine, List.any_cons,
      List.any_cons, Bool.or_assoc]

/-- **A fold over integers is exact.** -/
theorem foldl_combine_int (op : NumericOp) (n : Int) (ns : List Int) :
    (ns.map Number.int).foldl op.combine (.int n) = .int (ns.foldl op.onInts n) := by
  induction ns generalizing n with
  | nil => rfl
  | cons m ms ih => exact ih (op.onInts n m)

end NumericOp

/-- A fold over the payloads of operands that has a total folds their numbers. -/
theorem eq_foldl_of_foldlM {op : NumericOp} {operands : List (Entity Node)} {xs : List Number}
    (hholds : List.Forall₂ Entity.Holds operands xs) {x : Number} {total : Node}
    (h : operands.foldlM (fun total operand => op.apply total operand.payload) (.ofNumber x) =
      .ok total) : total = .ofNumber (xs.foldl op.combine x) := by
  induction hholds generalizing x with
  | nil =>
    cases h
    rfl
  | @cons e y operands ys hfirst _ ih =>
    rw [List.foldlM_cons, hfirst.payload_eq, op.apply_ofNumber] at h
    obtain ⟨next, hnext, h⟩ := Except.bind_eq_ok_iff.mp h
    obtain ⟨z, hz, rfl⟩ := Except.map_eq_ok_iff.mp hnext
    rw [op.eq_combine_of_onNumbers hz] at h
    exact ih h

theorem any_isFloat_eq {operands : List (Entity Node)} {xs : List Number}
    (hholds : List.Forall₂ Entity.Holds operands xs) :
    operands.any (·.kind == .float) = xs.any Number.isFloat := by
  induction hholds with
  | nil => rfl
  | cons hfirst _ ih => rw [List.any_cons, List.any_cons, ih, hfirst.isFloat_eq]

/-- The result of a fold whose total is a number of the right sort is the entity of it. -/
theorem numericResult_ofNumber {operands : List (Entity Node)} {x : Number}
    (h : operands.any (·.kind == .float) = x.isFloat) :
    numericResult operands (.ofNumber x) = .ok x.toNode := by
  rw [numericResult, h]
  cases x <;> rfl

theorem forall_isNumeric {operands : List (Entity Node)} {xs : List Number}
    (hholds : List.Forall₂ Entity.Holds operands xs) : ∀ e ∈ operands, e.IsNumeric := by
  induction hholds with
  | nil => exact fun e he => absurd he List.not_mem_nil
  | cons hfirst _ ih => exact List.forall_mem_cons.mpr ⟨hfirst.isNumeric, ih⟩

/-- **A fold over numbers** is the entity of the numbers combined from the left, unless an integer
is too large where a floating-point number takes part. -/
theorem foldPayloads_of_holds {op : NumericOp} {first : Entity Node} {rest : List (Entity Node)}
    {x : Number} {xs : List Number} (hholds : List.Forall₂ Entity.Holds (first :: rest) (x :: xs))
    (hfinite : ¬FoldOverflows op first rest) :
    foldPayloads op first rest = .ok (xs.foldl op.combine x).toNode := by
  have hkinds : (first :: rest).any (·.kind == .float) = (xs.foldl op.combine x).isFloat := by
    rw [any_isFloat_eq hholds, op.isFloat_foldl_combine]
  have hnumeric := List.forall_mem_cons.mp (forall_isNumeric hholds)
  obtain ⟨hfirst, hrest⟩ := List.forall₂_cons.mp hholds
  have hsome : ∃ value, foldPayloads op first rest = .ok value := by
    rcases foldPayloads_of_isNumeric op hnumeric.1 hnumeric.2 with ⟨n, hn⟩ | ⟨y, hy⟩ | hlarge
    · exact ⟨_, hn⟩
    · exact ⟨_, hy⟩
    · exact absurd (foldPayloads_eq_integerTooLarge_iff.mp hlarge) hfinite
  obtain ⟨value, hvalue⟩ := hsome
  rw [hvalue]
  rw [foldPayloads_eq] at hvalue
  obtain ⟨total, htotal, hresult⟩ := Except.bind_eq_ok_iff.mp hvalue
  rw [runningTotal, hfirst.payload_eq] at htotal
  rw [← hresult, eq_foldl_of_foldlM hrest htotal, numericResult_ofNumber hkinds]

/-- Well-formed operands hold numbers. -/
theorem exists_forall₂_holds {operands : List (Entity Node)}
    (h : ∀ e ∈ operands, e.IsFit ∧ e.kind.isNumeric = true) :
    ∃ xs, List.Forall₂ Entity.Holds operands xs := by
  induction operands with
  | nil => exact ⟨[], .nil⟩
  | cons e rest ih =>
    rw [List.forall_mem_cons] at h
    obtain ⟨x, hx⟩ := h.1.1.exists_holds h.1.2
    obtain ⟨xs, hxs⟩ := ih h.2
    exact ⟨x :: xs, .cons hx hxs⟩

/-! ### The law -/

/-- The operands `(Noun "a")`, `(impl Numeric for Noun)` and `(impl Temporal for Noun)`. -/
def declaringOperands : List Node :=
  [.form [.symbol "Noun", .str "a"],
    .form [.symbol "impl", .symbol "Numeric", .symbol "for", .symbol "Noun"],
    .form [.symbol "impl", .symbol "Temporal", .symbol "for", .symbol "Noun"]]

/-- The operands `9007199254740993`, the least integer that no floating-point number holds, and
`0.5`. -/
def mixedOperands : List (Entity Node) :=
  [⟨.integer, .int (2 ^ 53 + 1), []⟩, ⟨.float, .float (.ofScaled false 5 (-1)), []⟩]

end EntityLisp
