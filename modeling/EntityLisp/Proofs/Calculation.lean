import EntityLisp.Proofs.Brackets
import EntityLisp.Proofs.LetForms
import EntityLisp.Proofs.Avoids
import EntityLisp.Proofs.Layouts
import EntityLisp.Proofs.Programs

/-!
# Calculations in program text

Arithmetic on whole numbers, from the text to the value. A `Calculation` is an expression of
`add`, `sub` and `mul` over whole numbers as they are written; it has a value in the integers that
no evaluation is needed for, and tokens that it is written with.

* `Spells.readItems_append`: tokens that spell trees are read as the trees in normal form.
* `eval_code`: the normal form of a calculation evaluates to its value if it nests less deep than
  there are levels, and `eval_code_of_le` says what happens else.
* `evaluateText_calculation`: **every layout of the tokens of a calculation evaluates to its
  value,** in every scope, which is left as it is.
-/

namespace EntityLisp

open Node Run

/-! ### Reading what is spelled -/

/-- **Tokens that spell trees are read as the trees,** each in normal form, if they nest no deeper
than there is room. -/
theorem Spells.readItems_append {trees : List Node} {tokens : List String}
    (h : Spells trees tokens) {room : Nat} (hroom : itemsHeight trees ≤ room) (items : List Node)
    (outer : List (List Node)) (rest : List String) :
    readItems room items outer (tokens ++ rest) =
      readItems room ((trees.map Node.normal).reverse ++ items) outer rest := by
  induction h generalizing room items outer rest with
  | nil => rfl
  | @atom token node trees tokens hopen hclose hreads _ ih =>
    rw [itemsHeight] at hroom
    rw [List.cons_append, readItems_atom hclose hopen hreads, ih (by omega), List.map_cons,
      List.reverse_cons, List.append_assoc, normal_of_not_form (isForm_of_readAtom hreads)]
    rfl
  | @form inside trees inner tokens _ _ ihinside ihothers =>
    rw [itemsHeight, height_form] at hroom
    -- the form takes up one level of the room, and gives it back when it is closed
    obtain ⟨room, rfl⟩ : ∃ n, room = n + 1 := ⟨room - 1, by omega⟩
    rw [List.cons_append, List.append_assoc, List.cons_append, readItems_open_succ,
      ihinside (by omega), readItems_close_cons, ihothers (by omega), List.append_nil,
      List.reverse_reverse, List.map_cons, List.reverse_cons, List.append_assoc, normal_form]
    rfl

/-- **A group of tokens is read as its form.** -/
theorem SpellsForm.readForm_eq [Stack] {tree : Node} {tokens : List String}
    (h : SpellsForm tree tokens) (hheight : tree.height ≤ nestingLimit) :
    readForm tokens = (.ok tree.normal, []) := by
  obtain ⟨hinside⟩ := h
  rename_i items inner
  have hroom : itemsHeight items ≤ nestingLimit - 1 := by
    rw [height_form] at hheight
    omega
  rw [readForm, if_pos rfl, hinside.readItems_append hroom, readItems_close_nil, List.append_nil,
    List.reverse_reverse, normal_form]

/-- Spelled trees and further ones behind them. -/
theorem Spells.append {trees more : List Node} {tokens further : List String}
    (h : Spells trees tokens) (hmore : Spells more further) :
    Spells (trees ++ more) (tokens ++ further) := by
  induction h with
  | nil => exact hmore
  | atom hopen hclose hreads _ ih => exact .atom hopen hclose hreads ih
  | form hinside _ _ ih =>
    rw [List.cons_append, List.cons_append, List.append_assoc]
    exact .form hinside ih

/-! ### Calculations -/

/-- **A whole number as it is written:** decimal digits, no more of them than are read, and a minus
sign if it is negative. -/
structure WrittenInt where
  negative : Bool
  digits : List Char
  isDigits : Decimal.isDigits digits = true
  length_le : digits.length ≤ digitLimit

namespace WrittenInt

/-- The text of a written number. -/
def text (written : WrittenInt) : String :=
  String.ofList ((if written.negative then ['-'] else []) ++ written.digits)

/-- The number that is written. -/
def value (written : WrittenInt) : Int :=
  let magnitude : Int := Nat.ofDigitChars 10 written.digits 0
  if written.negative then -magnitude else magnitude

theorem isWhole_text (written : WrittenInt) :
    Decimal.IsWhole written.text.toList written.negative written.digits :=
  ⟨written.isDigits, String.toList_ofList⟩

end WrittenInt

/-- **An expression of arithmetic** over whole numbers, where an operation takes one operand or
more. -/
inductive Calculation where
  | literal (written : WrittenInt)
  | apply (op : NumericOp) (first : Calculation) (rest : List Calculation)

/-- **What an operation makes of numbers:** their sum, their product, or the first less the
others one after the other. -/
def NumericOp.total : NumericOp → Int → List Int → Int
  | .add, first, rest => (first :: rest).sum
  | .sub, first, rest => rest.foldl (· - ·) first
  | .mul, first, rest => (first :: rest).prod

namespace Calculation

/-- A calculation with an operation at its root. -/
def IsOperation (calculation : Calculation) : Prop :=
  ∃ op first rest, calculation = .apply op first rest

mutual

/-- **The value of a calculation.** -/
def value : Calculation → Int
  | .literal written => written.value
  | .apply op first rest => op.total first.value (values rest)

/-- The values of operands. -/
def values : List Calculation → List Int
  | [] => []
  | operand :: rest => operand.value :: values rest

end

mutual

/-- **How deep the operations of a calculation nest.** -/
def nesting : Calculation → Nat
  | .literal _ => 0
  | .apply _ first rest => max first.nesting (nestingOfAll rest) + 1

/-- How deep the operations of operands nest. -/
def nestingOfAll : List Calculation → Nat
  | [] => 0
  | operand :: rest => max operand.nesting (nestingOfAll rest)

end

mutual

/-- **The tokens of a calculation:** operations are forms, and numbers stand as they are
written. -/
def tokens : Calculation → List String
  | .literal written => [written.text]
  | .apply op first rest => "(" :: (op.name :: (first.tokens ++ tokensOfAll rest) ++ [")"])

/-- The tokens of operands. -/
def tokensOfAll : List Calculation → List String
  | [] => []
  | operand :: rest => operand.tokens ++ tokensOfAll rest

end

mutual

/-- The tree that the tokens of a calculation spell. -/
def tree : Calculation → Node
  | .literal written => .int written.value
  | .apply op first rest => .form (.symbol op.name :: first.tree :: treesOfAll rest)

/-- The trees of operands. -/
def treesOfAll : List Calculation → List Node
  | [] => []
  | operand :: rest => operand.tree :: treesOfAll rest

end

/-- **Induction along the operations** of a calculation. -/
theorem induction {motive : Calculation → Prop} (literal : ∀ written, motive (.literal written))
    (apply : ∀ op first rest, motive first → (∀ operand ∈ rest, motive operand) →
      motive (.apply op first rest)) : ∀ calculation, motive calculation
  | .literal written => literal written
  | .apply op first rest => apply op first rest (induction literal apply first)
      fun operand _ => induction literal apply operand

theorem values_eq_map (operands : List Calculation) : values operands = operands.map value := by
  induction operands with
  | nil => rfl
  | cons operand rest ih => rw [values, ih, List.map_cons]

theorem tokensOfAll_eq_flatMap (operands : List Calculation) :
    tokensOfAll operands = operands.flatMap tokens := by
  induction operands with
  | nil => rfl
  | cons operand rest ih => rw [tokensOfAll, ih, List.flatMap_cons]

theorem treesOfAll_eq_map (operands : List Calculation) :
    treesOfAll operands = operands.map tree := by
  induction operands with
  | nil => rfl
  | cons operand rest ih => rw [treesOfAll, ih, List.map_cons]

theorem nestingOfAll_le_iff {operands : List Calculation} {n : Nat} :
    nestingOfAll operands ≤ n ↔ ∀ operand ∈ operands, operand.nesting ≤ n := by
  induction operands with
  | nil => simp [nestingOfAll]
  | cons operand rest ih =>
    rw [nestingOfAll, Nat.max_le, ih]
    simp

theorem nesting_apply_le_iff {op : NumericOp} {first : Calculation} {rest : List Calculation}
    {n : Nat} : (apply op first rest).nesting ≤ n + 1 ↔
      ∀ operand ∈ first :: rest, operand.nesting ≤ n := by
  rw [nesting, Nat.add_le_add_iff_right, Nat.max_le, nestingOfAll_le_iff, List.forall_mem_cons]

/-! ### Reading a calculation -/

theorem tree_apply (op : NumericOp) (first : Calculation) (rest : List Calculation) :
    (apply op first rest).tree = .form (.symbol op.name :: (first :: rest).map tree) := by
  rw [tree, treesOfAll_eq_map, List.map_cons]

theorem tokens_apply (op : NumericOp) (first : Calculation) (rest : List Calculation) :
    (apply op first rest).tokens =
      "(" :: (op.name :: (first :: rest).flatMap tokens ++ [")"]) := by
  rw [tokens, tokensOfAll_eq_flatMap, List.flatMap_cons]

/-- The tree of a calculation nests as deep as its operations. -/
theorem height_tree (calculation : Calculation) :
    calculation.tree.height = calculation.nesting := by
  induction calculation using Calculation.induction with
  | literal written => rfl
  | apply op first rest hfirst hrest =>
    have hall : itemsHeight (rest.map tree) = nestingOfAll rest := by
      clear hfirst
      induction rest with
      | nil => rfl
      | cons operand rest ih =>
        rw [List.map_cons, itemsHeight, nestingOfAll, hrest operand List.mem_cons_self,
          ih fun other hother => hrest other (List.mem_cons_of_mem _ hother)]
    rw [tree_apply, height_form, itemsHeight, List.map_cons, itemsHeight, hfirst, hall, nesting,
      height_of_not_form rfl, Nat.zero_max]

theorem readAtom_text (written : WrittenInt) :
    readAtom written.text = .ok (.int written.value) := by
  rw [readAtom_of_isWhole written.isWhole_text, if_neg (Nat.not_lt_of_le written.length_le)]
  rfl

/-- The name of an operation is read as a symbol. -/
theorem readAtom_opName (op : NumericOp) : readAtom op.name = .ok (.symbol op.name) :=
  readAtom_of_isSymbolName (isSymbolName_of_isPlainName (by cases op <;> decide +kernel))

/-- The text of a number and the name of an operation are no parentheses. -/
theorem text_ne_paren (written : WrittenInt) : written.text ≠ "(" ∧ written.text ≠ ")" := by
  have hdigits := isNumeralChar_of_isWhole written.isWhole_text
  constructor
  · intro heq
    exact absurd (hdigits '(' (by rw [heq]; decide)) (by decide)
  · intro heq
    exact absurd (hdigits ')' (by rw [heq]; decide)) (by decide)

theorem opName_ne_paren (op : NumericOp) : op.name ≠ "(" ∧ op.name ≠ ")" := by
  cases op <;> decide

theorem spells_operands {operands : List Calculation}
    (h : ∀ operand ∈ operands, Spells [operand.tree] operand.tokens) :
    Spells (operands.map tree) (operands.flatMap tokens) := by
  induction operands with
  | nil => exact .nil
  | cons operand rest ih =>
    have hrest := ih fun other hother => h other (List.mem_cons_of_mem _ hother)
    exact (h operand List.mem_cons_self).append hrest

/-- **The tokens of a calculation spell its tree.** -/
theorem spells_tree (calculation : Calculation) : Spells [calculation.tree] calculation.tokens := by
  induction calculation using Calculation.induction with
  | literal written =>
    obtain ⟨hopen, hclose⟩ := text_ne_paren written
    exact .atom hopen hclose (readAtom_text written) .nil
  | apply op first rest hfirst hrest =>
    have hoperands := spells_operands (List.forall_mem_cons.mpr ⟨hfirst, hrest⟩)
    obtain ⟨hopen, hclose⟩ := opName_ne_paren op
    rw [tree_apply, tokens_apply]
    exact .form (.atom hopen hclose (readAtom_opName op) hoperands) .nil

/-- The form of a calculation as it is evaluated: numbers are wrapped as entities. -/
def code (calculation : Calculation) : Node := wrapNumber calculation.tree.normal

theorem code_apply (op : NumericOp) (first : Calculation) (rest : List Calculation) :
    (apply op first rest).code = .form (.symbol op.name :: (first :: rest).map code) := by
  have hnormal : (apply op first rest).tree.normal =
      .form (normalForm (.symbol (CoreForm.numeric op).name ::
        ((first :: rest).map tree).map Node.normal)) := by
    rw [tree_apply, normal_form]
    rfl
  rw [code, hnormal, normalForm_core (by rintro ⟨⟩), List.map_map, List.map_map]
  rfl

/-- **A layout of a calculation is read as its code,** if there is an operation. -/
theorem readProgram_text [Stack] {op : NumericOp} {first : Calculation} {rest : List Calculation}
    {text : String} (htokens : tokenize text = .ok (apply op first rest).tokens)
    (hnesting : (apply op first rest).nesting ≤ nestingLimit) :
    readProgram text = .ok [(apply op first rest).code] := by
  have hspells : SpellsForm (apply op first rest).tree (apply op first rest).tokens := by
    have hoperands := spells_operands fun operand (_ : operand ∈ first :: rest) =>
      spells_tree operand
    obtain ⟨hopen, hclose⟩ := opName_ne_paren op
    rw [tree_apply, tokens_apply]
    exact .intro (.atom hopen hclose (readAtom_opName op) hoperands)
  have hread := hspells.readForm_eq (by rwa [height_tree])
  have hcode : (apply op first rest).tree.normal = (apply op first rest).code := by
    rw [code, tree_apply, normal_form]
    rfl
  rw [hcode] at hread
  exact readProgram_singleton htokens hread

end Calculation

/-! ### Actions with one outcome -/

/-- **An action that ends with the same result in every state** and changes only the journal. -/
def Run.Gives {α : Type} (action : Run α) (result : Except EvalError α) : Prop :=
  ∀ state, ∃ journal, action state = Run.ofResult result { state with journal := journal }

namespace Run

variable {α β : Type} {action : Run α} {next : α → Run β}

theorem gives_ofResult (result : Except EvalError α) : Gives (ofResult result) result :=
  fun state => ⟨state.journal, rfl⟩

theorem gives_pure (value : α) : Gives (pure value) (.ok value) := gives_ofResult (.ok value)

theorem gives_report (event : Event) : Gives (report event) (.ok ()) :=
  fun state => ⟨event :: state.journal, rfl⟩

theorem Gives.bind {value : α} {result : Except EvalError β} (haction : Gives action (.ok value))
    (hnext : Gives (next value) result) : Gives (action >>= next) result := by
  intro state
  obtain ⟨journal, hstate⟩ := haction state
  obtain ⟨journal', hstate'⟩ := hnext { state with journal := journal }
  exact ⟨journal', (bind_of_ok hstate).trans hstate'⟩

theorem Gives.bind_error {error : EvalError} (haction : Gives action (.error error)) :
    Gives (action >>= next) (.error error) := by
  intro state
  obtain ⟨journal, hstate⟩ := haction state
  exact ⟨journal, bind_of_error hstate⟩

end Run

/-! ### Evaluating a calculation -/

/-- An operation folds its numbers from the left. -/
theorem NumericOp.total_eq_foldl (op : NumericOp) (first : Int) (rest : List Int) :
    op.total first rest = rest.foldl op.onInts first := by
  cases op with
  | sub => rfl
  | add =>
    induction rest generalizing first with
    | nil => simp [NumericOp.total]
    | cons next rest ih =>
      rw [List.foldl_cons, ← ih]
      simp [NumericOp.total, onInts, Int.add_assoc]
  | mul =>
    induction rest generalizing first with
    | nil => simp [NumericOp.total]
    | cons next rest ih =>
      rw [List.foldl_cons, ← ih]
      simp [NumericOp.total, onInts, Int.mul_assoc]

theorem foldPayloads_integers (op : NumericOp) (first : Int) (rest : List Int) :
    foldPayloads op (integerEntity first) (rest.map integerEntity) =
      .ok (.entity (integerEntity (op.total first rest))) := by
  have hfold : (rest.map integerEntity).foldlM
      (fun total operand => op.apply total operand.payload) (.int first) =
        .ok (.int (rest.foldl op.onInts first)) := by
    induction rest generalizing first with
    | nil => rfl
    | cons next rest ih =>
      rw [List.map_cons, List.foldlM_cons]
      exact ih (op.onInts first next)
  have hkinds : ((first :: rest).map integerEntity).any (·.kind == .float) = false := by
    rw [List.any_map, List.any_eq_false]
    intro n _
    exact Bool.noConfusion
  have hpayload : (integerEntity first).payload = .int first := rfl
  rw [foldPayloads, hpayload, hfold, op.total_eq_foldl]
  show numericResult ((first :: rest).map integerEntity) (.int _) = _
  rw [numericResult, hkinds]
  rfl

/-- The wrapped form of a whole number builds its entity. -/
theorem runEntity_integer (eval : Node → Run Node) (n : Int) :
    runEntity eval [.symbol TypeTag.integer.name, .int n] = pure (.entity (integerEntity n)) := rfl

namespace Calculation

/-- What the code of a calculation gives where so many levels are left. -/
def outcome (limit levels : Nat) (calculation : Calculation) : Except EvalError Node :=
  if calculation.nesting < levels then .ok (.entity (integerEntity calculation.value))
  else .error (.tooDeep limit)

theorem nesting_apply_lt_iff {op : NumericOp} {first : Calculation} {rest : List Calculation}
    {levels : Nat} : (apply op first rest).nesting < levels + 1 ↔
      ∀ operand ∈ first :: rest, operand.nesting < levels := by
  cases levels with
  | zero =>
    refine ⟨fun h => absurd h (by simp [nesting]), fun h => ?_⟩
    exact absurd (h first List.mem_cons_self) (Nat.not_lt_zero _)
  | succ levels =>
    rw [Nat.lt_succ_iff, nesting_apply_le_iff]
    simp only [Nat.lt_succ_iff]

/-- The operands are taken up as their values, unless one nests too deep. -/
theorem gives_evalOperands {limit levels : Nat} {operands : List Calculation}
    (h : ∀ operand ∈ operands,
      Gives (eval limit levels operand.code) (operand.outcome limit levels))
    (op : NumericOp) (position : Nat) :
    Gives (evalOperands (eval limit levels) (numericOperand op) position (operands.map code))
      (if ∀ operand ∈ operands, operand.nesting < levels
        then .ok (.ok ((operands.map value).map integerEntity))
        else .error (.tooDeep limit)) := by
  induction operands generalizing position with
  | nil =>
    rw [if_pos fun _ hmem => absurd hmem List.not_mem_nil]
    exact gives_pure (Except.ok [])
  | cons operand rest ih =>
    have hoperand := h operand List.mem_cons_self
    have hrest := ih (fun other hother => h other (List.mem_cons_of_mem _ hother)) (position + 1)
    have hboth : (∀ other ∈ operand :: rest, other.nesting < levels) ↔
        operand.nesting < levels ∧ ∀ other ∈ rest, other.nesting < levels := List.forall_mem_cons
    rw [List.map_cons, evalOperands]
    by_cases hdeep : operand.nesting < levels
    · rw [outcome, if_pos hdeep] at hoperand
      refine hoperand.bind ?_
      show Gives (evalOperands _ _ (position + 1) (rest.map code) >>= fun others =>
        pure (others.map (integerEntity operand.value :: ·))) _
      by_cases hall : ∀ other ∈ rest, other.nesting < levels
      · rw [if_pos hall] at hrest
        rw [if_pos (hboth.mpr ⟨hdeep, hall⟩)]
        exact hrest.bind (gives_pure _)
      · rw [if_neg hall] at hrest
        rw [if_neg fun h => hall (hboth.mp h).2]
        exact hrest.bind_error
    · rw [outcome, if_neg hdeep] at hoperand
      rw [if_neg fun h => hdeep (hboth.mp h).1]
      exact hoperand.bind_error

/-- **The code of a calculation evaluates to its value** in every state, if it nests less deep than
there are levels, and else fails for want of levels. -/
theorem gives_eval_code (limit levels : Nat) (calculation : Calculation) :
    Gives (eval limit levels calculation.code) (calculation.outcome limit levels) := by
  -- an operand has one level less than its operation
  induction calculation using Calculation.induction generalizing levels with
  | literal written =>
    cases levels with
    | zero => exact gives_ofResult (.error (.tooDeep limit))
    | succ levels =>
      have hnesting : (literal written).nesting < levels + 1 := Nat.succ_pos levels
      rw [eval_succ, outcome, if_pos hnesting]
      show Gives (evalNode _ _ (.form (.symbol CoreForm.entity.name ::
        [.symbol TypeTag.integer.name, .int written.value]))) _
      rw [evalNode_core]
      refine (gives_report _).bind ?_
      rw [runCore, runEntity_integer]
      exact gives_pure _
  | apply op first rest hfirst hrest =>
    cases levels with
    | zero => exact gives_ofResult (.error (.tooDeep limit))
    | succ levels =>
      have hall : ∀ operand ∈ first :: rest,
          Gives (eval limit levels operand.code) (operand.outcome limit levels) :=
        List.forall_mem_cons.mpr ⟨hfirst levels, fun operand hmem => hrest operand hmem levels⟩
      have hoperands := gives_evalOperands hall op 1
      rw [eval_succ, code_apply]
      show Gives (evalNode _ _ (.form (.symbol (CoreForm.numeric op).name :: _))) _
      rw [evalNode_core]
      refine (gives_report _).bind ?_
      show Gives (evalOperands _ _ 1 _ >>= _) _
      rw [outcome]
      by_cases hdeep : (apply op first rest).nesting < levels + 1
      · rw [if_pos (nesting_apply_lt_iff.mp hdeep)] at hoperands
        rw [if_pos hdeep]
        refine hoperands.bind ?_
        show Gives (ofResult ((foldPayloads op (integerEntity first.value)
          ((rest.map value).map integerEntity)).mapError .arithmetic)) _
        rw [foldPayloads_integers, value, values_eq_map]
        exact gives_ofResult _
      · rw [if_neg fun h => hdeep (nesting_apply_lt_iff.mpr h)] at hoperands
        rw [if_neg hdeep]
        exact hoperands.bind_error

/-- What the text of a calculation with an operation evaluates to. -/
theorem gives_evaluateText [Stack] {calculation : Calculation} (hroot : calculation.IsOperation)
    {text : String} (htokens : tokenize text = .ok calculation.tokens)
    (hnesting : calculation.nesting ≤ nestingLimit) (limit : Nat) :
    Gives (evaluateText limit text) (calculation.outcome limit (min limit stackDepth + 1)) := by
  obtain ⟨op, first, rest, rfl⟩ := hroot
  have hone : evalSequence (evaluate limit) .nil [(apply op first rest).code] =
      evaluate limit (apply op first rest).code := bind_pure _
  rw [evaluateText_of_forms (readProgram_text htokens hnesting), evaluateForms, hone]
  exact gives_eval_code limit _ _

end Calculation

/-! ### The law of calculations -/

open Calculation

/-- **Arithmetic from the text to the value.** A text that lays out the tokens of a calculation
with an operation evaluates, in every state, to the integer entity of the value, and leaves all but
the journal as it was, if the operations nest no deeper than the depth limit and the stack let
evaluation nest. If they nest deeper, evaluation fails with the limit, and nothing has changed
either. -/
theorem evaluateText_calculation [Stack] {calculation : Calculation}
    (hroot : calculation.IsOperation) {layout : Layout}
    (htokens : layout.tokens = calculation.tokens) (limit : Nat) (state : RunState) :
    (calculation.nesting ≤ limit → calculation.nesting ≤ stackDepth → ∃ journal,
      evaluateText limit layout.text state =
        .ok (.entity (integerEntity calculation.value)) { state with journal := journal }) ∧
    (calculation.nesting ≤ nestingLimit → min limit stackDepth < calculation.nesting →
      ∃ journal, evaluateText limit layout.text state =
        .error (.tooDeep limit) { state with journal := journal }) := by
  have hcut : tokenize layout.text = .ok calculation.tokens := htokens ▸ layout.tokenize_text
  constructor
  · intro hlimit hstack
    have hgives :=
      gives_evaluateText hroot hcut (hstack.trans Stack.stackDepth_le_nestingLimit) limit
    rw [outcome, if_pos (Nat.lt_succ_of_le (Nat.le_min.mpr ⟨hlimit, hstack⟩))] at hgives
    exact hgives state
  · intro hreadable hdeep
    have hgives := gives_evaluateText hroot hcut hreadable limit
    rw [outcome, if_neg (Nat.not_lt.mpr hdeep)] at hgives
    exact hgives state

/-- The calculation `(sub 007 (mul -2 3) (add 5))`. -/
def differenceCalculation : Calculation :=
  .apply .sub (.literal ⟨false, ['0', '0', '7'], by decide, by decide⟩)
    [.apply .mul (.literal ⟨true, ['2'], by decide, by decide⟩)
        [.literal ⟨false, ['3'], by decide, by decide⟩],
      .apply .add (.literal ⟨false, ['5'], by decide, by decide⟩) []]

/-- A layout of it with a comment and without the blanks that need not be, in a scope in which `mul`
is bound. -/
theorem evaluateText_calculation_difference :
    ∃ layout : Layout, layout.text = "(sub 007;seven\n(mul -2\t3)(add 5))" ∧
      layout.tokens = differenceCalculation.tokens ∧ differenceCalculation.nesting = 2 ∧
      ∃ journal, evaluateText 2 layout.text (.initial ⟨[("mul", .nil)], []⟩) =
        .ok (.entity (integerEntity 8)) ⟨⟨[("mul", .nil)], []⟩, 1, journal⟩ := by
  have htokens : tokenize "(sub 007;seven\n(mul -2\t3)(add 5))" =
      .ok differenceCalculation.tokens := by decide +kernel
  obtain ⟨layout, hchars, hlayout⟩ := isLaidOut_of_tokensFrom htokens
  exact ⟨layout, Layout.chars_eq_toList_iff.mpr hchars, hlayout, rfl,
    (evaluateText_calculation ⟨_, _, _, rfl⟩ hlayout 2 _).1 (by decide) (by decide)⟩

/-! ### A limit that the stack does not hold -/

namespace Calculation

/-- So many additions inside each other, each of one operand. -/
def nestedAdds : Nat → Calculation
  | 0 => .literal ⟨false, ['1'], by decide, by decide⟩
  | n + 1 => .apply .add (nestedAdds n) []

/-- The text of nested additions. -/
def nestedAddsText : Nat → List Char
  | 0 => ['1']
  | n + 1 => '(' :: 'a' :: 'd' :: 'd' :: ' ' :: (nestedAddsText n ++ [')'])

theorem nesting_nestedAdds (n : Nat) : (nestedAdds n).nesting = n := by
  induction n with
  | zero => rfl
  | succ n ih => rw [nestedAdds, nesting, ih, nestingOfAll, Nat.max_zero]

theorem isOperation_nestedAdds (n : Nat) : (nestedAdds (n + 1)).IsOperation := ⟨_, _, _, rfl⟩

theorem value_nestedAdds (n : Nat) : (nestedAdds n).value = 1 := by
  induction n with
  | zero => decide
  | succ n ih => simp [nestedAdds, value, values, ih, NumericOp.total]

theorem isCutInto_nestedAddsText (n : Nat) :
    IsCutInto (nestedAddsText n) (nestedAdds n).tokens := by
  induction n with
  | zero => exact isCutInto_word (by decide) (by decide)
  | succ n ih =>
    intro rest _
    have hadd : IsCutInto ['a', 'd', 'd'] ["add"] := isCutInto_word (by decide) (by decide)
    have hclose : ∀ c ∈ (')' :: rest).head?, isSeparator c = true := by
      rintro c hc
      obtain rfl : ')' = c := by simpa using hc
      decide
    have hchars : nestedAddsText (n + 1) ++ rest =
        '(' :: (['a', 'd', 'd'] ++ ' ' :: (nestedAddsText n ++ ')' :: rest)) := by
      simp [nestedAddsText]
    have htokens : (nestedAdds (n + 1)).tokens =
        "(" :: "add" :: ((nestedAdds n).tokens ++ [")"]) := by
      simp [nestedAdds, tokens_apply, NumericOp.name]
    rw [hchars, tokensFrom_cons_paren (Or.inl rfl), hadd _ (by simp; decide),
      tokensFrom_cons_space, ih _ hclose, tokensFrom_cons_paren (Or.inr rfl), htokens]
    cases tokensFrom .plain [] rest with
    | error fault => rfl
    | ok tail => simp [Except.map]

end Calculation

/-- **A depth limit that the stack does not hold:** seven hundred nested additions fail under a
limit of a thousand. -/
theorem nested_additions_exceed_stack :
    (nestedAdds 700).IsOperation ∧ (nestedAdds 700).nesting ≤ 1000 ∧
      (nestedAdds 700).value = 1 ∧
      ∃ layout : Layout, layout.text = String.ofList (nestedAddsText 700) ∧
        layout.tokens = (nestedAdds 700).tokens ∧
        (∃ after, evaluateText 1000 layout.text (.initial .empty) = .error (.tooDeep 1000) after) ∧
        ¬∃ after, evaluateText 1000 layout.text (.initial .empty) =
          .ok (.entity (integerEntity (nestedAdds 700).value)) after := by
  have hcut : tokenize (String.ofList (nestedAddsText 700)) = .ok (nestedAdds 700).tokens := by
    have hall := isCutInto_nestedAddsText 700 [] (by simp)
    rw [List.append_nil] at hall
    rw [tokenize, String.toList_ofList, hall]
    simp [tokensFrom, flushToken, Except.map]
  obtain ⟨layout, hchars, htokens⟩ := isLaidOut_of_tokensFrom hcut
  have htext := Layout.chars_eq_toList_iff.mpr hchars
  have hnesting := nesting_nestedAdds 700
  have hroot := isOperation_nestedAdds 699
  obtain ⟨journal, hstate⟩ := gives_evaluateText hroot hcut
    (by rw [hnesting]; decide) 1000 (.initial .empty)
  rw [outcome, hnesting, if_neg (by decide), ← htext] at hstate
  have hfails : ∃ after,
      evaluateText 1000 layout.text (.initial .empty) = .error (.tooDeep 1000) after := ⟨_, hstate⟩
  refine ⟨hroot, by rw [hnesting]; decide, value_nestedAdds 700, layout, htext, htokens, hfails, ?_⟩
  rintro ⟨after, hok⟩
  rw [hstate] at hok
  cases hok

end EntityLisp
