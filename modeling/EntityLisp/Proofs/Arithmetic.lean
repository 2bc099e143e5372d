import EntityLisp.Proofs.Results
import EntityLisp.Proofs.Rounding
import EntityLisp.Run.Operands

/-!
# Arithmetic on numbers

Operations on numbers fail in one way only: an integer of at least `Binary64.overflow` cannot be
rounded where a floating-point number takes part.

* `NumericOp.apply_eq_integerTooLarge_iff`: when an operation fails for that reason, whatever the
  payloads are.
* `foldPayloads_eq_integerTooLarge_iff`: the same for a fold over the payloads of operands.
* `foldPayloads_of_isNumeric`: a fold over payloads that suit their types gives an entity whose
  payload suits its type, or fails for that reason.
-/

namespace EntityLisp

/-! ### Rounding integers -/

theorem Number.toFloat_float (x : Binary64) : (Number.float x).toFloat = .ok x := rfl

theorem Number.toFloat_eq_error_iff {x : Number} {error : ArithmeticError} :
    x.toFloat = .error error ↔
      error = .integerTooLarge ∧ ∃ n, x = .int n ∧ Binary64.overflow ≤ n.natAbs := by
  cases x with
  | float y =>
    rw [toFloat_float]
    constructor
    · rintro ⟨⟩
    · rintro ⟨-, n, hn, -⟩
      cases hn
  | int n =>
    have hnone := Binary64.ofInt?_eq_none_iff n
    cases hn : Binary64.ofInt? n with
    | none =>
      simp only [toFloat, toFloat?, hn]
      constructor
      · rintro ⟨⟩
        exact ⟨rfl, n, rfl, hnone.mp hn⟩
      · rintro ⟨rfl, -⟩
        rfl
    | some y =>
      simp only [toFloat, toFloat?, hn]
      constructor
      · rintro ⟨⟩
      · rintro ⟨-, m, hm, hlarge⟩
        cases hm
        rw [hnone.mpr hlarge] at hn
        cases hn

/-! ### One operation -/

/-- **Two payloads clash** if one counts as a floating-point number and the other as an integer
that is too large to be rounded to one. -/
def Clash (x y : Node) : Prop :=
  ∃ n z, Binary64.overflow ≤ n.natAbs ∧
    ((x.count? = some (.int n) ∧ y.count? = some (.float z)) ∨
      (x.count? = some (.float z) ∧ y.count? = some (.int n)))

theorem NumericOp.onNumbers_eq_error_iff {op : NumericOp} {x y : Number}
    {error : ArithmeticError} : op.onNumbers x y = .error error ↔ error = .integerTooLarge ∧
      ∃ n z, Binary64.overflow ≤ n.natAbs ∧
        ((x = .int n ∧ y = .float z) ∨ (x = .float z ∧ y = .int n)) := by
  -- unless both are integers, both are rounded, and the first failure is the result
  have hmixed : ∀ x y : Number, (x.toFloat.bind fun a => y.toFloat.map fun b =>
      Number.float (op.onFloats a b)) = .error error ↔
        x.toFloat = .error error ∨ ∃ a, x.toFloat = .ok a ∧ y.toFloat = .error error := by
    intro x y
    rw [Except.bind_eq_error_iff]
    simp only [Except.map_eq_error_iff]
  cases x with
  | int m =>
    cases y with
    | int n => simp [onNumbers]
    | float z =>
      rw [onNumbers, hmixed, Number.toFloat_float, Number.toFloat_eq_error_iff]
      · simp
      · simp
  | float z =>
    rw [onNumbers, hmixed, Number.toFloat_float, Number.toFloat_eq_error_iff]
    · simp [and_comm]
    · simp

theorem repeatItems_ne_integerTooLarge {α : Type} (items : List α) (count : Nat) :
    repeatItems items count ≠ .error .integerTooLarge := by
  unfold repeatItems
  split
  · simp
  · split <;> simp

theorem Node.repeated_ne_integerTooLarge (count : Nat) (node : Node) :
    node.repeated count ≠ .error .integerTooLarge := by
  unfold Node.repeated
  split
  · split
    · simp
    · rw [Ne, Except.map_eq_error_iff]
      exact repeatItems_ne_integerTooLarge _ _
  · rw [Ne, Except.map_eq_error_iff]
    exact repeatItems_ne_integerTooLarge _ _
  · rw [Ne, Except.map_eq_error_iff]
    exact repeatItems_ne_integerTooLarge _ _
  · simp

theorem Node.repetitions_ne_integerTooLarge (node : Node) :
    node.repetitions ≠ .error .integerTooLarge := by
  unfold Node.repetitions
  split
  · split <;> simp
  · simp
  · simp

/-- Sequences are combined without any rounding. -/
theorem NumericOp.onSequences_ne_integerTooLarge (op : NumericOp) (x y : Node) :
    op.onSequences x y ≠ .error .integerTooLarge := by
  -- a sequence may stand on either side of the count
  have hrepeat : ∀ x y : Node,
      x.repetitions.bind (Node.repeated · y) ≠ .error .integerTooLarge := by
    intro x y h
    rcases Except.bind_eq_error_iff.mp h with h | ⟨count, -, h⟩
    · exact Node.repetitions_ne_integerTooLarge x h
    · exact Node.repeated_ne_integerTooLarge count y h
  cases op with
  | add =>
    show x.join y ≠ _
    unfold Node.join
    split <;> simp
  | sub => simp [onSequences]
  | mul =>
    show x.multiply y ≠ _
    unfold Node.multiply
    split
    · exact hrepeat y x
    · split
      · exact hrepeat x y
      · simp

/-- **When an operation fails** because an integer is too large. -/
theorem NumericOp.apply_eq_integerTooLarge_iff {op : NumericOp} {x y : Node} :
    op.apply x y = .error .integerTooLarge ↔ Clash x y := by
  unfold apply Clash
  cases hx : x.count? with
  | none =>
    simp [onSequences_ne_integerTooLarge]
  | some a =>
    cases hy : y.count? with
    | none => simp [onSequences_ne_integerTooLarge]
    | some b =>
      simp only [Except.map_eq_error_iff, onNumbers_eq_error_iff, Option.some.injEq, true_and]

/-- **When a payload does not become a floating-point number** because it is too large. -/
theorem Node.toFloat_eq_integerTooLarge_iff {node : Node} :
    node.toFloat = .error .integerTooLarge ↔
      ∃ n, node.count? = some (.int n) ∧ Binary64.overflow ≤ n.natAbs := by
  unfold Node.toFloat
  cases hcount : node.count? with
  | some number =>
    simp only [Number.toFloat_eq_error_iff, Option.some.injEq, true_and]
  | none =>
    cases node with
    | str text =>
      simp only
      split <;> simp
    | _ => simp_all

/-! ### Folds -/

/-- The left fold of the payloads of operands. -/
def runningTotal (op : NumericOp) (first : Entity Node) (rest : List (Entity Node)) :
    Except ArithmeticError Node :=
  rest.foldlM (fun total operand => op.apply total operand.payload) first.payload

theorem foldPayloads_eq (op : NumericOp) (first : Entity Node) (rest : List (Entity Node)) :
    foldPayloads op first rest =
      (runningTotal op first rest).bind (numericResult (first :: rest)) := rfl

/-- **A fold overflows** if a step of it meets a floating-point number and an integer that is too
large, or if its total is such an integer while an operand is of type `Float`. -/
def FoldOverflows (op : NumericOp) (first : Entity Node) (rest : List (Entity Node)) : Prop :=
  (∃ before operand after total, rest = before ++ operand :: after ∧
    runningTotal op first before = .ok total ∧ Clash total operand.payload) ∨
  (∃ total n, runningTotal op first rest = .ok total ∧
    (first :: rest).any (·.kind == .float) = true ∧
      total.count? = some (.int n) ∧ Binary64.overflow ≤ n.natAbs)

/-- **When a fold fails** because an integer is too large. -/
theorem foldPayloads_eq_integerTooLarge_iff {op : NumericOp} {first : Entity Node}
    {rest : List (Entity Node)} :
    foldPayloads op first rest = .error .integerTooLarge ↔ FoldOverflows op first rest := by
  -- the total is rounded only if an operand is of type `Float`
  have hresult : ∀ total, numericResult (first :: rest) total = .error .integerTooLarge ↔
      (first :: rest).any (·.kind == .float) = true ∧
        ∃ n, total.count? = some (.int n) ∧ Binary64.overflow ≤ n.natAbs := by
    intro total
    unfold numericResult
    split
    · next hfloat =>
      rw [Except.map_eq_error_iff, Node.toFloat_eq_integerTooLarge_iff]
      exact ⟨fun h => ⟨hfloat, h⟩, fun h => h.2⟩
    · next hfloat =>
      constructor
      · rintro ⟨⟩
      · exact fun h => absurd h.1 hfloat
  rw [foldPayloads_eq, Except.bind_eq_error_iff]
  unfold FoldOverflows
  refine or_congr ?_ ?_
  · unfold runningTotal
    simp only [Except.foldlM_eq_error_iff, NumericOp.apply_eq_integerTooLarge_iff]
  · simp only [hresult]
    constructor
    · rintro ⟨total, htotal, hfloat, n, hn⟩
      exact ⟨total, n, htotal, hfloat, hn⟩
    · rintro ⟨total, n, htotal, hfloat, hn⟩
      exact ⟨total, htotal, hfloat, n, hn⟩

/-! ### Numbers of a known sort -/

/-- A number that is a floating-point number or an integer, as `isFloat` says. -/
def IsNumber (isFloat : Bool) (node : Node) : Prop :=
  if isFloat then ∃ x, node = .float x else ∃ n, node = .int n

theorem isNumber_int (n : Int) : IsNumber false (.int n) := ⟨n, rfl⟩

theorem isNumber_float (x : Binary64) : IsNumber true (.float x) := ⟨x, rfl⟩

/-- The sort of a result is that of its operands, where floating point wins. -/
theorem NumericOp.apply_of_isNumber (op : NumericOp) {a b : Bool} {x y : Node}
    (hx : IsNumber a x) (hy : IsNumber b y) :
    (∃ z, op.apply x y = .ok z ∧ IsNumber (a || b) z) ∨
      op.apply x y = .error .integerTooLarge := by
  have happly : ∀ m n : Number, x.count? = some m → y.count? = some n →
      op.apply x y = (op.onNumbers m n).map Node.ofNumber := by
    intro m n hm hn
    unfold apply
    rw [hm, hn]
  have hmixed : ∀ m n : Number, op.onNumbers m n =
      (m.toFloat.bind fun u => n.toFloat.map fun v => Number.float (op.onFloats u v)) →
        (∃ z, (op.onNumbers m n).map Node.ofNumber = .ok z ∧ IsNumber true z) ∨
          (op.onNumbers m n).map Node.ofNumber = .error .integerTooLarge := by
    intro m n heq
    cases hresult : op.onNumbers m n with
    | error error =>
      rw [(onNumbers_eq_error_iff.mp hresult).1]
      exact Or.inr rfl
    | ok number =>
      rw [heq] at hresult
      obtain ⟨u, -, hresult⟩ := Except.bind_eq_ok_iff.mp hresult
      obtain ⟨v, -, rfl⟩ := Except.map_eq_ok_iff.mp hresult
      exact Or.inl ⟨_, rfl, isNumber_float _⟩
  cases a with
  | false =>
    obtain ⟨m, rfl⟩ := hx
    cases b with
    | false =>
      obtain ⟨n, rfl⟩ := hy
      exact Or.inl ⟨_, apply_int op m n, isNumber_int _⟩
    | true =>
      obtain ⟨z, rfl⟩ := hy
      rw [happly (.int m) (.float z) rfl rfl]
      exact hmixed _ _ rfl
  | true =>
    obtain ⟨u, rfl⟩ := hx
    cases b with
    | false =>
      obtain ⟨n, rfl⟩ := hy
      rw [happly (.float u) (.int n) rfl rfl]
      exact hmixed _ _ rfl
    | true =>
      obtain ⟨v, rfl⟩ := hy
      rw [happly (.float u) (.float v) rfl rfl]
      exact hmixed _ _ rfl

/-- An operand whose payload is a number of the sort that its type says. -/
def Entity.IsNumeric (e : Entity Node) : Prop := IsNumber (e.kind == .float) e.payload

theorem foldlM_apply_of_isNumber (op : NumericOp) {operands : List (Entity Node)} {a : Bool}
    {init : Node} (hinit : IsNumber a init) (hoperands : ∀ e ∈ operands, e.IsNumeric) :
    (∃ total, operands.foldlM (fun total operand => op.apply total operand.payload) init =
        .ok total ∧ IsNumber (a || operands.any (·.kind == .float)) total) ∨
      operands.foldlM (fun total operand => op.apply total operand.payload) init =
        .error .integerTooLarge := by
  induction operands generalizing a init with
  | nil => exact Or.inl ⟨init, rfl, by simpa using hinit⟩
  | cons e rest ih =>
    rw [List.forall_mem_cons] at hoperands
    have hstep : (e :: rest).foldlM (fun total operand => op.apply total operand.payload) init =
        (op.apply init e.payload).bind fun total =>
          rest.foldlM (fun total operand => op.apply total operand.payload) total := rfl
    rcases op.apply_of_isNumber hinit hoperands.1 with ⟨total, htotal, hsort⟩ | herror
    · rw [hstep, htotal, List.any_cons, ← Bool.or_assoc]
      exact ih hsort hoperands.2
    · rw [hstep, herror]
      exact Or.inr rfl

/-- **A fold over numbers** gives an entity whose payload suits its type, or fails because an
integer is too large. -/
theorem foldPayloads_of_isNumeric (op : NumericOp) {first : Entity Node}
    {rest : List (Entity Node)} (hfirst : first.IsNumeric) (hrest : ∀ e ∈ rest, e.IsNumeric) :
    (∃ n, foldPayloads op first rest = .ok (.plain .integer (.int n))) ∨
      (∃ x, foldPayloads op first rest = .ok (.plain .float (.float x))) ∨
        foldPayloads op first rest = .error .integerTooLarge := by
  rcases foldlM_apply_of_isNumber op hfirst hrest with ⟨total, htotal, hsort⟩ | herror
  · have hfold : foldPayloads op first rest = numericResult (first :: rest) total := by
      rw [foldPayloads_eq, runningTotal, htotal]
      rfl
    rw [hfold, numericResult, List.any_cons]
    -- the sort of the total and the type of the result hang on the same test
    generalize (first.kind == TypeTag.float || rest.any (·.kind == .float)) = isFloat at hsort ⊢
    cases isFloat with
    | false =>
      obtain ⟨n, rfl⟩ := hsort
      exact Or.inl ⟨n, rfl⟩
    | true =>
      obtain ⟨x, rfl⟩ := hsort
      exact Or.inr (Or.inl ⟨x, rfl⟩)
  · refine Or.inr (Or.inr ?_)
    rw [foldPayloads_eq, runningTotal, herror]
    rfl

end EntityLisp
