import EntityLisp.Proofs.Calculation
import EntityLisp.Proofs.Fixing

/-!
# Numbers that a `let` binds

A program `(let ((name be number)) name)`, from the text to the value. The rules for normal forms
look at the head of a form and not at its place, so a binding whose name is that of a core form is
taken for a form of that name, and its number is wrapped.

* `normalForm_triple`: what becomes of a binding or a parameter when it is brought to normal form.
* `tokenize_bindingText`, `readProgram_bindingTokens`: how the program is read.
* `let_binds_number`: **a `let` binds a number as it is written unless the name is one of those of
  the core forms that wrap numbers.**
-/

namespace EntityLisp

open Node Run

/-! ### Normal forms of three items -/

/-- The names of the core forms that wrap bare numbers. -/
def wrappingNames : List String := (CoreForm.all.filter (·.wrapsNumbers)).map (·.name)

theorem mem_wrappingNames_iff {name : String} :
    name ∈ wrappingNames ↔ ∃ form : CoreForm, form ≠ .entity ∧ form.name = name := by
  simp [wrappingNames, CoreForm.mem_all, CoreForm.wrapsNumbers]

example : wrappingNames = ["list", "add", "sub", "mul", "eq", "let", "impl", "lambda"] := by decide

/-- Whether a node is a bare number. -/
def Node.isNumber : Node → Bool
  | .int _ | .float _ => true
  | _ => false

theorem wrapNumber_eq_self_iff {node : Node} : wrapNumber node = node ↔ node.isNumber = false := by
  cases node <;> simp [wrapNumber, isNumber]

/-- **A form of a name and two items** in normal form: both are wrapped or both are left alone. -/
theorem normalForm_triple (name : String) (first second : Node) :
    normalForm [.symbol name, first, second] =
      if name ∈ wrappingNames then [.symbol name, wrapNumber first, wrapNumber second]
      else [.symbol name, first, second] := by
  by_cases hname : name ∈ wrappingNames
  · obtain ⟨form, hform, rfl⟩ := mem_wrappingNames_iff.mp hname
    rw [if_pos hname, normalForm_core hform]
    rfl
  · rw [if_neg hname]
    rcases normalForm_cases [.symbol name, first, second] with
      heq | ⟨rest, hitems, heq⟩ | ⟨form, rest, hform, hitems, -⟩
    · exact heq
    · -- an `entity` form of two items has no attributes to be folded
      obtain rfl : [first, second] = rest := (List.cons.inj hitems).2
      rw [heq, hitems]
      rfl
    · have hhead : name = form.name := Node.symbol.inj (List.cons.inj hitems).1
      exact absurd (mem_wrappingNames_iff.mpr ⟨form, hform, hhead.symm⟩) hname

/-- **When a triple is left alone:** its head is no wrapping name or its last item no number. -/
theorem normalForm_triple_eq_self_iff (name word : String) (item : Node) :
    normalForm [.symbol name, .symbol word, item] = [.symbol name, .symbol word, item] ↔
      (name ∈ wrappingNames → item.isNumber = false) := by
  rw [normalForm_triple, ← wrapNumber_eq_self_iff]
  split
  · next hname => simp [hname, wrapNumber]
  · next hname => simp [hname]

/-! ### Reading the program -/

/-- **A numeral** and the number that it stands for. -/
inductive IsNumeral : String → Node → Prop where
  | whole {text : String} {n : Int} (reads : readInt? text.toList = some n) :
    IsNumeral text (.int n)
  | pointed {text : String} {x : Binary64} (reads : readFloat? text.toList = some x) :
    IsNumeral text (.float x)

namespace IsNumeral

variable {text : String} {value : Node}

theorem isNumber (h : IsNumeral text value) : value.isNumber = true := by
  cases h <;> rfl

theorem isNumeralChar (h : IsNumeral text value) : ∀ c ∈ text.toList, IsNumeralChar c := by
  cases h with
  | whole hreads =>
    obtain ⟨_, _, hwhole, -⟩ := readInt?_eq_some_iff.mp hreads
    exact isNumeralChar_of_isWhole hwhole
  | pointed hreads =>
    obtain ⟨_, _, _, hpointed, -⟩ := readFloat?_eq_some_iff.mp hreads
    exact isNumeralChar_of_isPointed hpointed

theorem bare (h : IsNumeral text value) : ∀ c ∈ text.toList, isBareChar c = true :=
  fun c hc => isBareChar_of_isNumeralChar (h.isNumeralChar c hc)

theorem ne_nil (h : IsNumeral text value) : text.toList ≠ [] := by
  cases h with
  | whole hreads =>
    obtain ⟨_, _, hwhole, -⟩ := readInt?_eq_some_iff.mp hreads
    exact ne_nil_of_isWhole hwhole
  | pointed hreads =>
    obtain ⟨_, _, _, hpointed, -⟩ := readFloat?_eq_some_iff.mp hreads
    exact ne_nil_of_isPointed hpointed

/-- A numeral is read as its number. -/
theorem readAtom_eq (h : IsNumeral text value) : readAtom text = .ok value := by
  rw [readAtom_of_isNumeralChar h.isNumeralChar, readBare_eq_ok_iff, bareAtom]
  cases h with
  | whole hreads => exact ⟨excessDigits?_of_readInt? hreads, by rw [hreads]⟩
  | pointed hreads =>
    obtain ⟨_, _, _, ⟨_, _, htext⟩, -⟩ := readFloat?_eq_some_iff.mp hreads
    have hpoint : '.' ∈ text.toList := by
      rw [htext]
      simp
    have hnotWhole := not_isWhole_of_mem hpoint
    exact ⟨excessDigits?_eq_none hnotWhole, by rw [readInt?_eq_none hnotWhole, hreads]⟩

end IsNumeral

/-- The tokens of `(let ((name be numeral)) name)`. -/
def bindingTokens (name numeral : String) : List String :=
  ["(", "let", "(", "(", name, "be", numeral, ")", ")", name, ")"]

/-- The text `(let ((name be numeral)) name)`. -/
def bindingText (name numeral : String) : String :=
  "(let ((" ++ name ++ " be " ++ numeral ++ ")) " ++ name ++ ")"

/-- What a `let` binds to a name for which a number is written. -/
def boundItem (name : String) (value : Node) : Node :=
  if name ∈ wrappingNames then wrapNumber value else value

section Reading

variable {name numeral : String} {value : Node}

theorem ne_paren_of_bare {token : String} (h : ∀ c ∈ token.toList, isBareChar c = true) :
    token ≠ "(" ∧ token ≠ ")" := by
  constructor
  · rintro rfl
    exact absurd (h '(' (by decide)) (by decide)
  · rintro rfl
    exact absurd (h ')' (by decide)) (by decide)

/-- The text is cut into the tokens. -/
theorem tokenize_bindingText (hname : IsSymbolName name.toList)
    (hnumeral : IsNumeral numeral value) :
    tokenize (bindingText name numeral) = .ok (bindingTokens name numeral) := by
  have hlet : IsCutInto ['l', 'e', 't'] ["let"] := isCutInto_word (by decide) (by decide)
  have hbe : IsCutInto ['b', 'e'] ["be"] := isCutInto_word (by decide) (by decide)
  have hn : IsCutInto name.toList [name] := by
    have hword := isCutInto_word hname.nonempty (isWordFrom_of_bare hname.bare)
    rwa [String.ofList_toList] at hword
  have hk : IsCutInto numeral.toList [numeral] := by
    have hword := isCutInto_word hnumeral.ne_nil (isWordFrom_of_bare hnumeral.bare)
    rwa [String.ofList_toList] at hword
  have hchars : (bindingText name numeral).toList = '(' :: (['l', 'e', 't'] ++ ' ' :: '(' :: '(' ::
      (name.toList ++ ' ' :: (['b', 'e'] ++ ' ' :: (numeral.toList ++ ')' :: ')' :: ' ' ::
        (name.toList ++ [')']))))) := by
    simp [bindingText]
  rw [tokenize, hchars, tokensFrom_cons_paren (Or.inl rfl), hlet _ (by simp; decide),
    tokensFrom_cons_space, tokensFrom_cons_paren (Or.inl rfl), tokensFrom_cons_paren (Or.inl rfl),
    hn _ (by simp; decide), tokensFrom_cons_space, hbe _ (by simp; decide), tokensFrom_cons_space,
    hk _ (by simp; decide), tokensFrom_cons_paren (Or.inr rfl), tokensFrom_cons_paren (Or.inr rfl),
    tokensFrom_cons_space, hn _ (by simp; decide), tokensFrom_cons_paren (Or.inr rfl)]
  rfl

/-- In normal form, the number of the binding is wrapped where its name asks for it. -/
theorem normal_letForm_number (h : value.isForm = false) :
    (letForm [(name, value)] [.symbol name]).normal =
      letForm [(name, boundItem name value)] [.symbol name] := by
  have hbinding : (writeBinding (name, value)).normal =
      writeBinding (name, boundItem name value) := by
    rw [writeBinding, normal_form, List.map_cons, List.map_cons, List.map_singleton,
      normal_of_not_form h]
    show Node.form (normalForm [.symbol name, .symbol "be", value]) = _
    rw [normalForm_triple, boundItem, writeBinding]
    split <;> rfl
  have hbindings : (Node.form [writeBinding (name, value)]).normal =
      .form [writeBinding (name, boundItem name value)] := by
    rw [normal_form, List.map_singleton, hbinding]
    rfl
  rw [letForm, normal_form, List.map_cons, List.map_cons, List.map_singleton, List.map_singleton,
    hbindings]
  rfl

/-- **The tokens are read as a `let`** in which the number may be wrapped. -/
theorem readProgram_bindingTokens [Stack] (hname : IsSymbolName name.toList)
    (hnumeral : IsNumeral numeral value) {text : String}
    (htokens : tokenize text = .ok (bindingTokens name numeral)) :
    readProgram text = .ok [letForm [(name, boundItem name value)] [.symbol name]] := by
  have hn := readAtom_of_isSymbolName hname
  obtain ⟨hnopen, hnclose⟩ := ne_paren_of_bare hname.bare
  obtain ⟨hkopen, hkclose⟩ := ne_paren_of_bare hnumeral.bare
  have hbinding : Spells [.symbol name, .symbol "be", value] [name, "be", numeral] :=
    .atom hnopen hnclose hn (.atom (by decide) (by decide) rfl
      (.atom hkopen hkclose hnumeral.readAtom_eq .nil))
  have hspells : SpellsForm (letForm [(name, value)] [.symbol name]) (bindingTokens name numeral) :=
    .intro (.atom (by decide) (by decide) rfl
      (.form (.form hbinding .nil) (.atom hnopen hnclose hn .nil)))
  have hform : value.isForm = false := isForm_of_readAtom hnumeral.readAtom_eq
  have hheight : (letForm [(name, value)] [.symbol name]).height ≤ nestingLimit := by
    have hthree : 3 ≤ nestingLimit :=
      Nat.le_trans (by decide : 3 ≤ defaultMaxDepth) Stack.defaultMaxDepth_le_nestingLimit
    cases hnumeral <;> exact hthree
  rw [← normal_letForm_number hform]
  exact readProgram_singleton htokens (hspells.readForm_eq hheight)

end Reading

/-! ### Evaluating it -/

/-- A bare number as the entity of its type. -/
def Node.asEntity : Node → Node
  | .int n => .plain .integer (.int n)
  | .float x => .plain .float (.float x)
  | node => node

/-- What a `let` binds a name to for which a number is written. -/
def boundNumber (name : String) (value : Node) : Node :=
  if name ∈ wrappingNames then value.asEntity else value

section Evaluating

variable {name numeral : String} {value : Node} {limit : Nat} {state : RunState}

theorem isPending_boundNumber (h : value.isNumber = true) :
    (boundNumber name value).isPending = false := by
  cases value with
  | int n => unfold boundNumber; split <;> rfl
  | float x => unfold boundNumber; split <;> rfl
  | _ => cases h

theorem eval_boundItem (name : String) (h : value.isNumber = true) (limit levels : Nat)
    (state : RunState) : ∃ journal, eval limit (levels + 1) (boundItem name value) state =
      .ok (boundNumber name value) { state with journal := journal } := by
  unfold boundItem boundNumber
  split
  · cases value with
    | int n => exact ⟨_, by
        rw [eval_succ, wrapNumber, evalNode_core, bind_of_ok (report_apply _ state)]
        rfl⟩
    | float x => exact ⟨_, by
        rw [eval_succ, wrapNumber, evalNode_core, bind_of_ok (report_apply _ state)]
        rfl⟩
    | _ => cases h
  · cases value with
    | int n => exact ⟨_, eval_of_isValue (.int n) limit levels state⟩
    | float x => exact ⟨_, eval_of_isValue (.float x) limit levels state⟩
    | _ => cases h

/-- **The program gives what the name is bound to,** and leaves all but the journal as it was. -/
theorem evaluateText_bindingTokens [Stack] (hname : IsSymbolName name.toList)
    (hnumeral : IsNumeral numeral value) {text : String}
    (htokens : tokenize text = .ok (bindingTokens name numeral)) (hlimit : 0 < limit)
    (hstate : state.scope.IsDistinct) : ∃ journal, evaluateText limit text state =
      .ok (boundNumber name value) { state with journal := journal } := by
  -- the value and the body stand one level deeper than the program
  obtain ⟨levels, hlevels⟩ : ∃ levels, min limit stackDepth = levels + 1 :=
    Nat.exists_eq_succ_of_ne_zero
      (Nat.pos_iff_ne_zero.mp (Nat.lt_min.mpr ⟨hlimit, Stack.stackDepth_pos⟩))
  obtain ⟨_, hvalue⟩ := eval_boundItem name hnumeral.isNumber limit levels (state.startLet 1)
  obtain ⟨journal, hlet⟩ := eval_letForm_single hvalue (.symbol name)
  have hbound : (state.scope.define name (boundNumber name value)).fixClosures.lookup? name =
      some (boundNumber name value) :=
    (hstate.define name _).lookup?_fixClosures (by rw [Scope.lookup?_define, if_pos rfl])
      (isPending_boundNumber hnumeral.isNumber)
  have hone : ∀ form, evalSequence (evaluate limit) .nil [form] = evaluate limit form :=
    fun form => bind_pure _
  refine ⟨journal, ?_⟩
  rw [evaluateText_of_forms (readProgram_bindingTokens hname hnumeral htokens), evaluateForms, hone,
    evaluate, hlevels, hlet]
  have hbody : eval limit (levels + 1) (.symbol name)
      ⟨(state.scope.define name (boundNumber name value)).fixClosures, state.nextOrigin, journal⟩ =
        .ok (boundNumber name value)
          ⟨(state.scope.define name (boundNumber name value)).fixClosures, state.nextOrigin,
            journal⟩ := by
    rw [eval_succ]
    exact lookup_of_eq_some hbound
  exact within_of_ok hbody state.scope

/-- **Numbers that a `let` binds.** For a name of a symbol and a numeral, the text
`(let ((name be numeral)) name)`, in every layout, evaluates to the bare number as it is written,
unless the name is that of a core form that wraps numbers; then it evaluates to the entity of the
number. Nothing but the journal changes.

In general, of the bindings and parameters of three items that the name heads, those and only those
are left alone by the rules for normal forms where the name does not wrap or the last item is no
number. -/
theorem let_binds_number [Stack] (hname : IsSymbolName name.toList)
    (hnumeral : IsNumeral numeral value) (hlimit : 0 < limit) (hstate : state.scope.IsDistinct) :
    tokenize (bindingText name numeral) = .ok (bindingTokens name numeral) ∧
    (∀ text, tokenize text = .ok (bindingTokens name numeral) → ∃ journal,
      evaluateText limit text state =
        .ok (if name ∈ wrappingNames then value.asEntity else value)
          { state with journal := journal }) ∧
    ∀ word item, normalForm [.symbol name, .symbol word, item] =
      [.symbol name, .symbol word, item] ↔ (name ∈ wrappingNames → item.isNumber = false) :=
  ⟨tokenize_bindingText hname hnumeral,
    fun _ htokens => evaluateText_bindingTokens hname hnumeral htokens hlimit hstate,
    normalForm_triple_eq_self_iff name⟩

end Evaluating

/-- The name `entity` does not wrap: `(let ((entity be 7)) entity)` gives the bare number, at the
least depth there is. -/
theorem let_binds_number_entity : IsSymbolName "entity".toList ∧ IsNumeral "7" (.int 7) ∧
    boundState.scope.IsDistinct ∧
    ∃ journal, evaluateText 1 "(let ((entity be 7)) entity)" boundState =
      .ok (.int 7) { boundState with journal := journal } := by
  have hname : IsSymbolName "entity".toList := isSymbolName_of_isPlainName (by decide +kernel)
  have hnumeral : IsNumeral "7" (.int 7) := .whole (by decide +kernel)
  have hstate : boundState.scope.IsDistinct := ⟨by decide, by decide⟩
  have htext : bindingText "entity" "7" = "(let ((entity be 7)) entity)" := by decide +kernel
  obtain ⟨htokens, heval, -⟩ := let_binds_number hname hnumeral Nat.one_pos hstate
  rw [htext] at htokens
  exact ⟨hname, hnumeral, hstate, heval _ htokens⟩

/-- **The name of a core form makes a difference:** `(let ((add be 5)) add)` gives an entity. -/
theorem let_of_add_binds_entity : IsSymbolName "add".toList ∧ IsNumeral "5" (.int 5) ∧
    (∃ after, evaluateText 200 "(let ((add be 5)) add)" (.initial .empty) =
      .ok (.entity (integerEntity 5)) after) ∧
    (¬∃ after, evaluateText 200 "(let ((add be 5)) add)" (.initial .empty) = .ok (.int 5) after) ∧
    normalForm [.symbol "add", .symbol "be", .int 5] ≠ [.symbol "add", .symbol "be", .int 5] := by
  have hname : IsSymbolName "add".toList := isSymbolName_of_isPlainName (by decide +kernel)
  have hnumeral : IsNumeral "5" (.int 5) := .whole (by decide +kernel)
  have hstate : (RunState.initial .empty).scope.IsDistinct := Scope.isDistinct_empty
  have htext : bindingText "add" "5" = "(let ((add be 5)) add)" := by decide +kernel
  have htokens := tokenize_bindingText hname hnumeral
  rw [htext] at htokens
  have heval : ∃ journal, evaluateText 200 "(let ((add be 5)) add)" (.initial .empty) =
      .ok (.entity (integerEntity 5)) { RunState.initial .empty with journal := journal } :=
    evaluateText_bindingTokens hname hnumeral htokens (by decide) hstate
  obtain ⟨journal, hentity⟩ := heval
  refine ⟨hname, hnumeral, ⟨_, hentity⟩, ?_, by rintro ⟨⟩⟩
  rintro ⟨after, hint⟩
  rw [hentity] at hint
  cases hint

end EntityLisp
