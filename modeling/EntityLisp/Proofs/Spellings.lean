import EntityLisp.Proofs.Calculation

/-!
# The spellings of an entity

An entity can be written with its type at the head, `(Noun "dog" :size 3)`, as an `entity` form,
`(entity Noun "dog" :size 3)`, and with its attributes in parentheses,
`(entity Noun "dog" (map :size 3))`. The reader folds the attributes of the second spelling, and
the evaluator turns the first into what the reader makes of the second.

* `eval_sugared`: the first two evaluate alike, whatever follows the value.
* `normal_mapped`: the last two are read as the same form.
* `entity_spellings_agree`: **all spellings have the same outcome and the same effect.**
-/

namespace EntityLisp

open Node

/-- **The ways to write an entity** of a type with a value and attributes. -/
inductive EntitySpelling where
  /-- The type is the head. -/
  | sugared
  /-- The head is `entity`, and the attributes stand behind the value. -/
  | plain
  /-- The head is `entity`, and the attributes are a `map` form. -/
  | mapped
  deriving DecidableEq

namespace EntitySpelling

/-- The form that is written, before any rule is applied to it. -/
def tree (tag : TypeTag) (value : Node) (trailing : List Node) : EntitySpelling → Node
  | .sugared => .form (.symbol tag.name :: value :: trailing)
  | .plain => .form (.symbol CoreForm.entity.name :: .symbol tag.name :: value :: trailing)
  | .mapped =>
    .form [.symbol CoreForm.entity.name, .symbol tag.name, value,
      .form (.symbol mapHead :: trailing)]

/-- The tokens of the form, from those of the value and of what follows it. -/
def tokens (tag : TypeTag) (value trailing : List String) : EntitySpelling → List String
  | .sugared => "(" :: tag.name :: (value ++ trailing ++ [")"])
  | .plain => "(" :: CoreForm.entity.name :: tag.name :: (value ++ trailing ++ [")"])
  | .mapped =>
    "(" :: CoreForm.entity.name :: tag.name ::
      (value ++ "(" :: mapHead :: (trailing ++ [")"]) ++ [")"])

/-- A `map` form is only written around attributes. -/
def Suits (trailing : List Node) : EntitySpelling → Prop
  | .mapped => trailing ≠ []
  | _ => True

/-- **A text that writes an entity** in a spelling. -/
def IsText (spelling : EntitySpelling) (tag : TypeTag) (value : Node) (trailing : List Node)
    (text : String) : Prop :=
  ∃ valueTokens trailingTokens, Spells [value] valueTokens ∧ Spells trailing trailingTokens ∧
    tokenize text = .ok (spelling.tokens tag valueTokens trailingTokens)

end EntitySpelling

/-! ### Names -/

/-- The name of a type is the head of no core form. -/
theorem ofName?_typeName (tag : TypeTag) : CoreForm.ofName? tag.name = none := by
  cases tag <;> decide

theorem ofName?_mapHead : CoreForm.ofName? mapHead = none := by decide

theorem sugar?_typeName {tag : TypeTag} (hsugar : tag.isSugar = true) :
    (Node.symbol tag.name).sugar? = some (.type tag) := by
  rw [sugar?, Sugar.ofName?, TypeTag.ofName?_name]
  exact if_pos hsugar

/-- The names that the spellings are headed by. -/
def IsSpellingName (name : String) : Prop :=
  name = CoreForm.entity.name ∨ name = mapHead ∨ ∃ tag : TypeTag, name = tag.name

/-- A name in a spelling is an atom. -/
theorem Spells.spellingName {name : String} (hname : IsSpellingName name) {trees : List Node}
    {tokens : List String} (others : Spells trees tokens) :
    Spells (.symbol name :: trees) (name :: tokens) := by
  have hatom : name ≠ "(" ∧ name ≠ ")" ∧ readAtom name = .ok (.symbol name) := by
    rcases hname with rfl | rfl | ⟨tag, rfl⟩
    · exact ⟨by decide, by decide, rfl⟩
    · exact ⟨by decide, by decide, rfl⟩
    · cases tag <;> exact ⟨by decide, by decide, rfl⟩
  exact .atom hatom.1 hatom.2.1 hatom.2.2 others

/-! ### Reading the spellings -/

/-- The tokens of a spelling are a group that spells its form. -/
theorem EntitySpelling.spellsForm (spelling : EntitySpelling) (tag : TypeTag) {value : Node}
    {trailing : List Node} {valueTokens trailingTokens : List String}
    (hvalue : Spells [value] valueTokens) (htrailing : Spells trailing trailingTokens) :
    SpellsForm (spelling.tree tag value trailing)
      (spelling.tokens tag valueTokens trailingTokens) := by
  have htag : IsSpellingName tag.name := .inr (.inr ⟨tag, rfl⟩)
  have hentity : IsSpellingName CoreForm.entity.name := .inl rfl
  have hmap : Spells [.form (.symbol mapHead :: trailing)]
      ("(" :: mapHead :: (trailingTokens ++ [")"])) :=
    .form (.spellingName (.inr (.inl rfl)) htrailing) .nil
  cases spelling with
  | sugared => exact .intro (.spellingName htag (hvalue.append htrailing))
  | plain => exact .intro (.spellingName hentity (.spellingName htag (hvalue.append htrailing)))
  | mapped => exact .intro (.spellingName hentity (.spellingName htag (hvalue.append hmap)))

/-- **A text that writes an entity is read as the normal form of what it writes.** -/
theorem EntitySpelling.IsText.readProgram_eq [Stack] {spelling : EntitySpelling} {tag : TypeTag}
    {value : Node} {trailing : List Node} {text : String}
    (h : spelling.IsText tag value trailing text)
    (hheight : (spelling.tree tag value trailing).height ≤ nestingLimit) :
    readProgram text = .ok [(spelling.tree tag value trailing).normal] := by
  obtain ⟨valueTokens, trailingTokens, hvalue, htrailing, htokens⟩ := h
  exact readProgram_singleton htokens
    ((spelling.spellsForm tag hvalue htrailing).readForm_eq hheight)

/-! ### The first two spellings -/

section Sugared

variable (tag : TypeTag) (value : Node) (trailing : List Node)

/-- Nothing is folded or wrapped when the type is the head. -/
theorem normal_sugared : (EntitySpelling.sugared.tree tag value trailing).normal =
    .form (.symbol tag.name :: value.normal :: trailing.map Node.normal) := by
  rw [EntitySpelling.tree, normal_form]
  exact congrArg Node.form (normalForm_of_ofName?_eq_none (ofName?_typeName tag) _)

theorem normal_plain : (EntitySpelling.plain.tree tag value trailing).normal =
    .form (.symbol CoreForm.entity.name ::
      foldAttributes (.symbol tag.name :: value.normal :: trailing.map Node.normal)) := by
  rw [EntitySpelling.tree, normal_form]
  exact congrArg Node.form (normalForm_entity _)

/-- **A form with a type at its head evaluates like the `entity` form,** whatever its arguments
are: it is turned into what the reader makes of the `entity` form. -/
theorem eval_sugared (hsugar : tag.isSugar = true) (limit levels : Nat) :
    eval limit levels (EntitySpelling.sugared.tree tag value trailing).normal =
      eval limit levels (EntitySpelling.plain.tree tag value trailing).normal := by
  cases levels with
  | zero => rfl
  | succ levels =>
    rw [normal_sugared, normal_plain, eval_succ, evalNode_form, evalNode_form,
      desugar_of_sugar?_eq_none (Node.sugar?_core .entity), desugar, sugar?_typeName hsugar]
    rfl

end Sugared

/-! ### The last two spellings -/

theorem isForm_normal (node : Node) : node.normal.isForm = node.isForm := by
  cases node <;> rfl

/-- **Attributes in parentheses are read like those without,** if these do not begin with a
form. -/
theorem normal_mapped (tag : TypeTag) (value : Node) {first : Node} (hfirst : first.isForm = false)
    (rest : List Node) :
    (EntitySpelling.mapped.tree tag value (first :: rest)).normal =
      (EntitySpelling.plain.tree tag value (first :: rest)).normal := by
  have hmap : (Node.form (.symbol mapHead :: first :: rest)).normal =
      .form (.symbol mapHead :: first.normal :: rest.map Node.normal) := by
    rw [normal_form]
    exact congrArg Node.form (normalForm_of_ofName?_eq_none ofName?_mapHead _)
  have htag : (Node.symbol tag.name).normal = .symbol tag.name := normal_of_not_form rfl
  rw [normal_plain, List.map_cons,
    foldAttributes_of_not_isForm ((isForm_normal first).trans hfirst), EntitySpelling.tree,
    normal_form, List.map_cons, normal_of_not_form rfl, normalForm_entity]
  simp only [List.map_cons, List.map_nil, hmap, htag]
  rw [foldAttributes_of_isForm rfl]

/-! ### All spellings -/

/-- Every spelling evaluates like the second. -/
theorem EntitySpelling.eval_eq_plain {tag : TypeTag} (hsugar : tag.isSugar = true) (value : Node)
    {trailing : List Node} (hfirst : ∀ first ∈ trailing.head?, first.isForm = false)
    {spelling : EntitySpelling} (hsuits : spelling.Suits trailing) (limit levels : Nat) :
    eval limit levels (spelling.tree tag value trailing).normal =
      eval limit levels (plain.tree tag value trailing).normal := by
  cases spelling with
  | sugared => exact eval_sugared tag value trailing hsugar limit levels
  | plain => rfl
  | mapped =>
    obtain ⟨first, rest, rfl⟩ := List.exists_cons_of_ne_nil hsuits
    rw [normal_mapped tag value (hfirst first rfl)]

/-- **The spellings of an entity agree.** The type is any that may be a head, the value is any
tree, and what follows it does not begin with a form. However deep evaluation is and may still go,
and in every state, what is read from one spelling has the same outcome as what is read from
another: the same value or the same error, and the same state afterwards. So two texts that write
the entity, each in a spelling of its own, run alike. -/
theorem entity_spellings_agree [Stack] {tag : TypeTag} (hsugar : tag.isSugar = true) (value : Node)
    {trailing : List Node} (hfirst : ∀ first ∈ trailing.head?, first.isForm = false)
    {spelling other : EntitySpelling} (hsuits : spelling.Suits trailing)
    (hother : other.Suits trailing) :
    (∀ limit levels state, eval limit levels (spelling.tree tag value trailing).normal state =
      eval limit levels (other.tree tag value trailing).normal state) ∧
    ∀ text text', spelling.IsText tag value trailing text → other.IsText tag value trailing text' →
      (spelling.tree tag value trailing).height ≤ nestingLimit →
      (other.tree tag value trailing).height ≤ nestingLimit →
      readProgram text = .ok [(spelling.tree tag value trailing).normal] ∧
        readProgram text' = .ok [(other.tree tag value trailing).normal] ∧
        ∀ limit state, evaluateText limit text state = evaluateText limit text' state := by
  have heval : ∀ limit levels, eval limit levels (spelling.tree tag value trailing).normal =
      eval limit levels (other.tree tag value trailing).normal := fun limit levels =>
    (EntitySpelling.eval_eq_plain hsugar value hfirst hsuits limit levels).trans
      (EntitySpelling.eval_eq_plain hsugar value hfirst hother limit levels).symm
  refine ⟨fun limit levels state => by rw [heval], fun text text' htext htext' hheight hheight' =>
    ⟨htext.readProgram_eq hheight, htext'.readProgram_eq hheight', fun limit state => ?_⟩⟩
  rw [evaluateText_of_forms (htext.readProgram_eq hheight),
    evaluateText_of_forms (htext'.readProgram_eq hheight'), evaluateForms, evaluateForms,
    evalSequence, evalSequence, evaluate, evaluate, heval]

/-- The value `(add 1 2)`. -/
def sumValue : Node := .form [.symbol "add", .int 1, .int 2]

/-- The attributes `:of 3 :of x`. -/
def repeatedKey : List Node := [.keyword "of", .int 3, .keyword "of", .symbol "x"]

/-- An entity whose value is a form that the reader changes, and whose attributes have a key
twice. -/
theorem entity_spellings_agree_sum :
    TypeTag.integer.isSugar = true ∧ (∀ first ∈ repeatedKey.head?, first.isForm = false) ∧
      EntitySpelling.sugared.Suits repeatedKey ∧ EntitySpelling.mapped.Suits repeatedKey ∧
      EntitySpelling.sugared.IsText .integer sumValue repeatedKey
        "(Integer (add 1 2) :of 3 :of x)" ∧
      EntitySpelling.mapped.IsText .integer sumValue repeatedKey
        "(entity Integer (add 1 2) (map :of 3 :of x))" ∧
      ∀ limit state, evaluateText limit "(Integer (add 1 2) :of 3 :of x)" state =
        evaluateText limit "(entity Integer (add 1 2) (map :of 3 :of x))" state := by
  have hvalue : Spells [sumValue] ["(", "add", "1", "2", ")"] :=
    .form (.atom (by decide) (by decide) rfl (.atom (by decide) (by decide) rfl
      (.atom (by decide) (by decide) rfl .nil))) .nil
  have htrailing : Spells repeatedKey [":of", "3", ":of", "x"] :=
    .atom (by decide) (by decide) rfl (.atom (by decide) (by decide) rfl
      (.atom (by decide) (by decide) rfl (.atom (by decide) (by decide) rfl .nil)))
  have htext : EntitySpelling.sugared.IsText .integer sumValue repeatedKey
      "(Integer (add 1 2) :of 3 :of x)" := ⟨_, _, hvalue, htrailing, by decide +kernel⟩
  have htext' : EntitySpelling.mapped.IsText .integer sumValue repeatedKey
      "(entity Integer (add 1 2) (map :of 3 :of x))" :=
    ⟨_, _, hvalue, htrailing, by decide +kernel⟩
  have hfirst : ∀ first ∈ repeatedKey.head?, first.isForm = false := by
    rintro _ ⟨⟩
    rfl
  have hsugared : EntitySpelling.sugared.Suits repeatedKey := trivial
  have hmapped : EntitySpelling.mapped.Suits repeatedKey := List.cons_ne_nil _ _
  refine ⟨rfl, hfirst, hsugared, hmapped, htext, htext', ?_⟩
  exact ((entity_spellings_agree rfl sumValue hfirst hsugared hmapped).2 _ _ htext htext'
    (by decide) (by decide)).2.2

end EntityLisp
