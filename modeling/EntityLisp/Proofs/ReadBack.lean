import EntityLisp.Proofs.SourceTokens
import EntityLisp.Session

/-!
# Reading program text back

* `readForm_source`: a form whose leaves have program texts of their own is written if it nests
  within the limit of the writer, and is then read back from its text, each form of it in normal
  form. The reader goes deeper than the writer (`readForm_tokens_deepForm`).
* `readsBack_readProgram`: a form that is read from a program text is written if it nests within
  that limit, and then reads back exactly if it holds no infinity; and the forms of a program hold
  no infinity exactly if no numeral of it reaches `Binary64.overflow`.
-/

namespace EntityLisp

open Node Decimal

/-! ### A form and its text -/

/-- **A form reads back** from its program text, each form of it in normal form, if it can be
written. A form that nests too deep for that has no text. -/
theorem readForm_source [Stack] {items : List Node}
    (hleaves : (Node.form items).Leaves IsReadable) :
    ((Node.form items).height ≤ writingLimit →
      ∃ text tokens, (Node.form items).source? = .ok text ∧ tokenize text = .ok tokens ∧
        readForm tokens = (.ok (Node.form items).normal, [])) ∧
    (writingLimit < (Node.form items).height →
      (Node.form items).source? = .error .nestedTooDeeply) := by
  -- no leaf is an infinity, so what the text writes is the tree itself
  have hwritable := hleaves.mono fun _ hreadable => (Or.inl hreadable : IsWritable _)
  refine ⟨fun hheight => ?_, fun hheight => sourceIn?_of_lt hwritable hheight⟩
  obtain ⟨text, htext, htokens⟩ := exists_source_tokenize hwritable hheight
  refine ⟨text, _, htext, htokens, ?_⟩
  rw [readForm_tokens hwritable (hheight.trans Stack.writingLimit_le_nestingLimit),
    reread_eq_self hleaves]

/-- The law of one form at a nested form, whose text holds separators in quotes and whose numbers
are wrapped. -/
theorem readForm_source_nested :
    (Node.form [.symbol "add", .int (-1), .form [.symbol "x", .keyword "", .str "a (b; c"]]).Leaves
      IsReadable ∧
    ∃ text tokens,
      (Node.form [.symbol "add", .int (-1),
        .form [.symbol "x", .keyword "", .str "a (b; c"]]).source? = .ok text ∧
      tokenize text = .ok tokens ∧
      readForm tokens = (.ok (.form [.symbol "add",
        .form [.symbol "entity", .symbol "Integer", .int (-1)],
        .form [.symbol "x", .keyword "", .str "a (b; c"]]), []) := by
  have hadd : IsSymbolName "add".toList := isSymbolName_of_isPlainName (by decide)
  have hx : IsSymbolName "x".toList := isSymbolName_of_isPlainName (by decide)
  have hleaves : (Node.form [.symbol "add", .int (-1),
      .form [.symbol "x", .keyword "", .str "a (b; c"]]).Leaves IsReadable := by
    refine Leaves.form fun item hitem => ?_
    simp only [List.mem_cons, List.not_mem_nil, or_false] at hitem
    rcases hitem with rfl | rfl | rfl
    · exact Leaves.leaf rfl hadd
    · exact Leaves.leaf rfl (show (-1 : Int).natAbs < 10 ^ digitLimit by decide +kernel)
    · refine Leaves.form fun item hitem => ?_
      simp only [List.mem_cons, List.not_mem_nil, or_false] at hitem
      rcases hitem with rfl | rfl | rfl
      · exact Leaves.leaf rfl hx
      · exact Leaves.leaf rfl (show ∀ c ∈ "".toList, _ by simp)
      · exact Leaves.leaf rfl (show '"' ∉ "a (b; c".toList by decide)
  exact ⟨hleaves, (readForm_source hleaves).1 (by decide)⟩

/-- Empty parentheses inside so many others. -/
def nestedForm : Nat → Node
  | 0 => .form []
  | depth + 1 => .form [nestedForm depth]

theorem height_nestedForm (depth : Nat) : (nestedForm depth).height = depth + 1 := by
  induction depth with
  | zero => rfl
  | succ depth ih => rw [nestedForm, height_form, itemsHeight, itemsHeight, ih, Nat.max_zero]

/-- Such a form has no leaves. -/
theorem leaves_nestedForm (P : Node → Prop) (depth : Nat) : (nestedForm depth).Leaves P := by
  induction depth with
  | zero => exact Leaves.form fun item hitem => absurd hitem List.not_mem_nil
  | succ depth ih => exact Leaves.form fun item hitem => List.mem_singleton.mp hitem ▸ ih

/-- It is read from its tokens if the reader goes so deep. -/
theorem readForm_tokens_nestedForm [Stack] {depth : Nat} (h : depth < nestingLimit) :
    readForm (nestedForm depth).tokens = (.ok (nestedForm depth).normal, []) := by
  have hreadable := leaves_nestedForm IsReadable depth
  have hwritable := leaves_nestedForm IsWritable depth
  have hheight : (nestedForm depth).height ≤ nestingLimit := by
    rw [height_nestedForm]
    exact h
  obtain ⟨items, hitems⟩ : ∃ items, nestedForm depth = .form items := by
    cases depth <;> exact ⟨_, rfl⟩
  rw [hitems] at hreadable hwritable hheight ⊢
  rw [readForm_tokens hwritable hheight, reread_eq_self hreadable]

/-- **What is read need not be written:** six hundred pairs of parentheses, one inside the other,
are read as a form whose leaves have program texts, and writing it fails. -/
theorem readForm_tokens_deepForm :
    (nestedForm 599).Leaves IsReadable ∧
      readForm (nestedForm 599).tokens = (.ok (nestedForm 599).normal, []) ∧
        (nestedForm 599).source? = .error .nestedTooDeeply := by
  refine ⟨leaves_nestedForm _ 599, readForm_tokens_nestedForm (by decide),
    sourceIn?_of_lt (leaves_nestedForm _ 599) ?_⟩
  rw [height_nestedForm]
  decide

/-! ### Equality of what is read back -/

namespace Node

theorem same_self_of_isReadable {atom : Node} (h : atom.IsReadable) : atom.same atom = true := by
  cases atom with
  | nil => rw [same]
  | bool value => simp [same, sameCount, count?, Number.sameValue]
  | int n => simp [same, sameCount, count?, Number.sameValue]
  | float x => simp [same, sameCount, count?, Number.sameValue, Binary64.sameValue_self]
  | str text => simp [same]
  | symbol name => simp [same]
  | keyword name => simp [same]
  | form items => exact absurd h id
  | entity value => exact absurd h id
  | entities values joined => exact absurd h id
  | closure value => exact absurd h id

/-- Forms compare item by item. -/
theorem sameItems_map_iff (f : Node → Node) (items : List Node) :
    sameItems (items.map f) items = true ↔ ∀ item ∈ items, (f item).same item = true := by
  induction items with
  | nil => simp [sameItems]
  | cons item rest ih => rw [List.map_cons, sameItems, Bool.and_eq_true, ih, List.forall_mem_cons]

/-- **What a text writes is the same as the tree** exactly if all atoms of the tree can be read. -/
theorem same_reread_iff {node : Node} (h : node.Leaves IsWritable) :
    node.reread.same node = true ↔ node.Leaves IsReadable := by
  induction h with
  | @leaf atom hleaf hwritable =>
    rw [leaves_iff_of_not_form hleaf, reread_of_not_form hleaf]
    rcases hwritable with hreadable | ⟨negative, rfl⟩
    · rw [hreadable.rereadAtom_eq]
      exact ⟨fun _ => hreadable, same_self_of_isReadable⟩
    · constructor
      · intro hsame
        simp [rereadAtom, same] at hsame
      · exact fun hreadable => absurd hreadable id
  | @form items _ ih =>
    rw [leaves_form_iff, reread_form, same, sameItems_map_iff]
    exact forall₂_congr ih

/-! ### Normal forms of what is read back -/

theorem isForm_rereadAtom {atom : Node} (h : atom.isForm = false) :
    atom.rereadAtom.isForm = false := by
  unfold rereadAtom
  split
  · rfl
  · exact h

theorem isForm_reread (node : Node) : node.reread.isForm = node.isForm := by
  cases hform : node.isForm with
  | false => rw [reread_of_not_form hform, isForm_rereadAtom hform]
  | true =>
    cases node with
    | form items => rw [reread_form]; rfl
    | _ => cases hform

/-- A node that is not wrapped is none either with symbols for its infinities. -/
theorem wrapNumber_reread {node : Node} (h : wrapNumber node = node) :
    wrapNumber node.reread = node.reread := by
  cases node with
  | int n => cases h
  | float x => cases h
  | form items => rw [reread_form]; rfl
  | _ => rfl

theorem foldAttributes_map_reread {arguments : List Node}
    (h : foldAttributes arguments = arguments) :
    foldAttributes (arguments.map reread) = arguments.map reread := by
  rcases arguments with _ | ⟨kind, _ | ⟨value, _ | ⟨first, rest⟩⟩⟩
  · rfl
  · rfl
  · rfl
  · cases hform : first.isForm with
    | true =>
      have hreread : first.reread.isForm = true := by rw [isForm_reread, hform]
      exact foldAttributes_of_isForm hreread kind.reread value.reread (rest.map reread)
    | false =>
      -- Attributes without parentheses are folded, so the arguments were not in normal form.
      rw [foldAttributes_of_not_isForm hform] at h
      injection h with _ h
      injection h with _ h
      injection h with hfirst _
      rw [← hfirst] at hform
      cases hform

/-- No symbol that stands for an infinity is the name of a core form. -/
theorem ofName?_infinite (negative : Bool) :
    CoreForm.ofName? (FloatStyle.source.render (.infinite negative)) = none := by
  cases negative <;> decide

theorem normalForm_map_reread {items : List Node} (h : normalForm items = items) :
    normalForm (items.map reread) = items.map reread := by
  -- the head decides which rule applies, and keeps its kind unless it is an infinity
  rcases items with _ | ⟨head, rest⟩
  · rfl
  rw [List.map_cons]
  cases head with
  | symbol name =>
    show normalForm (.symbol name :: rest.map reread) = .symbol name :: rest.map reread
    cases hform : CoreForm.ofName? name with
    | none => exact normalForm_of_ofName?_eq_none hform _
    | some form =>
      obtain rfl := CoreForm.name_of_ofName? hform
      by_cases hentity : form = .entity
      · subst hentity
        rw [normalForm_entity, List.cons.injEq] at h
        rw [normalForm_entity, foldAttributes_map_reread h.2]
      · rw [normalForm_core hentity, List.cons.injEq] at h
        rw [normalForm_core hentity, List.map_map]
        have hfixed := List.map_inj_left.mp (h.2.trans (List.map_id' rest).symm)
        refine congrArg _ (List.map_congr_left fun node hnode => ?_)
        exact wrapNumber_reread (hfixed node hnode)
  | float x =>
    -- An infinity becomes a symbol, and its name heads no core form.
    cases x with
    | infinite negative => exact normalForm_of_ofName?_eq_none (ofName?_infinite negative) _
    | _ => rfl
  | form items =>
    rw [reread_form]
    rfl
  | _ => rfl

theorem IsNormal.reread {node : Node} (h : node.IsNormal) : node.reread.IsNormal := by
  induction h with
  | leaf hleaf =>
    rw [reread_of_not_form hleaf]
    exact IsNormal.leaf (isForm_rereadAtom hleaf)
  | form hfixed _ ih =>
    rw [reread_form]
    refine IsNormal.form (normalForm_map_reread hfixed) fun item hitem => ?_
    obtain ⟨original, horiginal, rfl⟩ := List.mem_map.mp hitem
    exact ih original horiginal

end Node

/-! ### Programs -/

/-- The names that normal forms put in are names of symbols. -/
theorem isReadable_normalNames : ∀ name ∈ normalNames, IsReadable (.symbol name) := by
  have hplain : normalNames.all (isPlainName ·.toList) = true := by decide
  intro name hname
  exact isSymbolName_of_isPlainName (List.all_eq_true.mp hplain name hname)

/-- The reader fails on none of its tokens, and what it reads are forms in normal form whose
leaves can be written. -/
theorem writable_of_mem_readProgram [Stack] {text : String} {forms : List Node}
    (h : readProgram text = .ok forms) {form : Node} (hmem : form ∈ forms) :
    form.isForm = true ∧ form.IsNormal ∧ form.Leaves IsWritable := by
  obtain ⟨tokens, htokens, hforms⟩ := Except.bind_eq_ok_iff.mp h
  obtain ⟨hform, hnormal⟩ := isNormal_of_mem_readForms hforms form hmem
  refine ⟨hform, hnormal, ?_⟩
  have hnames : ∀ name ∈ normalNames, IsWritable (.symbol name) := fun name hname =>
    Or.inl (isReadable_normalNames name hname)
  refine (leaves_readForms_iff hnames hforms).mpr (fun token htoken => ?_) form hmem
  intro hopen hclose atom hatom
  rcases isToken_of_tokenize htokens token htoken with rfl | rfl | ⟨hne, hword⟩
  · exact absurd rfl hopen
  · exact absurd rfl hclose
  · exact isReadable_or_infinite_of_readAtom hne hword hatom

/-- An atom that is no infinity. -/
def IsBounded (atom : Node) : Prop := ∀ negative, atom ≠ .float (.infinite negative)

theorem Node.leaves_isReadable_iff {node : Node} (h : node.Leaves IsWritable) :
    node.Leaves IsReadable ↔ node.Leaves IsBounded := by
  induction h with
  | leaf hleaf hwritable =>
    rw [leaves_iff_of_not_form hleaf, leaves_iff_of_not_form hleaf]
    constructor
    · rintro hreadable negative rfl
      exact hreadable
    · intro hbounded
      exact hwritable.resolve_right fun ⟨negative, heq⟩ => hbounded negative heq
  | form _ ih =>
    rw [leaves_form_iff, leaves_form_iff]
    exact forall₂_congr ih

/-- **When a form of a program reads back** from its own text. -/
theorem readsBack_iff [Stack] {form : Node} (hform : form.isForm = true)
    (hnormal : form.IsNormal) (h : form.Leaves IsWritable) (hheight : form.height ≤ writingLimit) :
    ∃ text, form.source? = .ok text ∧
      (readsBack form text = .ok true ↔ form.Leaves IsBounded) := by
  obtain ⟨text, htext, htokens⟩ := exists_source_tokenize h hheight
  refine ⟨text, htext, ?_⟩
  obtain ⟨items, rfl⟩ : ∃ items, form = .form items := by
    cases form with
    | form items => exact ⟨items, rfl⟩
    | _ => cases hform
  have hbind : readsBack (.form items) text =
      (readForm (Node.form items).tokens).1.map (·.same (.form items)) := by
    rw [readsBack, htokens]
    rfl
  rw [hbind]
  -- what is read is the form with symbols for its infinities, already in normal form
  rw [readForm_tokens h (hheight.trans Stack.writingLimit_le_nestingLimit),
    hnormal.reread.normal_eq, ← leaves_isReadable_iff h, ← same_reread_iff h]
  simp [Except.map]

/-! ### Which numerals read as an infinity -/

/-- What reads as a floating-point number matches the pattern with a point. -/
theorem readFloat?_of_readAtom {token : String} {x : Binary64}
    (h : readAtom token = .ok (.float x)) : readFloat? token.toList = some x := by
  unfold readAtom at h
  split at h
  · cases h
  split at h
  · cases h
  split at h
  · cases h
  split at h
  · unfold readString at h
    extract_lets text at h
    split at h <;> cases h
  split at h
  · cases h
  split at h
  · cases h
  obtain ⟨-, hbare⟩ := readBare_eq_ok_iff.mp h
  unfold bareAtom at hbare
  split at hbare
  · cases hbare
  · next y _ hfloat =>
    cases hbare
    exact hfloat
  · split at hbare <;> cases hbare

/-- A numeral with a point reads as the number that it denotes. -/
theorem readAtom_of_readPositional? {token : String} {d : Decimal}
    (h : readPositional? token.toList = some d) :
    readAtom token = .ok (.float (Binary64.ofDecimal d)) := by
  obtain ⟨negative, whole, fraction, hpointed, -⟩ := readPositional?_eq_some_iff.mp h
  have hpoint : '.' ∈ token.toList := by
    rw [hpointed.2.2]
    simp
  have hnotWhole := not_isWhole_of_mem hpoint
  rw [readAtom_of_isNumeralChar (isNumeralChar_of_isPointed hpointed),
    readBare_of_not_isWhole hnotWhole]
  unfold bareAtom
  rw [readInt?_eq_none hnotWhole, readFloat?, h]
  rfl

theorem Binary64.ofDecimal_ne_infinite_iff (d : Decimal) :
    IsBounded (.float (ofDecimal d)) ↔ d.magnitude < (overflow : ℚ) := by
  rw [← not_le, ← ofDecimal_eq_infinite_iff]
  constructor
  · exact fun hbounded heq => hbounded d.negative (congrArg Node.float heq)
  · intro hne negative heq
    obtain ⟨num, den, -, hd, -⟩ := exists_ofDecimal_eq_ofUnits d
    rcases ofUnits_cases d.negative num den with ⟨units, hdouble, hfinite⟩ | hinfinite
    · rw [hd, hfinite] at heq
      cases heq
    · exact hne (hd.trans hinfinite)

theorem tokenSatisfies_isBounded_iff (token : String) :
    TokenSatisfies IsBounded token ↔
      ∀ d, readPositional? token.toList = some d → d.magnitude < (Binary64.overflow : ℚ) := by
  constructor
  · intro h d hd
    -- a parenthesis is no numeral
    have hne : ∀ paren : String, readPositional? paren.toList = none → token ≠ paren := by
      rintro paren hparen rfl
      rw [hparen] at hd
      cases hd
    exact (Binary64.ofDecimal_ne_infinite_iff d).mp
      (h (hne "(" (by decide)) (hne ")" (by decide)) _ (readAtom_of_readPositional? hd))
  · rintro h hopen hclose atom hatom negative rfl
    have hfloat := readFloat?_of_readAtom hatom
    obtain ⟨d, hd, heq⟩ := Option.map_eq_some_iff.mp hfloat
    have hbounded := (Binary64.ofDecimal_ne_infinite_iff d).mpr (h d hd)
    exact hbounded negative (congrArg Node.float heq)

/-- A text with one form. -/
theorem readProgram_singleton [Stack] {text : String} {tokens : List String} {form : Node}
    (htokens : tokenize text = .ok tokens) (hform : readForm tokens = (.ok form, [])) :
    readProgram text = .ok [form] := by
  have hne : tokens ≠ [] := by
    rintro rfl
    cases hform
  rw [readProgram, htokens]
  show readForms tokens = _
  rw [readForms_cons hne hform, readForms]
  rfl

/-! ### The law of the reader -/

/-- **When the forms of a program read back.** Each that can be written has a text, and reads back
from it exactly if it holds no infinity; one that nests too deep for that has none. No form of the
program holds an infinity exactly if the numerals of the program are below the threshold of
overflow. -/
theorem readsBack_readProgram [Stack] {text : String} {forms : List Node}
    (h : readProgram text = .ok forms) :
    (∀ form ∈ forms,
      (form.height ≤ writingLimit → ∃ written, form.source? = .ok written ∧
        (readsBack form written = .ok true ↔ form.Leaves IsBounded)) ∧
      (writingLimit < form.height → form.source? = .error .nestedTooDeeply)) ∧
    ((∀ form ∈ forms, form.Leaves IsBounded) ↔
      ∀ tokens, tokenize text = .ok tokens → ∀ token ∈ tokens, ∀ d,
        readPositional? token.toList = some d → d.magnitude < (Binary64.overflow : ℚ)) := by
  constructor
  · intro form hmem
    obtain ⟨hform, hnormal, hleaves⟩ := writable_of_mem_readProgram h hmem
    exact ⟨readsBack_iff hform hnormal hleaves, sourceIn?_of_lt hleaves⟩
  · obtain ⟨tokens, htokens, hforms⟩ := Except.bind_eq_ok_iff.mp h
    have hnames : ∀ name ∈ normalNames, IsBounded (.symbol name) := by
      rintro name - negative ⟨⟩
    rw [leaves_readForms_iff hnames hforms]
    simp only [tokenSatisfies_isBounded_iff]
    constructor
    · intro hall tokens' htokens'
      rw [htokens] at htokens'
      cases htokens'
      exact hall
    · exact fun hall => hall tokens htokens

/-- The law at a program with a numeral below the threshold, which reads back. -/
theorem readsBack_readProgram_add :
    readProgram "(add 1 2.5)" = .ok [.form [.symbol "add", wrapNumber (.int 1),
      wrapNumber (.float (Binary64.ofDecimal ⟨false, 25, -1⟩))]] ∧
    ∃ written, (Node.form [.symbol "add", wrapNumber (.int 1),
        wrapNumber (.float (Binary64.ofDecimal ⟨false, 25, -1⟩))]).source? = .ok written ∧
      readsBack (.form [.symbol "add", wrapNumber (.int 1),
        wrapNumber (.float (Binary64.ofDecimal ⟨false, 25, -1⟩))]) written = .ok true := by
  have htokens : tokenize "(add 1 2.5)" = .ok ["(", "add", "1", "2.5", ")"] := by decide +kernel
  have hread : readProgram "(add 1 2.5)" = .ok [.form [.symbol "add", wrapNumber (.int 1),
      wrapNumber (.float (Binary64.ofDecimal ⟨false, 25, -1⟩))]] :=
    readProgram_singleton htokens rfl
  obtain ⟨hback, hbounded⟩ := readsBack_readProgram hread
  obtain ⟨written, hwritten, hiff⟩ := (hback _ (List.mem_singleton.mpr rfl)).1 (by decide)
  refine ⟨hread, written, hwritten, hiff.mpr (hbounded.mpr ?_ _ (List.mem_singleton.mpr rfl))⟩
  intro tokens heq token htoken d hd
  rw [htokens] at heq
  cases heq
  have hnumeral : ∀ token ∈ ["(", "add", "1", "2.5", ")"], ∀ d ∈ readPositional? token.toList,
      d = ⟨false, 25, -1⟩ := by decide +kernel
  obtain rfl := hnumeral token htoken d hd
  have hlarge : (3 : ℚ) ≤ Binary64.overflow := by
    exact_mod_cast (by decide +kernel : 3 ≤ Binary64.overflow)
  refine lt_of_lt_of_le ?_ hlarge
  norm_num [magnitude]

/-- One with three hundred and nine zeros behind it, written with a point. -/
def hugeNumeral : List Char := '1' :: (List.replicate 309 '0' ++ ['.', '0'])

/-- The program text of a form that holds this numeral only. -/
def hugeText : String := String.ofList ('(' :: (hugeNumeral ++ [')']))

/-- A numeral with one place behind the point is at least the threshold if its digits are at least
ten times the threshold. -/
theorem Binary64.overflow_le_magnitude {coefficient : Nat} (h : overflow * 10 ≤ coefficient) :
    (overflow : ℚ) ≤ magnitude ⟨false, coefficient, -1⟩ := by
  have hcast : (overflow : ℚ) * 10 ≤ coefficient := by exact_mod_cast h
  show (overflow : ℚ) ≤ coefficient * 10 ^ (-1 : ℤ)
  rw [zpow_neg_one, ← div_eq_mul_inv, le_div_iff₀ (by norm_num)]
  exact hcast

theorem readAtom_hugeNumeral :
    readAtom (String.ofList hugeNumeral) = .ok (.float (.infinite false)) := by
  have hpositional : readPositional? (String.ofList hugeNumeral).toList =
      some ⟨false, 10 ^ 310, -1⟩ := by
    rw [String.toList_ofList]
    decide +kernel
  rw [readAtom_of_readPositional? hpositional, (Binary64.ofDecimal_eq_infinite_iff _).mpr
    (Binary64.overflow_le_magnitude (by decide +kernel))]

theorem readProgram_hugeText :
    readProgram hugeText = .ok [.form [.float (.infinite false)]] := by
  have hword : isWordFrom false hugeNumeral = true := by decide +kernel
  have htokens : tokenize hugeText = .ok ["(", String.ofList hugeNumeral, ")"] := by
    rw [tokenize, hugeText, String.toList_ofList, tokensFrom_cons_paren (Or.inl rfl),
      isCutInto_word (by decide) hword _ (by simp; decide), tokensFrom_cons_paren (Or.inr rfl)]
    rfl
  refine readProgram_singleton htokens ?_
  have hclose : String.ofList hugeNumeral ≠ ")" := by decide +kernel
  have hopen : String.ofList hugeNumeral ≠ "(" := by decide +kernel
  rw [readForm, if_pos rfl, readItems_atom hclose hopen readAtom_hugeNumeral, readItems_close_nil]
  rfl

/-- **A program that does not read back:** its numeral reads as an infinity, which is written as
the name of a symbol. -/
theorem not_readsBack_hugeText :
    readProgram hugeText = .ok [.form [.float (.infinite false)]] ∧
      (Node.form [.float (.infinite false)]).source? = .ok "(Infinity.0)" ∧
        readsBack (.form [.float (.infinite false)]) "(Infinity.0)" = .ok false := by
  refine ⟨readProgram_hugeText, rfl, ?_⟩
  have htokens : tokenize "(Infinity.0)" = .ok ["(", "Infinity.0", ")"] := by decide +kernel
  have hform : readForm ["(", "Infinity.0", ")"] = (.ok (.form [.symbol "Infinity.0"]), []) := by
    rfl
  rw [readsBack, htokens]
  simp only [Except.bind, hform]
  simp [Except.map, same, sameItems]

end EntityLisp
