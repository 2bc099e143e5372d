import EntityLisp.Proofs.ReadForms

/-!
# The tokens of a tree

`Node.tokens` lists the tokens that a tree is written with: a parenthesis for each end of a form,
and the program text of each atom.

* `exists_source_tokenize`: a tree of atoms that have program texts has one itself if it nests no
  deeper than there is room, and the text is cut into the tokens of the tree; `sourceIn?_of_lt` says
  that writing fails if it does.
* `readItems_tokens`: reading these tokens inside a form goes on with the tree as its next item,
  each form of it in normal form, if it nests no deeper than there is room;
  `readItems_tokens_of_lt` says that reading fails if it does.

An infinity is written as the name of a symbol, so it does not come back as what it was;
`Node.reread` is the tree with the symbol in its place.
-/

namespace EntityLisp

namespace Node

/-! ### Tokens and what they stand for -/

mutual

/-- **The tokens of a tree.** -/
def tokens : Node → List String
  | .form items => "(" :: (itemTokens items ++ [")"])
  | node => node.atomText?.toList

/-- The tokens of the items of a form. -/
def itemTokens : List Node → List String
  | [] => []
  | item :: rest => item.tokens ++ itemTokens rest

end

/-- An atom with a program text: one that can be read, or an infinity. -/
def IsWritable (atom : Node) : Prop :=
  atom.IsReadable ∨ ∃ negative, atom = .float (.infinite negative)

/-- What the program text of an atom reads as. -/
def rereadAtom : Node → Node
  | .float (.infinite negative) => .symbol (FloatStyle.source.render (.infinite negative))
  | node => node

mutual

/-- **What the program text of a tree writes:** the tree with symbols for infinities. -/
def reread : Node → Node
  | .form items => .form (rereadItems items)
  | node => node.rereadAtom

/-- What the program texts of items write. -/
def rereadItems : List Node → List Node
  | [] => []
  | item :: rest => item.reread :: rereadItems rest

end

theorem rereadItems_eq_map (items : List Node) : rereadItems items = items.map reread := by
  induction items with
  | nil => rfl
  | cons item rest ih => rw [rereadItems, ih, List.map_cons]

theorem reread_form (items : List Node) : (Node.form items).reread = .form (items.map reread) := by
  rw [reread, rereadItems_eq_map]

theorem reread_of_not_form {node : Node} (h : node.isForm = false) :
    node.reread = node.rereadAtom := by
  cases node with
  | form items => cases h
  | _ => rfl

theorem IsReadable.rereadAtom_eq {atom : Node} (h : atom.IsReadable) : atom.rereadAtom = atom := by
  cases atom with
  | float x =>
    cases x with
    | infinite negative => exact absurd h id
    | _ => rfl
  | _ => rfl

theorem reread_eq_self {node : Node} (h : node.Leaves IsReadable) : node.reread = node := by
  induction h with
  | leaf hleaf hreadable => rw [reread_of_not_form hleaf, hreadable.rereadAtom_eq]
  | form _ ih => rw [reread_form, List.map_congr_left ih, List.map_id']

/-- The text of an atom is a word, and reads as what the text writes. -/
theorem IsWritable.exists_atomText {atom : Node} (h : atom.IsWritable) :
    ∃ text, atom.atomText? = some text ∧ text.toList ≠ [] ∧ isWordFrom false text.toList = true ∧
      readAtom text = .ok atom.rereadAtom := by
  rcases h with h | ⟨negative, rfl⟩
  · rw [h.rereadAtom_eq]
    exact h.exists_atomText
  · have hname := isSymbolName_infinite negative
    exact ⟨_, rfl, hname.nonempty, isWordFrom_of_bare hname.bare, readAtom_of_isSymbolName hname⟩

theorem tokens_of_atomText {atom : Node} {text : String} (hleaf : atom.isForm = false)
    (h : atom.atomText? = some text) : atom.tokens = [text] := by
  have htokens : atom.tokens = atom.atomText?.toList := by
    cases atom with
    | form items => cases hleaf
    | _ => rfl
  rw [htokens, h]
  rfl

/-- An atom is written whether there is room for forms or not. -/
theorem sourceIn?_of_atomText {atom : Node} {text : String} (hleaf : atom.isForm = false)
    (h : atom.atomText? = some text) (room : Nat) : atom.sourceIn? room = .ok text := by
  cases atom with
  | form items => cases hleaf
  | _ => cases room <;> simp only [sourceIn?, h]

end Node

/-! ### Cutting the text of a tree -/

/-- **A text that is cut into the given tokens** wherever it stands in front of a separator or of
the end. -/
def IsCutInto (text : List Char) (tokens : List String) : Prop :=
  ∀ rest, (∀ c ∈ rest.head?, isSeparator c = true) →
    tokensFrom .plain [] (text ++ rest) = (tokensFrom .plain [] rest).map (tokens ++ ·)

theorem tokensFrom_cons_paren {c : Char} (h : c = '(' ∨ c = ')') (rest : List Char) :
    tokensFrom .plain [] (c :: rest) = (tokensFrom .plain [] rest).map (c.toString :: ·) := by
  rw [tokensFrom_cons_of_separator (by rcases h with rfl | rfl <;> decide), modeBehind,
    if_neg (by rcases h with rfl | rfl <;> decide), ownToken, if_pos h]
  rfl

theorem tokensFrom_cons_space (rest : List Char) :
    tokensFrom .plain [] (' ' :: rest) = tokensFrom .plain [] rest := by
  rw [tokensFrom_cons_of_separator (by decide), modeBehind, if_neg (by decide)]
  cases tokensFrom .plain [] rest <;> rfl

/-- A word is cut into itself. -/
theorem isCutInto_word {word : List Char} (hne : word ≠ []) (hword : isWordFrom false word = true) :
    IsCutInto word [String.ofList word] := by
  intro rest hrest
  have htaken : tokensFrom .plain [] (word ++ rest) = tokensFrom .plain word.reverse rest := by
    have happend := tokensFrom_word_append hword [] rest
    rwa [List.append_nil] at happend
  rw [htaken]
  cases rest with
  | nil =>
    show Except.ok (flushToken word.reverse []) = Except.ok _
    rw [flushToken_reverse hne]
    rfl
  | cons c rest =>
    have hc := hrest c rfl
    rw [tokensFrom_cons_of_separator hc, tokensFrom_cons_of_separator hc]
    cases tokensFrom (modeBehind c) [] rest with
    | error fault => rfl
    | ok tail =>
      show Except.ok (flushToken word.reverse (ownToken c ++ tail)) = Except.ok _
      rw [flushToken_reverse hne]
      rfl

/-- Texts with spaces between them are cut one after the other. -/
theorem isCutInto_intercalate {texts : List String} {tokens : List (List String)}
    (h : List.Forall₂ (fun text tokens => IsCutInto text.toList tokens) texts tokens) :
    IsCutInto (" ".intercalate texts).toList tokens.flatten := by
  induction h with
  | nil =>
    intro rest _
    have hempty : (" ".intercalate []).toList = [] := by simp
    rw [hempty, List.nil_append]
    cases tokensFrom .plain [] rest <;> rfl
  | @cons text own texts others hfirst hothers ih =>
    intro rest hrest
    cases hothers with
    | nil =>
      have hone : (" ".intercalate [text]).toList = text.toList := by simp
      rw [hone, hfirst rest hrest, List.flatten_singleton]
    | @cons next nextOwn texts others hnext hothers =>
      -- the space behind the first text is the separator that it needs
      have hmore : (" ".intercalate (text :: next :: texts)).toList ++ rest =
          text.toList ++ (' ' :: ((" ".intercalate (next :: texts)).toList ++ rest)) := by
        simp [List.intercalate]
      rw [hmore, hfirst _ (by simp; decide), tokensFrom_cons_space, ih rest hrest]
      cases tokensFrom .plain [] rest with
      | error fault => rfl
      | ok tail => simp [Except.map]

namespace Node

theorem itemTokens_eq_flatten (items : List Node) :
    itemTokens items = (items.map tokens).flatten := by
  induction items with
  | nil => rfl
  | cons item rest ih => rw [itemTokens, ih, List.map_cons, List.flatten_cons]

theorem exists_sourceItems {items : List Node} {room : Nat}
    (h : ∀ item ∈ items, ∃ text, item.sourceIn? room = .ok text ∧
      IsCutInto text.toList item.tokens) :
    ∃ texts, sourceItemsIn? room items = .ok texts ∧
      List.Forall₂ (fun text tokens => IsCutInto text.toList tokens) texts (items.map tokens) := by
  induction items with
  | nil => exact ⟨[], rfl, List.Forall₂.nil⟩
  | cons item rest ih =>
    obtain ⟨text, htext, hcut⟩ := h item List.mem_cons_self
    obtain ⟨texts, htexts, hcuts⟩ := ih fun other hother => h other (List.mem_cons_of_mem _ hother)
    refine ⟨text :: texts, ?_, List.Forall₂.cons hcut hcuts⟩
    rw [sourceItemsIn?, htext, htexts]
    rfl

/-- A tree of atoms with program texts has a text, which is cut into the tokens of the tree. -/
theorem exists_source_isCutInto {node : Node} (h : node.Leaves IsWritable) {room : Nat}
    (hroom : node.height ≤ room) :
    ∃ text, node.sourceIn? room = .ok text ∧ IsCutInto text.toList node.tokens := by
  induction h generalizing room with
  | leaf hleaf hwritable =>
    obtain ⟨text, htext, hne, hword, -⟩ := hwritable.exists_atomText
    refine ⟨text, sourceIn?_of_atomText hleaf htext room, ?_⟩
    have hcut := isCutInto_word hne hword
    rwa [String.ofList_toList, ← tokens_of_atomText hleaf htext] at hcut
  | @form items _ ih =>
    rw [height_form] at hroom
    obtain ⟨room, rfl⟩ : ∃ n, room = n + 1 := ⟨room - 1, by omega⟩
    have hitems : ∀ item ∈ items, item.height ≤ room :=
      itemsHeight_le_iff.mp (Nat.le_of_succ_le_succ hroom)
    obtain ⟨texts, htexts, hcuts⟩ :=
      exists_sourceItems fun item hmem => ih item hmem (hitems item hmem)
    refine ⟨"(" ++ " ".intercalate texts ++ ")", by rw [sourceIn?, htexts]; rfl,
      fun rest hrest => ?_⟩
    have hchars : ("(" ++ " ".intercalate texts ++ ")").toList ++ rest =
        '(' :: ((" ".intercalate texts).toList ++ ')' :: rest) := by simp
    -- the last item is followed by the parenthesis that closes the form
    have hclose : ∀ c ∈ (')' :: rest).head?, isSeparator c = true := by
      rintro c hc
      obtain rfl : ')' = c := by simpa using hc
      decide
    rw [hchars, tokensFrom_cons_paren (Or.inl rfl), isCutInto_intercalate hcuts _ hclose,
      tokensFrom_cons_paren (Or.inr rfl), tokens, itemTokens_eq_flatten]
    cases tokensFrom .plain [] rest with
    | error fault => rfl
    | ok tail => simp [Except.map]

/-- **A tree of atoms with program texts has a text,** which consists of the tokens of the tree, if
the tree nests no deeper than there is room. -/
theorem exists_source_tokenize {node : Node} (h : node.Leaves IsWritable) {room : Nat}
    (hroom : node.height ≤ room) :
    ∃ text, node.sourceIn? room = .ok text ∧ tokenize text = .ok node.tokens := by
  obtain ⟨text, htext, hcut⟩ := exists_source_isCutInto h hroom
  refine ⟨text, htext, ?_⟩
  have htokens := hcut [] (by simp)
  rw [List.append_nil] at htokens
  rw [tokenize, htokens]
  simp [tokensFrom, flushToken, Except.map]

/-- Writing fails at the first of several trees that nests too deep. -/
theorem sourceItemsIn?_of_lt {items : List Node} {room : Nat}
    (hwritable : ∀ item ∈ items, item.Leaves IsWritable)
    (h : ∀ item ∈ items, room < item.height → item.sourceIn? room = .error .nestedTooDeeply)
    (hdeep : room < itemsHeight items) :
    sourceItemsIn? room items = .error .nestedTooDeeply := by
  induction items with
  | nil => exact absurd hdeep (Nat.not_lt_zero room)
  | cons item rest ih =>
    rw [sourceItemsIn?]
    by_cases hfirst : room < item.height
    · rw [h item List.mem_cons_self hfirst]
      rfl
    · -- a tree that does not nest too deep is written, and the fault is behind it
      obtain ⟨text, htext, -⟩ :=
        exists_source_tokenize (hwritable item List.mem_cons_self) (Nat.le_of_not_lt hfirst)
      have hrest : room < itemsHeight rest := by
        rw [itemsHeight] at hdeep
        omega
      rw [htext, ih (fun other hother => hwritable other (List.mem_cons_of_mem _ hother))
        (fun other hother => h other (List.mem_cons_of_mem _ hother)) hrest]
      rfl

/-- **A tree that nests deeper than there is room is not written.** -/
theorem sourceIn?_of_lt {node : Node} (h : node.Leaves IsWritable) {room : Nat}
    (hroom : room < node.height) : node.sourceIn? room = .error .nestedTooDeeply := by
  induction h generalizing room with
  | leaf hleaf _ =>
    rw [height_of_not_form hleaf] at hroom
    exact absurd hroom (Nat.not_lt_zero room)
  | @form items hall ih =>
    cases room with
    | zero => rfl
    | succ room =>
      rw [height_form] at hroom
      rw [sourceIn?, sourceItemsIn?_of_lt hall (fun item hmem hlt => ih item hmem hlt)
        (Nat.lt_of_succ_lt_succ hroom)]
      rfl

/-! ### Reading the tokens of a tree -/

/-- The token of an atom is no parenthesis. -/
theorem IsWritable.token_ne_paren {text : String} (h : isWordFrom false text.toList = true) :
    text ≠ ")" ∧ text ≠ "(" := by
  constructor
  · rintro rfl
    exact absurd h (by decide)
  · rintro rfl
    exact absurd h (by decide)

/-- The token of an atom is read as the next item. -/
theorem readItems_tokens_of_not_form {atom : Node} (hleaf : atom.isForm = false)
    (h : atom.IsWritable) (room : Nat) (items : List Node) (outer : List (List Node))
    (rest : List String) : readItems room items outer (atom.tokens ++ rest) =
      readItems room (atom.reread.normal :: items) outer rest := by
  obtain ⟨text, htext, -, hword, hread⟩ := h.exists_atomText
  obtain ⟨hclose, hopen⟩ := IsWritable.token_ne_paren hword
  have hreread : atom.reread.normal = atom.rereadAtom := by
    rw [reread_of_not_form hleaf]
    refine normal_of_not_form ?_
    rcases h with h | ⟨negative, rfl⟩
    · rwa [h.rereadAtom_eq]
    · rfl
  rw [tokens_of_atomText hleaf htext, List.singleton_append, readItems_atom hclose hopen hread,
    hreread]

/-- Reading the tokens of items one after the other. -/
theorem readItems_itemTokens {subtrees : List Node} {room : Nat}
    (h : ∀ subtree ∈ subtrees, ∀ items outer rest,
      readItems room items outer (subtree.tokens ++ rest) =
        readItems room (subtree.reread.normal :: items) outer rest)
    (items : List Node) (outer : List (List Node)) (rest : List String) :
    readItems room items outer (itemTokens subtrees ++ rest) =
      readItems room ((subtrees.map fun subtree => subtree.reread.normal).reverse ++ items) outer
        rest := by
  induction subtrees generalizing items with
  | nil => rfl
  | cons subtree others ih =>
    rw [itemTokens, List.append_assoc, h subtree List.mem_cons_self,
      ih fun other hother => h other (List.mem_cons_of_mem _ hother), List.map_cons,
      List.reverse_cons, List.append_assoc]
    rfl

/-- **The tokens of a tree are read as the tree,** each form in normal form, if the tree nests no
deeper than there is room. -/
theorem readItems_tokens {node : Node} (h : node.Leaves IsWritable) {room : Nat}
    (hroom : node.height ≤ room) (items : List Node) (outer : List (List Node))
    (rest : List String) : readItems room items outer (node.tokens ++ rest) =
      readItems room (node.reread.normal :: items) outer rest := by
  induction h generalizing room items outer rest with
  | leaf hleaf hwritable => exact readItems_tokens_of_not_form hleaf hwritable room items outer rest
  | @form subtrees _ ih =>
    rw [height_form] at hroom
    -- the form takes up one level of the room, and gives it back when it is closed
    obtain ⟨room, rfl⟩ : ∃ n, room = n + 1 := ⟨room - 1, by omega⟩
    have hitems : ∀ subtree ∈ subtrees, subtree.height ≤ room :=
      itemsHeight_le_iff.mp (Nat.le_of_succ_le_succ hroom)
    have hinner := readItems_itemTokens (fun subtree hmem =>
      ih subtree hmem (hitems subtree hmem)) [] (items :: outer) (")" :: rest)
    rw [tokens, List.cons_append, List.append_assoc, List.singleton_append, readItems_open_succ,
      hinner, readItems_close_cons, List.append_nil, List.reverse_reverse, reread_form, normal_form,
      List.map_map]
    rfl

/-- Reading fails at the first of several trees that nests too deep. -/
theorem readItems_itemTokens_of_lt {subtrees : List Node} {room : Nat}
    (hwritable : ∀ subtree ∈ subtrees, subtree.Leaves IsWritable)
    (h : ∀ subtree ∈ subtrees, room < subtree.height → ∀ items outer rest,
      (readItems room items outer (subtree.tokens ++ rest)).1 = .error .nestedTooDeeply)
    (hdeep : room < itemsHeight subtrees) (items : List Node) (outer : List (List Node))
    (rest : List String) :
    (readItems room items outer (itemTokens subtrees ++ rest)).1 = .error .nestedTooDeeply := by
  induction subtrees generalizing items with
  | nil => exact absurd hdeep (Nat.not_lt_zero room)
  | cons subtree others ih =>
    rw [itemTokens, List.append_assoc]
    -- a tree that does not nest too deep is read, and the fault is behind it
    by_cases hfirst : room < subtree.height
    · exact h subtree List.mem_cons_self hfirst items outer _
    · rw [readItems_tokens (hwritable subtree List.mem_cons_self) (Nat.le_of_not_lt hfirst)]
      refine ih (fun other hother => hwritable other (List.mem_cons_of_mem _ hother))
        (fun other hother => h other (List.mem_cons_of_mem _ hother)) ?_ _
      rw [itemsHeight] at hdeep
      omega

/-- **A tree that nests deeper than there is room is not read.** -/
theorem readItems_tokens_of_lt {node : Node} (h : node.Leaves IsWritable) {room : Nat}
    (hroom : room < node.height) (items : List Node) (outer : List (List Node))
    (rest : List String) :
    (readItems room items outer (node.tokens ++ rest)).1 = .error .nestedTooDeeply := by
  induction h generalizing room items outer rest with
  | leaf hleaf _ =>
    rw [height_of_not_form hleaf] at hroom
    exact absurd hroom (Nat.not_lt_zero room)
  | @form subtrees hall ih =>
    rw [tokens, List.cons_append]
    cases room with
    | zero => rw [readItems_open_zero]
    | succ room =>
      rw [height_form] at hroom
      rw [readItems_open_succ, List.append_assoc]
      exact readItems_itemTokens_of_lt hall (fun subtree hmem hlt => ih subtree hmem hlt)
        (Nat.lt_of_succ_lt_succ hroom) [] _ _

/-! ### Reading the text of a form -/

/-- **The tokens of a form are read as the form** in normal form, and none is left. -/
theorem readForm_tokens [Stack] {items : List Node} (h : (Node.form items).Leaves IsWritable)
    (hheight : (Node.form items).height ≤ nestingLimit) :
    readForm (Node.form items).tokens = (.ok (Node.form items).reread.normal, []) := by
  have hitems := leaves_form_iff.mp h
  have hroom : ∀ item ∈ items, item.height ≤ nestingLimit - 1 := by
    rw [height_form] at hheight
    exact itemsHeight_le_iff.mp (Nat.le_sub_of_add_le hheight)
  have hinner := readItems_itemTokens (fun item hmem =>
    readItems_tokens (hitems item hmem) (hroom item hmem)) [] [] [")"]
  rw [tokens, readForm, if_pos rfl, hinner, readItems_close_nil, List.append_nil,
    List.reverse_reverse, reread_form, normal_form, List.map_map]
  rfl

/-- **A form that nests too deep is not read** from its tokens. -/
theorem readForm_tokens_of_lt [Stack] {items : List Node} (h : (Node.form items).Leaves IsWritable)
    (hheight : nestingLimit < (Node.form items).height) :
    (readForm (Node.form items).tokens).1 = .error .nestedTooDeeply := by
  have hitems := leaves_form_iff.mp h
  have hdeep : nestingLimit - 1 < itemsHeight items := by
    rw [height_form] at hheight
    have hpos : 0 < nestingLimit := Stack.nestingLimit_pos
    omega
  rw [tokens, readForm, if_pos rfl]
  exact readItems_itemTokens_of_lt hitems
    (fun item hmem hlt => readItems_tokens_of_lt (hitems item hmem) hlt) hdeep [] [] [")"]

end Node

end EntityLisp
