import EntityLisp.Failure
import EntityLisp.Proofs.ReadForms

/-!
# The bracket grammar and the first fault

What the reader makes of an arbitrary list of tokens, also of one that no text is cut into. A depth
that `(` raises and `)` lowers tells what may stand where: only `(` at depth zero, anything that
is read as an atom deeper inside, and the end at depth zero only.

* `Spells`: the tokens that spell trees, with atoms at the leaves. They do so in one way only
  (`Spells.unique`).
* `firstFault?`: the fault at the first position where there is one.
* `readForms_bracket_grammar`: **the reader accepts what is spelled in groups,** reads each group as
  the normal form of its tree, **and reports the first fault** of anything else.
* `readForms_longNumeral`: an atom may also be refused for its length, and that is no fault of the
  text.
-/

namespace EntityLisp

open Node

/-! ### Depth -/

/-- What a token does to the depth. -/
def depthStep (depth : Nat) (token : String) : Nat :=
  if token = "(" then depth + 1 else if token = ")" then depth - 1 else depth

/-- The depth behind tokens that begin at a depth. -/
def depthAfter (depth : Nat) (tokens : List String) : Nat := tokens.foldl depthStep depth

theorem depthAfter_cons (depth : Nat) (token : String) (rest : List String) :
    depthAfter depth (token :: rest) = depthAfter (depthStep depth token) rest := rfl

theorem depthAfter_append (depth : Nat) (first second : List String) :
    depthAfter depth (first ++ second) = depthAfter (depthAfter depth first) second :=
  List.foldl_append

@[simp] theorem depthStep_open (depth : Nat) : depthStep depth "(" = depth + 1 := rfl

@[simp] theorem depthStep_close (depth : Nat) : depthStep depth ")" = depth - 1 := rfl

theorem depthStep_of_ne {token : String} (hopen : token ≠ "(") (hclose : token ≠ ")")
    (depth : Nat) : depthStep depth token = depth := by
  rw [depthStep, if_neg hopen, if_neg hclose]

theorem depthAfter_le (depth : Nat) (tokens : List String) :
    depthAfter depth tokens ≤ depth + tokens.length := by
  induction tokens generalizing depth with
  | nil => exact Nat.le_refl depth
  | cons token rest ih =>
    have hrest := ih (depthStep depth token)
    have hstep : depthStep depth token ≤ depth + 1 := by
      unfold depthStep
      split
      · exact Nat.le_refl _
      · split <;> omega
    rw [depthAfter_cons, List.length_cons]
    omega

/-! ### Faults -/

/-- **What is wrong with a token at a depth,** or with the end of the tokens there. -/
def faultAt (depth : Nat) : Option String → Option SyntaxError
  | none => if depth = 0 then none else some .unclosedForm
  | some token =>
    if depth = 0 then if token = "(" then none else some (.expectedOpen (some token))
    else if token = "(" ∨ token = ")" then none
    else match readAtom token with
      | .ok _ => none
      | .error error => some error

/-- What is wrong at a position of tokens that begin at a depth. -/
def fault? (depth : Nat) (tokens : List String) (position : Nat) : Option SyntaxError :=
  faultAt (depthAfter depth (tokens.take position)) tokens[position]?

/-- **The first fault** of tokens that begin at a depth. -/
def firstFault? (depth : Nat) (tokens : List String) : Option SyntaxError :=
  (List.range (tokens.length + 1)).findSome? (fault? depth tokens)

theorem firstFault?_nil (depth : Nat) : firstFault? depth [] = faultAt depth none := by
  simp [firstFault?, fault?, depthAfter]

theorem firstFault?_cons (depth : Nat) (token : String) (rest : List String) :
    firstFault? depth (token :: rest) =
      (faultAt depth (some token)).or (firstFault? (depthStep depth token) rest) := by
  have hhere : fault? depth (token :: rest) 0 = faultAt depth (some token) := rfl
  have hbehind : fault? depth (token :: rest) ∘ Nat.succ = fault? (depthStep depth token) rest :=
    rfl
  unfold firstFault?
  rw [List.length_cons, List.range_succ_eq_map, List.findSome?_cons, List.findSome?_map, hhere,
    hbehind]
  cases faultAt depth (some token) <;> rfl

theorem firstFault?_open (depth : Nat) (rest : List String) :
    firstFault? depth ("(" :: rest) = firstFault? (depth + 1) rest := by
  have hnone : faultAt depth (some "(") = none := by
    simp [faultAt]
  rw [firstFault?_cons, hnone]
  rfl

theorem firstFault?_close (depth : Nat) (rest : List String) :
    firstFault? (depth + 1) (")" :: rest) = firstFault? depth rest := by
  rw [firstFault?_cons]
  rfl

section Atoms

variable {token : String} (hopen : token ≠ "(") (hclose : token ≠ ")")

include hopen

theorem firstFault?_outside (rest : List String) :
    firstFault? 0 (token :: rest) = some (.expectedOpen (some token)) := by
  rw [firstFault?_cons, faultAt, if_pos rfl, if_neg hopen]
  rfl

include hclose

theorem faultAt_inside (depth : Nat) : faultAt (depth + 1) (some token) =
    match readAtom token with
      | .ok _ => none
      | .error error => some error := by
  rw [faultAt, if_neg (Nat.succ_ne_zero depth), if_neg (by simp [hopen, hclose])]

theorem firstFault?_atom {node : Node} (h : readAtom token = .ok node) (depth : Nat)
    (rest : List String) :
    firstFault? (depth + 1) (token :: rest) = firstFault? (depth + 1) rest := by
  rw [firstFault?_cons, faultAt_inside hopen hclose, h, depthStep_of_ne hopen hclose]
  rfl

theorem firstFault?_fault {error : SyntaxError} (h : readAtom token = .error error) (depth : Nat)
    (rest : List String) : firstFault? (depth + 1) (token :: rest) = some error := by
  rw [firstFault?_cons, faultAt_inside hopen hclose, h]
  rfl

end Atoms

/-- **Tokens that nest within the limit,** as far as they are without fault. -/
def NestsWithin [Stack] (depth : Nat) (tokens : List String) : Prop :=
  ∀ position, (∀ earlier < position, fault? depth tokens earlier = none) →
    depthAfter depth (tokens.take position) ≤ nestingLimit

theorem NestsWithin.of_cons [Stack] {depth : Nat} {token : String} {rest : List String}
    (h : NestsWithin depth (token :: rest)) (hnone : faultAt depth (some token) = none) :
    NestsWithin (depthStep depth token) rest := by
  intro position hearlier
  refine h (position + 1) fun earlier hlt => ?_
  cases earlier with
  | zero => exact hnone
  | succ earlier => exact hearlier earlier (Nat.lt_of_succ_lt_succ hlt)

/-- No short list nests too deeply. -/
theorem nestsWithin_of_length_le [Stack] {tokens : List String} (h : tokens.length ≤ nestingLimit) :
    NestsWithin 0 tokens := by
  intro position _
  have hdepth := depthAfter_le 0 (tokens.take position)
  have hlength := List.length_take_le' position tokens
  omega

/-! ### Spelling -/

/-- **Tokens that spell trees** one after the other: an atom by one token that is read as the atom,
a form by what spells its items, between parentheses. -/
inductive Spells : List Node → List String → Prop where
  | nil : Spells [] []
  | atom {token : String} {node : Node} {trees : List Node} {tokens : List String}
      (ne_open : token ≠ "(") (ne_close : token ≠ ")") (reads : readAtom token = .ok node)
      (others : Spells trees tokens) : Spells (node :: trees) (token :: tokens)
  | form {items trees : List Node} {inner tokens : List String} (inside : Spells items inner)
      (others : Spells trees tokens) :
      Spells (.form items :: trees) ("(" :: (inner ++ ")" :: tokens))

/-- A group of tokens that spells one form. -/
inductive SpellsForm : Node → List String → Prop where
  | intro {items : List Node} {inner : List String} (inside : Spells items inner) :
      SpellsForm (.form items) ("(" :: (inner ++ [")"]))

/-- **Tokens that are spelled in groups,** of which each spells one form. -/
structure SpelledInGroups (tokens : List String) (groups : List (List String))
    (trees : List Node) : Prop where
  tokens_eq : tokens = groups.flatten
  spelled : List.Forall₂ SpellsForm trees groups

/-- **Tokens spell trees in one way only,** up to the closing parenthesis behind them. -/
theorem Spells.unique {trees trees' : List Node} {tokens tokens' rest rest' : List String}
    (h : Spells trees tokens) (h' : Spells trees' tokens')
    (heq : tokens ++ ")" :: rest = tokens' ++ ")" :: rest') :
    trees = trees' ∧ tokens = tokens' ∧ rest = rest' := by
  have hparens : ")" ≠ "(" := by decide
  induction h generalizing trees' tokens' rest rest' with
  | nil =>
    cases h' with
    | nil => exact ⟨rfl, rfl, (List.cons.inj heq).2⟩
    | atom _ hclose _ _ => exact absurd (List.cons.inj heq).1.symm hclose
    | form _ _ => exact absurd (List.cons.inj heq).1 hparens
  | atom hopen hclose hreads _ ih =>
    cases h' with
    | nil => exact absurd (List.cons.inj heq).1 hclose
    | atom _ _ hreads' hothers' =>
      obtain ⟨rfl, hrest⟩ := List.cons.inj heq
      rw [hreads] at hreads'
      cases hreads'
      obtain ⟨rfl, rfl, rfl⟩ := ih hothers' hrest
      exact ⟨rfl, rfl, rfl⟩
    | form _ _ => exact absurd (List.cons.inj heq).1 hopen
  | form _ _ ihinside ihothers =>
    cases h' with
    | nil => exact absurd (List.cons.inj heq).1.symm hparens
    | atom hopen' _ _ _ => exact absurd (List.cons.inj heq).1.symm hopen'
    | form hinside' hothers' =>
      rw [List.cons_append, List.cons_append, List.append_assoc, List.append_assoc] at heq
      obtain ⟨rfl, rfl, hrest⟩ := ihinside hinside' (List.cons.inj heq).2
      obtain ⟨rfl, rfl, rfl⟩ := ihothers hothers' hrest
      exact ⟨rfl, rfl, rfl⟩

/-- Groups that spell forms are cut off from each other in one way only. -/
theorem forall₂_spellsForm_unique {trees trees' : List Node} {groups groups' : List (List String)}
    (h : List.Forall₂ SpellsForm trees groups) (h' : List.Forall₂ SpellsForm trees' groups')
    (heq : groups.flatten = groups'.flatten) : groups' = groups ∧ trees' = trees := by
  induction h generalizing trees' groups' with
  | nil =>
    cases h' with
    | nil => exact ⟨rfl, rfl⟩
    | cons hfirst' _ => cases hfirst' with | intro _ => cases heq
  | cons hfirst _ ih =>
    obtain ⟨hinside⟩ := hfirst
    cases h' with
    | nil => cases heq
    | cons hfirst' hrest' =>
      obtain ⟨hinside'⟩ := hfirst'
      rw [List.flatten_cons, List.flatten_cons, List.cons_append, List.cons_append,
        List.append_assoc, List.append_assoc] at heq
      obtain ⟨rfl, rfl, hrest⟩ := hinside.unique hinside' (List.cons.inj heq).2
      obtain ⟨rfl, rfl⟩ := ih hrest' hrest
      exact ⟨rfl, rfl⟩

/-! ### What is spelled has no fault -/

/-- Trees that are spelled inside a form are passed without a fault. -/
theorem Spells.firstFault?_append {trees : List Node} {tokens : List String}
    (h : Spells trees tokens) (depth : Nat) (rest : List String) :
    firstFault? (depth + 1) (tokens ++ rest) = firstFault? (depth + 1) rest := by
  induction h generalizing depth rest with
  | nil => rfl
  | atom hopen hclose hreads _ ih =>
    rw [List.cons_append, firstFault?_atom hopen hclose hreads, ih]
  | form _ _ ihinside ihothers =>
    rw [List.cons_append, List.append_assoc, firstFault?_open, ihinside, List.cons_append,
      firstFault?_close, ihothers]

theorem firstFault?_flatten {trees : List Node} {groups : List (List String)}
    (h : List.Forall₂ SpellsForm trees groups) : firstFault? 0 groups.flatten = none := by
  induction h with
  | nil => rfl
  | cons hfirst _ ih =>
    obtain ⟨hinside⟩ := hfirst
    rw [List.flatten_cons, List.cons_append, List.append_assoc, firstFault?_open,
      hinside.firstFault?_append 0, List.singleton_append, firstFault?_close, ih]

/-- **A group of tokens:** the depth comes back to zero at its end, and not before. -/
structure IsGroup (group : List String) : Prop where
  ne_nil : group ≠ []
  closed : depthAfter 0 group = 0
  inside : ∀ position, 0 < position → position < group.length →
    0 < depthAfter 0 (group.take position)

theorem Spells.depthAfter_eq {trees : List Node} {tokens : List String} (h : Spells trees tokens)
    (depth : Nat) : depthAfter (depth + 1) tokens = depth + 1 := by
  induction h generalizing depth with
  | nil => rfl
  | atom hopen hclose _ _ ih => rw [depthAfter_cons, depthStep_of_ne hopen hclose, ih]
  | form _ _ ihinside ihothers =>
    rw [depthAfter_cons, depthStep_open, depthAfter_append, ihinside, depthAfter_cons,
      depthStep_close, Nat.add_sub_cancel, ihothers]

/-- The depth does not fall below the one at which trees begin. -/
theorem Spells.lt_depthAfter_take {trees : List Node} {tokens : List String}
    (h : Spells trees tokens) (depth position : Nat) :
    depth < depthAfter (depth + 1) (tokens.take position) := by
  induction h generalizing depth position with
  | nil =>
    rw [List.take_nil]
    exact Nat.lt_succ_self depth
  | atom hopen hclose _ _ ih =>
    cases position with
    | zero => exact Nat.lt_succ_self depth
    | succ position =>
      rw [List.take_succ_cons, depthAfter_cons, depthStep_of_ne hopen hclose]
      exact ih depth position
  | @form items trees inner tokens hinside _ ihinside ihothers =>
    cases position with
    | zero => exact Nat.lt_succ_self depth
    | succ position =>
      rw [List.take_succ_cons, depthAfter_cons, depthStep_open, List.take_append,
        depthAfter_append]
      -- either the position is inside the form, or the form is closed
      cases hbehind : position - inner.length with
      | zero => exact Nat.lt_of_succ_lt (ihinside (depth + 1) position)
      | succ behind =>
        rw [List.take_of_length_le (by omega), hinside.depthAfter_eq, List.take_succ_cons,
          depthAfter_cons, depthStep_close, Nat.add_sub_cancel]
        exact ihothers depth behind

theorem SpellsForm.isGroup {tree : Node} {group : List String} (h : SpellsForm tree group) :
    IsGroup group := by
  obtain ⟨hinside⟩ := h
  refine ⟨List.cons_ne_nil _ _, ?_, fun position hpos hlt => ?_⟩
  · rw [depthAfter_cons, depthStep_open, depthAfter_append, hinside.depthAfter_eq]
    rfl
  · obtain ⟨position, rfl⟩ := Nat.exists_eq_add_one.mpr hpos
    rw [List.length_cons, List.length_append, List.length_singleton] at hlt
    rw [List.take_succ_cons, depthAfter_cons, depthStep_open,
      List.take_append_of_le_length (by omega)]
    exact hinside.lt_depthAfter_take 0 position

theorem isGroup_of_mem {trees : List Node} {groups : List (List String)}
    (h : List.Forall₂ SpellsForm trees groups) : ∀ group ∈ groups, IsGroup group := by
  induction h with
  | nil => exact fun _ hgroup => absurd hgroup List.not_mem_nil
  | cons hfirst _ ih => exact List.forall_mem_cons.mpr ⟨hfirst.isGroup, ih⟩

/-! ### The fault that is reported -/

/-- **What is found in tokens by reading a form:** their first fault, or the end of the form. In
this case the first fault, if there is one, is the first of what is left. -/
inductive Finds [Stack] (depth : Nat) (tokens : List String) :
    Except SyntaxError Node × List String → Prop where
  | fault {error : SyntaxError} {left : List String}
      (first : firstFault? depth tokens = some error) : Finds depth tokens (.error error, left)
  | form {node : Node} {left : List String} (first : firstFault? depth tokens = firstFault? 0 left)
      (nests : NestsWithin 0 left) : Finds depth tokens (.ok node, left)

theorem Finds.of_firstFault?_eq [Stack] {depth depth' : Nat} {tokens tokens' : List String}
    {result : Except SyntaxError Node × List String} (h : Finds depth' tokens' result)
    (heq : firstFault? depth tokens = firstFault? depth' tokens') : Finds depth tokens result := by
  cases h with
  | fault hfirst => exact .fault (heq.trans hfirst)
  | form hfirst hnests => exact .form (heq.trans hfirst) hnests

/-- The depth inside a form is the number of the open forms. -/
theorem finds_readItems [Stack] {room : Nat} {items : List Node} {outer : List (List Node)}
    {tokens : List String} (hroom : room + (outer.length + 1) = nestingLimit)
    (hnests : NestsWithin (outer.length + 1) tokens) :
    Finds (outer.length + 1) tokens (readItems room items outer tokens) := by
  induction room, items, outer, tokens using readItems_induction with
  | ended room items outer => exact .fault (firstFault?_nil _)
  | close_nil room items rest =>
    exact .form (firstFault?_close 0 rest) (hnests.of_cons rfl)
  | close_cons room items around outer rest ih =>
    rw [List.length_cons] at hroom hnests ⊢
    rw [readItems_close_cons]
    refine (ih ?_ (hnests.of_cons rfl)).of_firstFault?_eq (firstFault?_close _ rest)
    omega
  | open_zero items outer rest =>
    -- without room the depth behind this parenthesis is above the limit
    have hdepth := hnests 1 fun earlier hlt => by
      obtain rfl : earlier = 0 := by omega
      rfl
    have hlimit : outer.length + 1 + 1 ≤ nestingLimit := hdepth
    omega
  | open_succ room items outer rest ih =>
    rw [readItems_open_succ]
    refine (ih ?_ (hnests.of_cons rfl)).of_firstFault?_eq (firstFault?_open _ rest)
    rw [List.length_cons]
    omega
  | atom room items outer rest token node hclose hopen hatom ih =>
    rw [readItems_atom hclose hopen hatom]
    have hrest := hnests.of_cons (by rw [faultAt_inside hopen hclose, hatom])
    rw [depthStep_of_ne hopen hclose] at hrest
    exact (ih hroom hrest).of_firstFault?_eq (firstFault?_atom hopen hclose hatom _ rest)
  | fault room items outer rest token error hclose hopen hatom =>
    rw [readItems_fault hclose hopen hatom]
    exact .fault (firstFault?_fault hopen hclose hatom _ rest)

theorem finds_readForm [Stack] {token : String} {rest : List String}
    (h : NestsWithin 0 (token :: rest)) :
    Finds 0 (token :: rest) (readForm (token :: rest)) := by
  rw [readForm]
  split
  · next hopen =>
    subst hopen
    have hinside : NestsWithin 1 rest := h.of_cons rfl
    have hroom : nestingLimit - 1 + 1 = nestingLimit := Nat.sub_add_cancel Stack.nestingLimit_pos
    have hfinds := @finds_readItems _ (nestingLimit - 1) [] [] rest hroom hinside
    exact hfinds.of_firstFault?_eq (firstFault?_open 0 rest)
  · next hopen => exact .fault (firstFault?_outside hopen rest)

/-- **A program is read if it has no fault, and else its first fault is reported.** -/
theorem readForms_or_fault [Stack] {tokens : List String} (h : NestsWithin 0 tokens) :
    (∃ forms, readForms tokens = .ok forms ∧ firstFault? 0 tokens = none) ∨
      ∃ error, readForms tokens = .error error ∧ firstFault? 0 tokens = some error := by
  cases tokens with
  | nil => exact Or.inl ⟨[], by rw [readForms], rfl⟩
  | cons token rest =>
    have hne : token :: rest ≠ [] := List.cons_ne_nil token rest
    have hlt := length_readForm_lt token rest
    have hfinds := finds_readForm h
    cases hread : readForm (token :: rest) with
    | mk result left =>
      rw [hread] at hlt hfinds
      cases hfinds with
      | fault hfirst => exact Or.inr ⟨_, readForms_fault hne hread, hfirst⟩
      | form hfirst hnests =>
        rw [readForms_cons hne hread, hfirst]
        rcases readForms_or_fault hnests with ⟨forms, hforms, hnone⟩ | ⟨error, herror, hsome⟩
        · rw [hforms]
          exact Or.inl ⟨_, rfl, hnone⟩
        · rw [herror]
          exact Or.inr ⟨error, rfl, hsome⟩
termination_by tokens.length

/-! ### The trees that are read -/

/-- **What tokens have to spell to complete the open forms:** for each form the trees that it lacks,
and behind them a closing parenthesis. The last form to be completed is the result. -/
inductive Completes : List Node → List (List Node) → List String → Node → Prop where
  | last {items trees : List Node} {inner : List String} (inside : Spells trees inner) :
      Completes items [] (inner ++ [")"]) (.form (normalForm (items.reverse ++ trees.map normal)))
  | around {items around trees : List Node} {outer : List (List Node)} {inner taken : List String}
      {form : Node} (inside : Spells trees inner)
      (outside : Completes (.form (normalForm (items.reverse ++ trees.map normal)) :: around) outer
        taken form) : Completes items (around :: outer) (inner ++ ")" :: taken) form

/-- The normal form of a tree may be spelled instead of being there. -/
theorem Completes.of_cons {tree form : Node} {items : List Node} {outer : List (List Node)}
    {tokens taken : List String} (h : Completes (tree.normal :: items) outer taken form)
    (hspells : ∀ trees inner, Spells trees inner → Spells (tree :: trees) (tokens ++ inner)) :
    Completes items outer (tokens ++ taken) form := by
  have hitems : ∀ trees : List Node, (tree.normal :: items).reverse ++ trees.map normal =
      items.reverse ++ (tree :: trees).map normal := by
    intro trees
    rw [List.reverse_cons, List.append_assoc, List.singleton_append, List.map_cons]
  cases h with
  | last hinside =>
    rw [← List.append_assoc, hitems]
    exact .last (hspells _ _ hinside)
  | around hinside houtside =>
    rw [hitems] at houtside
    rw [← List.append_assoc]
    exact .around (hspells _ _ hinside) houtside

theorem completes_readItems {room : Nat} {items : List Node} {outer : List (List Node)}
    {tokens left : List String} {form : Node}
    (h : readItems room items outer tokens = (.ok form, left)) :
    ∃ taken, tokens = taken ++ left ∧ Completes items outer taken form := by
  have hnormal : ∀ trees : List Node,
      (Node.form trees).normal = .form (normalForm (trees.map normal)) := by
    intro trees
    rw [normal, normalItems_eq_map]
  induction room, items, outer, tokens using readItems_induction with
  | ended room items outer => cases h
  | close_nil room items rest =>
    rw [readItems_close_nil] at h
    cases h
    refine ⟨[")"], rfl, ?_⟩
    have hlast : Completes items [] ([] ++ [")"])
        (.form (normalForm (items.reverse ++ [].map normal))) := .last .nil
    rwa [List.map_nil, List.append_nil] at hlast
  | close_cons room items around outer rest ih =>
    rw [readItems_close_cons] at h
    obtain ⟨taken, rfl, hcompletes⟩ := ih h
    refine ⟨")" :: taken, rfl, ?_⟩
    refine Completes.around Spells.nil ?_
    rwa [List.map_nil, List.append_nil]
  | open_zero items outer rest => cases h
  | open_succ room items outer rest ih =>
    rw [readItems_open_succ] at h
    obtain ⟨taken, rfl, hcompletes⟩ := ih h
    -- the new form is completed first, and is then an item of the form around it
    cases hcompletes with
    | @around _ _ trees _ inner taken _ hinside houtside =>
      rw [List.reverse_nil, List.nil_append, ← hnormal] at houtside
      refine ⟨"(" :: (inner ++ [")"]) ++ taken, by simp, houtside.of_cons ?_⟩
      intro others tokens hothers
      have hform := Spells.form hinside hothers
      rwa [List.append_cons] at hform
  | atom room items outer rest token node hclose hopen hatom ih =>
    rw [readItems_atom hclose hopen hatom] at h
    obtain ⟨taken, rfl, hcompletes⟩ := ih h
    have hleaf : node.normal = node := by
      cases node with
      | form items => cases isForm_of_readAtom hatom
      | _ => rfl
    rw [← hleaf] at hcompletes
    refine ⟨[token] ++ taken, rfl, hcompletes.of_cons fun _ _ hothers => ?_⟩
    exact .atom hopen hclose hatom hothers
  | fault room items outer rest token error hclose hopen hatom =>
    rw [readItems_fault hclose hopen hatom] at h
    cases h

/-- **A form that is read** is the normal form of the tree that its tokens spell. -/
theorem spellsForm_of_readForm [Stack] {tokens left : List String} {form : Node}
    (h : readForm tokens = (.ok form, left)) :
    ∃ tree group, SpellsForm tree group ∧ tokens = group ++ left ∧ form = tree.normal := by
  cases tokens with
  | nil => cases h
  | cons token rest =>
    rw [readForm] at h
    split at h
    · next hopen =>
      subst hopen
      obtain ⟨taken, rfl, hcompletes⟩ := completes_readItems h
      cases hcompletes with
      | @last _ trees inner hinside =>
        refine ⟨.form trees, "(" :: (inner ++ [")"]), .intro hinside, rfl, ?_⟩
        rw [normal, normalItems_eq_map]
        rfl
    · cases h

theorem spelledInGroups_of_readForms [Stack] {tokens : List String} {forms : List Node}
    (h : readForms tokens = .ok forms) :
    ∃ groups trees, SpelledInGroups tokens groups trees ∧ forms = trees.map normal := by
  refine readForms_induction (motive := fun tokens forms => ∃ groups trees,
    SpelledInGroups tokens groups trees ∧ forms = trees.map normal)
    ⟨[], [], ⟨rfl, .nil⟩, rfl⟩ ?_ h
  rintro tokens left form forms _ hread ⟨groups, trees, ⟨rfl, hspelled⟩, rfl⟩
  obtain ⟨tree, group, htree, rfl, rfl⟩ := spellsForm_of_readForm hread
  exact ⟨group :: groups, tree :: trees, ⟨rfl, .cons htree hspelled⟩, rfl⟩

/-! ### The grammar -/

/-- **The reader accepts exactly the bracket grammar and reports the first fault,** for tokens that
nest within the limit. It reads them if they are spelled in groups, which is when they have no
fault. Then there is one form for each group, in order: the normal form of the tree that the
group spells; groups and trees are the only ones, and a group ends where the depth comes back to
zero. Otherwise nothing is read and the error is the first fault. -/
theorem readForms_bracket_grammar [Stack] {tokens : List String} (h : NestsWithin 0 tokens) :
    (∀ error, readForms tokens = .error error ↔ firstFault? 0 tokens = some error) ∧
      (firstFault? 0 tokens = none ↔ ∃ groups trees, SpelledInGroups tokens groups trees) ∧
      ∀ groups trees, SpelledInGroups tokens groups trees →
        readForms tokens = .ok (trees.map normal) ∧ (∀ group ∈ groups, IsGroup group) ∧
        ∀ groups' trees', SpelledInGroups tokens groups' trees' →
          groups' = groups ∧ trees' = trees := by
  have hread := readForms_or_fault h
  have hnone : ∀ groups trees, SpelledInGroups tokens groups trees →
      firstFault? 0 tokens = none := by
    rintro groups trees ⟨rfl, hspelled⟩
    exact firstFault?_flatten hspelled
  have hunique : ∀ groups trees groups' trees', SpelledInGroups tokens groups trees →
      SpelledInGroups tokens groups' trees' → groups' = groups ∧ trees' = trees := by
    rintro groups trees groups' trees' ⟨rfl, hspelled⟩ ⟨heq, hspelled'⟩
    exact forall₂_spellsForm_unique hspelled hspelled' heq
  refine ⟨fun error => ?_, ⟨fun hfirst => ?_, fun ⟨groups, trees, hcut⟩ => hnone groups trees hcut⟩,
    fun groups trees hcut => ⟨?_, fun group hgroup => ?_,
      fun groups' trees' => hunique groups trees groups' trees' hcut⟩⟩
  · rcases hread with ⟨forms, hforms, hfirst⟩ | ⟨first, hfault, hfirst⟩
    · rw [hforms, hfirst]
      exact ⟨nofun, nofun⟩
    · rw [hfault, hfirst, Except.error.injEq, Option.some.injEq]
  · rcases hread with ⟨forms, hforms, -⟩ | ⟨first, -, hsome⟩
    · obtain ⟨groups, trees, hcut, -⟩ := spelledInGroups_of_readForms hforms
      exact ⟨groups, trees, hcut⟩
    · rw [hfirst] at hsome
      cases hsome
  · rcases hread with ⟨forms, hforms, -⟩ | ⟨first, -, hsome⟩
    · obtain ⟨groups', trees', hcut', rfl⟩ := spelledInGroups_of_readForms hforms
      rw [hforms, (hunique groups trees groups' trees' hcut hcut').2]
    · rw [hnone groups trees hcut] at hsome
      cases hsome
  · exact isGroup_of_mem hcut.spelled group hgroup

/-- Two groups in one list: `(add 1 (f))`, whose number is wrapped, and `()`. In the other list the
second token inside the form is the first fault, although the form is not closed either. -/
theorem readForms_bracket_grammar_add :
    NestsWithin 0 ["(", "add", "1", "(", "f", ")", ")", "(", ")"] ∧
      SpelledInGroups ["(", "add", "1", "(", "f", ")", ")", "(", ")"]
        [["(", "add", "1", "(", "f", ")", ")"], ["(", ")"]]
        [.form [.symbol "add", .int 1, .form [.symbol "f"]], .form []] ∧
      readForms ["(", "add", "1", "(", "f", ")", ")", "(", ")"] =
        .ok [.form [.symbol "add", .form [.symbol "entity", .symbol "Integer", .int 1],
          .form [.symbol "f"]], .form []] ∧
      NestsWithin 0 ["(", "say", "it's", "'s", "("] ∧
      readForms ["(", "say", "it's", "'s", "("] = .error (.singleQuote "'s") := by
  have hnests : NestsWithin 0 ["(", "add", "1", "(", "f", ")", ")", "(", ")"] :=
    nestsWithin_of_length_le (by decide)
  have hnests' : NestsWithin 0 ["(", "say", "it's", "'s", "("] :=
    nestsWithin_of_length_le (by decide)
  have hcall : Spells [.form [.symbol "f"]] ["(", "f", ")"] :=
    .form (.atom (by decide) (by decide) rfl .nil) .nil
  have hadd : SpellsForm (.form [.symbol "add", .int 1, .form [.symbol "f"]])
      ["(", "add", "1", "(", "f", ")", ")"] :=
    .intro (.atom (by decide) (by decide) rfl (.atom (by decide) (by decide) rfl hcall))
  have hspelled : SpelledInGroups ["(", "add", "1", "(", "f", ")", ")", "(", ")"]
      [["(", "add", "1", "(", "f", ")", ")"], ["(", ")"]]
      [.form [.symbol "add", .int 1, .form [.symbol "f"]], .form []] :=
    ⟨rfl, .cons hadd (.cons (.intro .nil) .nil)⟩
  obtain ⟨-, -, hread⟩ := readForms_bracket_grammar hnests
  obtain ⟨hfault, -, -⟩ := readForms_bracket_grammar hnests'
  exact ⟨hnests, hspelled, (hread _ _ hspelled).1, hnests', (hfault _).mpr rfl⟩

/-- A whole number with one digit more than are read. -/
def longNumeral : String := String.ofList (List.replicate (digitLimit + 1) '1')

theorem readAtom_longNumeral : readAtom longNumeral = .error (.tooManyDigits 4301) := by
  have hdigits : Decimal.isDigits (List.replicate (digitLimit + 1) '1') = true := by
    refine Decimal.isDigits_iff.mpr ⟨by simp, fun c hc => ?_⟩
    rw [List.eq_of_mem_replicate hc]
    decide
  have hwhole : Decimal.IsWhole longNumeral.toList false (List.replicate (digitLimit + 1) '1') :=
    ⟨hdigits, by rw [longNumeral, String.toList_ofList]; rfl⟩
  rw [readAtom_of_isWhole hwhole, List.length_replicate]
  rfl

/-- **An atom that is refused without being malformed:** the form `(f n)`, where `n` is this number,
is not read, and the error is no fault of the text. -/
theorem readForms_longNumeral :
    NestsWithin 0 ["(", "f", longNumeral, ")"] ∧
      readForms ["(", "f", longNumeral, ")"] = .error (.tooManyDigits 4301) ∧
        ∀ fault, EvalError.ofFault (.tooManyDigits 4301) ≠ .malformed fault := by
  have hnests : NestsWithin 0 ["(", "f", longNumeral, ")"] :=
    nestsWithin_of_length_le (by decide)
  refine ⟨hnests, ?_, nofun⟩
  have hread : readForm ["(", "f", longNumeral, ")"] =
      (.error (.tooManyDigits 4301), [")"]) := by
    have hne : ∀ paren, readAtom paren = .ok (.symbol paren) → longNumeral ≠ paren := by
      rintro paren hparen rfl
      rw [readAtom_longNumeral] at hparen
      cases hparen
    rw [readForm, if_pos rfl, readItems_atom (by decide) (by decide) rfl,
      readItems_fault (hne ")" rfl) (hne "(" rfl) readAtom_longNumeral]
  exact readForms_fault (List.cons_ne_nil _ _) hread

end EntityLisp
