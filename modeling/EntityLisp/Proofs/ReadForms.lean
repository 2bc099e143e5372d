import EntityLisp.Form.Read
import EntityLisp.Proofs.AtomText
import EntityLisp.Proofs.FormTree

/-!
# What is read

What the reader makes of tokens, whatever these are.

* `suffix_readForm`, `readForms_cons`: reading a form leaves the tokens behind it, and a program is
  read form by form.
* `isNormal_of_mem_readForms`: every form that is read is in normal form throughout.
* `leaves_readForms_iff`: the leaves of what is read are the atoms of the tokens, beside the names
  that normal forms put in.
-/

namespace EntityLisp

open Node

/-! ### The steps of reading -/

theorem readItems_close_nil (room : Nat) (items : List Node) (rest : List String) :
    readItems room items [] (")" :: rest) = (.ok (.form (normalForm items.reverse)), rest) := rfl

theorem readItems_close_cons (room : Nat) (items around : List Node) (outer : List (List Node))
    (rest : List String) : readItems room items (around :: outer) (")" :: rest) =
      readItems (room + 1) (.form (normalForm items.reverse) :: around) outer rest := rfl

theorem readItems_open_zero (items : List Node) (outer : List (List Node)) (rest : List String) :
    readItems 0 items outer ("(" :: rest) = (.error .nestedTooDeeply, "(" :: rest) := rfl

theorem readItems_open_succ (room : Nat) (items : List Node) (outer : List (List Node))
    (rest : List String) : readItems (room + 1) items outer ("(" :: rest) =
      readItems room [] (items :: outer) rest := rfl

theorem readItems_atom {token : String} {atom : Node} (hclose : token ≠ ")") (hopen : token ≠ "(")
    (h : readAtom token = .ok atom) (room : Nat) (items : List Node) (outer : List (List Node))
    (rest : List String) : readItems room items outer (token :: rest) =
      readItems room (atom :: items) outer rest := by
  simp only [readItems, if_neg hclose, if_neg hopen, h]

theorem readItems_fault {token : String} {fault : SyntaxError} (hclose : token ≠ ")")
    (hopen : token ≠ "(") (h : readAtom token = .error fault) (room : Nat) (items : List Node)
    (outer : List (List Node)) (rest : List String) :
    readItems room items outer (token :: rest) = (.error fault, rest) := by
  simp only [readItems, if_neg hclose, if_neg hopen, h]

/-- **Induction along the tokens inside a form,** with one case for each step of reading. -/
theorem readItems_induction
    {motive : Nat → List Node → List (List Node) → List String → Prop}
    (ended : ∀ room items outer, motive room items outer [])
    (close_nil : ∀ room items rest, motive room items [] (")" :: rest))
    (close_cons : ∀ room items around outer rest,
      motive (room + 1) (.form (normalForm items.reverse) :: around) outer rest →
        motive room items (around :: outer) (")" :: rest))
    (open_zero : ∀ items outer rest, motive 0 items outer ("(" :: rest))
    (open_succ : ∀ room items outer rest, motive room [] (items :: outer) rest →
      motive (room + 1) items outer ("(" :: rest))
    (atom : ∀ room items outer rest token node, token ≠ ")" → token ≠ "(" →
      readAtom token = .ok node → motive room (node :: items) outer rest →
        motive room items outer (token :: rest))
    (fault : ∀ room items outer rest token error, token ≠ ")" → token ≠ "(" →
      readAtom token = .error error → motive room items outer (token :: rest))
    (room : Nat) (items : List Node) (outer : List (List Node)) (tokens : List String) :
    motive room items outer tokens := by
  -- each step takes one token, whatever it does to the open forms
  induction tokens generalizing room items outer with
  | nil => exact ended room items outer
  | cons token rest ih =>
    by_cases hclose : token = ")"
    · subst hclose
      cases outer with
      | nil => exact close_nil room items rest
      | cons around outer => exact close_cons room items around outer rest (ih _ _ _)
    by_cases hopen : token = "("
    · subst hopen
      cases room with
      | zero => exact open_zero items outer rest
      | succ room => exact open_succ room items outer rest (ih _ _ _)
    cases hatom : readAtom token with
    | ok node => exact atom room items outer rest token node hclose hopen hatom (ih _ _ _)
    | error error => exact fault room items outer rest token error hclose hopen hatom

/-! ### The tokens that are left -/

theorem suffix_readItems (room : Nat) (items : List Node) (outer : List (List Node))
    (tokens : List String) : (readItems room items outer tokens).2 <:+ tokens := by
  induction room, items, outer, tokens using readItems_induction with
  | ended room items outer => exact List.suffix_refl []
  | close_nil room items rest => exact List.suffix_cons ")" rest
  | close_cons room items around outer rest ih =>
    rw [readItems_close_cons]
    exact ih.trans (List.suffix_cons ")" rest)
  | open_zero items outer rest => exact List.suffix_refl ("(" :: rest)
  | open_succ room items outer rest ih =>
    rw [readItems_open_succ]
    exact ih.trans (List.suffix_cons "(" rest)
  | atom room items outer rest token node hclose hopen hatom ih =>
    rw [readItems_atom hclose hopen hatom]
    exact ih.trans (List.suffix_cons token rest)
  | fault room items outer rest token error hclose hopen hatom =>
    rw [readItems_fault hclose hopen hatom]
    exact List.suffix_cons token rest

/-- **Reading a form leaves a suffix** of the tokens. -/
theorem suffix_readForm [Stack] (tokens : List String) : (readForm tokens).2 <:+ tokens := by
  cases tokens with
  | nil => exact List.suffix_refl []
  | cons token rest =>
    rw [readForm]
    split
    · exact (suffix_readItems _ _ _ rest).trans (List.suffix_cons token rest)
    · exact List.suffix_cons token rest

/-! ### Form by form -/

theorem readForms_cons [Stack] {tokens left : List String} {form : Node} (hne : tokens ≠ [])
    (h : readForm tokens = (.ok form, left)) :
    readForms tokens = (readForms left).map (form :: ·) := by
  cases tokens with
  | nil => exact absurd rfl hne
  | cons token rest =>
    rw [readForms]
    split
    · next form' left' heq =>
      rw [h] at heq
      cases heq
      rfl
    · next error left' heq =>
      rw [h] at heq
      cases heq

theorem readForms_fault [Stack] {tokens left : List String} {fault : SyntaxError}
    (hne : tokens ≠ []) (h : readForm tokens = (.error fault, left)) :
    readForms tokens = .error fault := by
  cases tokens with
  | nil => exact absurd rfl hne
  | cons token rest =>
    rw [readForms]
    split
    · next form' left' heq =>
      rw [h] at heq
      cases heq
    · next error left' heq =>
      rw [h] at heq
      cases heq
      rfl

/-- **Induction along the forms of a program** that is read without a fault. -/
theorem readForms_induction [Stack] {motive : List String → List Node → Prop} (nil : motive [] [])
    (cons : ∀ tokens left form forms, tokens ≠ [] → readForm tokens = (.ok form, left) →
      motive left forms → motive tokens (form :: forms))
    {tokens : List String} {forms : List Node} (h : readForms tokens = .ok forms) :
    motive tokens forms := by
  cases tokens with
  | nil =>
    rw [readForms] at h
    cases h
    exact nil
  | cons token rest =>
    -- a form takes at least one token, so what is left is shorter
    have hne : token :: rest ≠ [] := List.cons_ne_nil token rest
    have hlt := length_readForm_lt token rest
    cases hread : readForm (token :: rest) with
    | mk result left =>
      rw [hread] at hlt
      cases result with
      | error fault =>
        rw [readForms_fault hne hread] at h
        cases h
      | ok form =>
        rw [readForms_cons hne hread] at h
        obtain ⟨forms, hforms, rfl⟩ := Except.map_eq_ok_iff.mp h
        exact cons _ left form forms hne hread (readForms_induction nil cons hforms)
termination_by tokens.length

/-! ### Normal forms -/

/-- What is read inside a form is in normal form if what has been read before is. -/
theorem isNormal_readItems {room : Nat} {items : List Node} {outer : List (List Node)}
    {tokens : List String} {form : Node} (h : (readItems room items outer tokens).1 = .ok form)
    (hitems : ∀ item ∈ items, item.IsNormal)
    (houter : ∀ around ∈ outer, ∀ item ∈ around, item.IsNormal) :
    form.isForm = true ∧ form.IsNormal := by
  -- a form is completed from its items, which stand latest first
  have hcomplete : ∀ items : List Node, (∀ item ∈ items, item.IsNormal) →
      (Node.form (normalForm items.reverse)).IsNormal := fun items hitems =>
    isNormal_form_normalForm fun item hitem => hitems item (List.mem_reverse.mp hitem)
  induction room, items, outer, tokens using readItems_induction with
  | ended room items outer => cases h
  | close_nil room items rest =>
    cases h
    exact ⟨rfl, hcomplete items hitems⟩
  | close_cons room items around outer rest ih =>
    rw [readItems_close_cons] at h
    refine ih h ?_ fun other hother => houter other (List.mem_cons_of_mem _ hother)
    intro item hitem
    rcases List.mem_cons.mp hitem with rfl | hitem
    · exact hcomplete items hitems
    · exact houter around List.mem_cons_self item hitem
  | open_zero items outer rest => cases h
  | open_succ room items outer rest ih =>
    rw [readItems_open_succ] at h
    refine ih h (by simp) fun around haround => ?_
    rcases List.mem_cons.mp haround with rfl | haround
    · exact hitems
    · exact houter around haround
  | atom room items outer rest token node hclose hopen hatom ih =>
    rw [readItems_atom hclose hopen hatom] at h
    refine ih h ?_ houter
    intro item hitem
    rcases List.mem_cons.mp hitem with rfl | hitem
    · exact IsNormal.leaf (isForm_of_readAtom hatom)
    · exact hitems item hitem
  | fault room items outer rest token error hclose hopen hatom =>
    rw [readItems_fault hclose hopen hatom] at h
    cases h

/-- **A form that is read** is in normal form throughout. -/
theorem isNormal_of_readForm [Stack] {tokens : List String} {form : Node}
    (h : (readForm tokens).1 = .ok form) : form.isForm = true ∧ form.IsNormal := by
  cases tokens with
  | nil => cases h
  | cons token rest =>
    rw [readForm] at h
    split at h
    · exact isNormal_readItems h (by simp) (by simp)
    · cases h

theorem isNormal_of_mem_readForms [Stack] {tokens : List String} {forms : List Node}
    (h : readForms tokens = .ok forms) :
    ∀ form ∈ forms, form.isForm = true ∧ form.IsNormal := by
  refine readForms_induction (motive := fun _ forms =>
    ∀ form ∈ forms, form.isForm = true ∧ form.IsNormal) (by simp) ?_ h
  intro tokens left form forms _ hread ih other hother
  rcases List.mem_cons.mp hother with rfl | hother
  · exact isNormal_of_readForm (by rw [hread])
  · exact ih other hother

/-! ### Leaves -/

/-- **What a token stands for,** if it is an atom, has a property. -/
def TokenSatisfies (P : Node → Prop) (token : String) : Prop :=
  token ≠ "(" → token ≠ ")" → ∀ atom, readAtom token = .ok atom → P atom

section Leaves

variable {P : Node → Prop}

theorem tokenSatisfies_iff_of_readAtom {token : String} {node : Node} (hopen : token ≠ "(")
    (hclose : token ≠ ")") (hatom : readAtom token = .ok node) :
    TokenSatisfies P token ↔ P node := by
  constructor
  · exact fun hsat => hsat hopen hclose node hatom
  · intro hnode _ _ other hother
    rw [hatom] at hother
    cases hother
    exact hnode

variable (hnames : ∀ name ∈ normalNames, P (.symbol name))

include hnames

theorem leaves_complete_iff (items : List Node) :
    Leaves P (.form (normalForm items.reverse)) ↔ ∀ item ∈ items, Leaves P item := by
  rw [leaves_form_iff, leaves_normalForm_iff hnames]
  simp only [List.mem_reverse]

/-- The leaves of what is read inside a form come from what has been read before and from the
tokens that are taken. -/
theorem leaves_readItems_iff {room : Nat} {items : List Node} {outer : List (List Node)}
    {tokens left : List String} {form : Node}
    (h : readItems room items outer tokens = (.ok form, left)) :
    ∃ taken, tokens = taken ++ left ∧ (Leaves P form ↔ (∀ item ∈ items, Leaves P item) ∧
      (∀ around ∈ outer, ∀ item ∈ around, Leaves P item) ∧
        ∀ token ∈ taken, TokenSatisfies P token) := by
  -- parentheses stand for no atom, so they put no condition on the leaves
  have hopen : TokenSatisfies P "(" := fun hne => absurd rfl hne
  have hclose : TokenSatisfies P ")" := fun _ hne => absurd rfl hne
  induction room, items, outer, tokens using readItems_induction with
  | ended room items outer => cases h
  | close_nil room items rest =>
    rw [readItems_close_nil] at h
    cases h
    refine ⟨[")"], rfl, ?_⟩
    rw [leaves_complete_iff hnames]
    simp [hclose]
  | close_cons room items around outer rest ih =>
    rw [readItems_close_cons] at h
    obtain ⟨taken, rfl, hiff⟩ := ih h
    refine ⟨")" :: taken, rfl, ?_⟩
    rw [hiff, List.forall_mem_cons, List.forall_mem_cons, List.forall_mem_cons,
      leaves_complete_iff hnames]
    tauto
  | open_zero items outer rest =>
    rw [readItems_open_zero] at h
    cases h
  | open_succ room items outer rest ih =>
    rw [readItems_open_succ] at h
    obtain ⟨taken, rfl, hiff⟩ := ih h
    refine ⟨"(" :: taken, rfl, ?_⟩
    rw [hiff, List.forall_mem_cons, List.forall_mem_cons]
    simp only [List.not_mem_nil, false_implies, implies_true, true_and]
    tauto
  | atom room items outer rest token node hne_close hne_open hatom ih =>
    rw [readItems_atom hne_close hne_open hatom] at h
    obtain ⟨taken, rfl, hiff⟩ := ih h
    refine ⟨token :: taken, rfl, ?_⟩
    rw [hiff, List.forall_mem_cons, List.forall_mem_cons,
      tokenSatisfies_iff_of_readAtom hne_open hne_close hatom,
      leaves_iff_of_not_form (isForm_of_readAtom hatom)]
    tauto
  | fault room items outer rest token error hne_close hne_open hatom =>
    rw [readItems_fault hne_close hne_open hatom] at h
    cases h

/-- **The leaves of a form that is read** are what its tokens stand for, beside the names that
normal forms put in. -/
theorem leaves_readForm_iff [Stack] {tokens left : List String} {form : Node}
    (h : readForm tokens = (.ok form, left)) :
    ∃ taken, tokens = taken ++ left ∧
      (Leaves P form ↔ ∀ token ∈ taken, TokenSatisfies P token) := by
  cases tokens with
  | nil => cases h
  | cons token rest =>
    rw [readForm] at h
    split at h
    · next hopen =>
      subst hopen
      obtain ⟨taken, rfl, hiff⟩ := leaves_readItems_iff hnames h
      refine ⟨"(" :: taken, rfl, ?_⟩
      have hparen : TokenSatisfies P "(" := fun hne => absurd rfl hne
      rw [hiff, List.forall_mem_cons]
      simp [hparen]
    · cases h

/-- **The leaves of a program** are what its tokens stand for, beside the names that normal forms
put in. -/
theorem leaves_readForms_iff [Stack] {tokens : List String} {forms : List Node}
    (h : readForms tokens = .ok forms) :
    (∀ form ∈ forms, Leaves P form) ↔ ∀ token ∈ tokens, TokenSatisfies P token := by
  refine readForms_induction (motive := fun tokens forms =>
    (∀ form ∈ forms, Leaves P form) ↔ ∀ token ∈ tokens, TokenSatisfies P token) (by simp) ?_ h
  intro tokens left form forms _ hread ih
  obtain ⟨taken, rfl, hiff⟩ := leaves_readForm_iff hnames hread
  rw [List.forall_mem_cons, List.forall_mem_append, hiff, ih]

end Leaves

end EntityLisp
