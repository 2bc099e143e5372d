import EntityLisp.Proofs.Alike
import EntityLisp.Proofs.Results

/-!
# Arithmetic and comparison of nodes that are alike

Payloads that are alike are equal to the same payloads, and the folding operations give results
that are alike, or the same error. No operation tells closures apart but by their origins, and
these correspond one to one.

* `Node.Alike.same`: equality of nodes does not depend on which of two alike nodes is compared.
* `related_foldPayloads`, `related_compareValues`: arithmetic and `eq` on operands that are
  alike.
-/

namespace EntityLisp

open Except (Related)

variable {r : Correspondence}

namespace Node

/-! ### Equality -/

theorem Alike.count? {node node' : Node} (h : Alike r node node') : node.count? = node'.count? := by
  cases h <;> rfl

theorem Alike.className {node node' : Node} (h : Alike r node node') :
    node.className = node'.className := by
  cases h with
  | @ofEntities es es' joined => cases joined <;> rfl
  | _ => rfl

theorem Alike.sameClass {a a' b b' : Node} (ha : Alike r a a') (hb : Alike r b b') :
    a.sameClass b = a'.sameClass b' := by
  cases ha <;> cases hb <;> rfl

/-- Whatever is alike is the same as one node exactly if it is the same as one that is alike. -/
def SameAs (r : Correspondence) (a a' : Node) : Prop :=
  ∀ b b', Alike r b b' → a.same b = a'.same b'

theorem sameItems_eq {xs xs' ys ys' : List Node} (hxs : List.Forall₂ (SameAs r) xs xs')
    (hys : List.Forall₂ (Alike r) ys ys') : sameItems xs ys = sameItems xs' ys' := by
  induction hxs generalizing ys ys' with
  | nil => cases hys <;> simp [sameItems]
  | cons hx _ ih =>
    cases hys with
    | nil => simp [sameItems]
    | cons hy hys => rw [sameItems, sameItems, hx _ _ hy, ih hys]

theorem sameAttrs_eq {attrs attrs' others others' : Table String Node}
    (hattrs : Table.Pointwise (SameAs r) attrs attrs')
    (hothers : Table.Pointwise (Alike r) others others') :
    sameAttrs attrs others = sameAttrs attrs' others' := by
  induction hattrs with
  | nil => rw [sameAttrs, sameAttrs]
  | @cons attr attr' rest rest' hattr _ ih =>
    obtain ⟨name, value⟩ := attr
    obtain ⟨name', value'⟩ := attr'
    obtain ⟨rfl, hvalue⟩ := hattr
    rw [sameAttrs, sameAttrs, ih]
    have hget := hothers.get? name
    cases hother : Table.get? name others <;> cases hother' : Table.get? name others' <;>
      rw [hother, hother'] at hget <;> cases hget
    next h =>
      have hsame : value.same _ = value'.same _ := hvalue _ _ h
      simp only [hsame]

theorem sameEntity_eq {e e' other other' : Entity Node} (h : AlikeEntity r e e')
    (hpayload : SameAs r e.payload e'.payload)
    (hattrs : Table.Pointwise (SameAs r) e.attrs e'.attrs)
    (hother : AlikeEntity r other other') : sameEntity e other = sameEntity e' other' := by
  obtain ⟨kind, payload, attrs⟩ := e
  obtain ⟨kind', payload', attrs'⟩ := e'
  obtain rfl : kind = kind' := h.kind
  have hlength : attrs.length = attrs'.length := List.Forall₂.length_eq hattrs
  have hotherLength : other.attrs.length = other'.attrs.length :=
    List.Forall₂.length_eq hother.attrs
  rw [sameEntity, sameEntity, hother.kind, h.payload.sameClass hother.payload,
    hpayload _ _ hother.payload, hlength, hotherLength, sameAttrs_eq hattrs hother.attrs]

theorem sameEntities_eq {es es' others others' : List (Entity Node)}
    (hes : List.Forall₂ (fun e e' => SameAs r (.entity e) (.entity e')) es es')
    (hothers : List.Forall₂ (AlikeEntity r) others others') :
    sameEntities es others = sameEntities es' others' := by
  induction hes generalizing others others' with
  | nil => cases hothers <;> simp [sameEntities]
  | cons he _ ih =>
    cases hothers with
    | nil => simp [sameEntities]
    | cons hother hothers =>
      have hsame := he _ _ (alike_entity_iff.mpr hother)
      rw [same, same] at hsame
      rw [sameEntities, sameEntities, hsame, ih hothers]

/-- **Equality does not tell apart what is alike.** -/
theorem Alike.same {a a' b b' : Node} (ha : Alike r a a') (hb : Alike r b b') :
    a.same b = a'.same b' := by
  refine Alike.induction (motive := SameAs r) ?plain ?symbol ?form ?entity ?entities ?closure
    ha b b' hb
  case plain =>
    intro a ha b b' hb
    have hcount := hb.count?
    cases a with
    | bool | int | float => simp only [Node.same, sameCount, hcount]
    | nil | str | keyword => cases hb <;> simp [Node.same]
    | _ => cases ha
  case symbol =>
    intro name _ b b' hb
    cases hb <;> simp [Node.same]
  case form =>
    intro items items' _ ih b b' hb
    cases hb with
    | ofForm hlength heach =>
      have hitems := alike_form_iff.mp (.ofForm hlength heach)
      rw [Node.same, Node.same, sameItems_eq ih hitems]
    | _ => simp [Node.same]
  case entity =>
    intro e e' h ihpayload ihattrs b b' hb
    cases hb with
    | ofEntity hkind hpayload hnames hvalues =>
      have hother := alike_entity_iff.mp (.ofEntity hkind hpayload hnames hvalues)
      rw [Node.same, Node.same, sameEntity_eq h ihpayload ihattrs hother]
    | _ => simp [Node.same]
  case entities =>
    intro es es' joined _ ih b b' hb
    cases hb with
    | ofEntities hlength heach =>
      rw [Node.same, Node.same, sameEntities_eq ih (forall₂_alikeEntity hlength heach)]
    | _ => simp [Node.same]
  case closure =>
    intro c c' h _ _ b b' hb
    cases hb with
    | @ofClosure other other' hparams hreturns hfixed hbody horigin =>
      -- origins correspond one to one
      have horigins : (c.origin == other.origin) = (c'.origin == other'.origin) := by
        rw [h.origin, horigin, Bool.eq_iff_iff, beq_iff_eq, beq_iff_eq]
        exact r.injective.eq_iff.symm
      rw [Node.same, Node.same, horigins, h.fixed, hfixed]
    | _ => simp [Node.same]

theorem Alike.isNaN {node node' : Node} (h : Alike r node node') : node.isNaN = node'.isNaN := by
  refine Alike.induction (motive := fun node node' => node.isNaN = node'.isNaN) (fun _ _ => rfl)
    (fun _ _ => rfl) (fun _ _ _ _ => rfl) ?entity (fun _ _ _ _ _ => rfl) (fun _ _ _ _ _ => rfl) h
  rintro ⟨kind, payload, attrs⟩ ⟨kind', payload', attrs'⟩ _ ih _
  rw [Node.isNaN, Node.isNaN]
  exact ih

/-! ### Sequences -/

theorem forall₂_repeated {α : Type} {R : α → α → Prop} {items items' : List α}
    (h : List.Forall₂ R items items') (count : Nat) :
    List.Forall₂ R (List.replicate count items).flatten (List.replicate count items').flatten := by
  induction count with
  | zero => exact .nil
  | succ count ih =>
    rw [List.replicate_succ, List.replicate_succ, List.flatten_cons, List.flatten_cons]
    exact List.rel_append h ih

theorem related_repeatItems {α : Type} {R : α → α → Prop} {items items' : List α}
    (h : List.Forall₂ R items items') (count : Nat) :
    Related (List.Forall₂ R) (repeatItems items count) (repeatItems items' count) := by
  have hempty : items.isEmpty = items'.isEmpty := by
    cases h <;> rfl
  unfold repeatItems
  rw [hempty, h.length_eq]
  split
  · exact .ok .nil
  · split
    · exact .error _
    · exact .ok (forall₂_repeated h count)

theorem Alike.repetitions {node node' : Node} (h : Alike r node node') :
    node.repetitions = node'.repetitions := by
  have hname := h.className
  cases h with
  | bool | int => rfl
  | _ => simp only [Node.repetitions, hname]

theorem Alike.isSequence {node node' : Node} (h : Alike r node node') :
    node.isSequence = node'.isSequence := by
  cases h <;> rfl

theorem Alike.repeated {node node' : Node} (h : Alike r node node') (count : Nat) :
    Related (Alike r) (node.repeated count) (node'.repeated count) := by
  have hsame := h
  cases h with
  | str text =>
    refine Except.related_self fun value hvalue => ?_
    simp only [Node.repeated] at hvalue
    split at hvalue
    · cases hvalue
    · obtain ⟨chars, -, rfl⟩ := Except.map_eq_ok_iff.mp hvalue
      exact .str _
  | ofForm hlength heach =>
    exact (related_repeatItems (alike_form_iff.mp hsame) count).map fun _ _ h =>
      alike_form_iff.mpr h
  | ofEntities hlength heach =>
    exact (related_repeatItems (forall₂_alikeEntity hlength heach) count).map fun _ _ h =>
      alike_entities_iff.mpr ⟨rfl, h⟩
  | _ => exact .ok hsame

theorem related_multiply {x x' y y' : Node} (hx : Alike r x x') (hy : Alike r y y') :
    Related (Alike r) (x.multiply y) (x'.multiply y') := by
  unfold Node.multiply
  rw [hx.isSequence, hy.isSequence, hx.repetitions, hy.repetitions, hx.className, hy.className]
  split
  · refine Related.bind (Except.related_self fun _ _ => rfl) ?_
    rintro count _ rfl
    exact hx.repeated count
  · split
    · refine Related.bind (Except.related_self fun _ _ => rfl) ?_
      rintro count _ rfl
      exact hy.repeated count
    · exact .error _

theorem related_join {x x' y y' : Node} (hx : Alike r x x') (hy : Alike r y y') :
    Related (Alike r) (x.join y) (x'.join y') := by
  have hname := hy.className
  cases hx with
  | str s =>
    cases hy with
    | str t => exact .ok (.str _)
    | _ => simp only [Node.join, hname]; exact .error _
  | ofForm hlength heach =>
    cases hy with
    | ofForm hlength' heach' =>
      have hitems := alike_form_iff.mp (.ofForm hlength heach)
      have hitems' := alike_form_iff.mp (.ofForm hlength' heach')
      exact .ok (alike_form_iff.mpr (List.rel_append hitems hitems'))
    | _ => simp only [Node.join, hname]; exact .error _
  | ofEntities hlength heach =>
    cases hy with
    | ofEntities hlength' heach' =>
      have hes := forall₂_alikeEntity hlength heach
      have hes' := forall₂_alikeEntity hlength' heach'
      exact .ok (alike_entities_iff.mpr ⟨rfl, List.rel_append hes hes'⟩)
    | _ => simp only [Node.join, hname]; exact .error _
  | _ => simp only [Node.join, hname]; exact .error _

/-! ### Arithmetic -/

/-- **The operation on payloads that are alike.** -/
theorem related_apply (op : NumericOp) {x x' y y' : Node} (hx : Alike r x x')
    (hy : Alike r y y') : Related (Alike r) (op.apply x y) (op.apply x' y') := by
  have hsequences : Related (Alike r) (op.onSequences x y) (op.onSequences x' y') := by
    cases op with
    | add => exact related_join hx hy
    | sub =>
      simp only [NumericOp.onSequences, hx.className, hy.className]
      exact .error _
    | mul => exact related_multiply hx hy
  unfold NumericOp.apply
  rw [hx.count?, hy.count?]
  split
  · refine Except.related_self fun value hvalue => .plain ?_
    obtain ⟨number, -, rfl⟩ := Except.map_eq_ok_iff.mp hvalue
    cases number <;> rfl
  · exact hsequences

theorem Alike.toFloat {node node' : Node} (h : Alike r node node') :
    node.toFloat = node'.toFloat := by
  have hname := h.className
  cases h with
  | bool | int | float | str => rfl
  | _ => simp only [Node.toFloat, Node.count?, hname]

theorem related_numericResult {operands operands' : List (Entity Node)} {total total' : Node}
    (hoperands : List.Forall₂ (AlikeEntity r) operands operands') (htotal : Alike r total total') :
    Related (Alike r) (numericResult operands total) (numericResult operands' total') := by
  have hany : operands.any (·.kind == .float) = operands'.any (·.kind == .float) := by
    induction hoperands with
    | nil => rfl
    | cons h _ ih => rw [List.any_cons, List.any_cons, h.kind, ih]
  unfold numericResult
  rw [hany, htotal.toFloat]
  split
  · refine Except.related_self fun value hvalue => ?_
    obtain ⟨x, -, rfl⟩ := Except.map_eq_ok_iff.mp hvalue
    exact alike_entity_iff.mpr ⟨rfl, .plain rfl, .nil⟩
  · exact .ok (alike_entity_iff.mpr ⟨rfl, htotal, .nil⟩)

/-- **Arithmetic on operands that are alike.** -/
theorem related_foldPayloads (op : NumericOp) {first first' : Entity Node}
    {rest rest' : List (Entity Node)} (hfirst : AlikeEntity r first first')
    (hrest : List.Forall₂ (AlikeEntity r) rest rest') :
    Related (Alike r) (foldPayloads op first rest) (foldPayloads op first' rest') := by
  have hfold : ∀ (rest rest' : List (Entity Node)) (total total' : Node),
      List.Forall₂ (AlikeEntity r) rest rest' → Alike r total total' →
        Related (Alike r) (rest.foldlM (fun total operand => op.apply total operand.payload) total)
          (rest'.foldlM (fun total operand => op.apply total operand.payload) total') := by
    intro rest rest' total total' hrest htotal
    induction hrest generalizing total total' with
    | nil => exact .ok htotal
    | cons h _ ih =>
      exact (related_apply op htotal h.payload).bind fun next next' hnext => ih next next' hnext
  refine (hfold rest rest' _ _ hrest hfirst.payload).bind fun total total' htotal => ?_
  exact related_numericResult (.cons hfirst hrest) htotal

/-! ### Comparison -/

theorem related_comparable {node node' : Node} (h : Alike r node node') :
    Related (AlikeEntity r) (comparable node) (comparable node') := by
  have hdescribe := h.describe
  cases h with
  | @ofEntity e e' hkind hpayload hnames hvalues =>
    have hentity := alike_entity_iff.mp (.ofEntity hkind hpayload hnames hvalues)
    simp only [comparable, hentity.isError, hdescribe]
    split
    · exact .error _
    · exact .ok hentity
  | _ => simp only [comparable, hdescribe]; exact .error _

theorem equalEntities_eq_of_alike {a a' b b' : Entity Node} (ha : AlikeEntity r a a')
    (hb : AlikeEntity r b b') : equalEntities a b = equalEntities a' b' := by
  unfold equalEntities equalPayloads
  rw [ha.kind, hb.kind, ha.payload.same hb.payload, ha.payload.isNaN]

/-- **Comparison of values that are alike.** -/
theorem related_compareValues {a a' b b' : Node} (ha : Alike r a a') (hb : Alike r b b') :
    Related (Alike r) (compareValues a b) (compareValues a' b') := by
  refine (related_comparable ha).bind fun e e' he => ?_
  refine (related_comparable hb).map fun f f' hf => ?_
  rw [equalEntities_eq_of_alike he hf]
  exact alike_entity_iff.mpr ⟨rfl, .bool _, .nil⟩

end Node

end EntityLisp
