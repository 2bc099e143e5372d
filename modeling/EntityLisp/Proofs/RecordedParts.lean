import EntityLisp.Proofs.Ledger

/-!
# What is put together from recorded parts

A ledger records whatever evaluation puts together from nodes that it records: payloads that are
added or repeated, arguments that are bound, results that are checked, and the parts of forms that
are taken out of them or written into them.

* `Node.Recorded.apply`: **what an operation makes of payloads** is recorded.
* `Node.Recorded.bindArgument`: so is what is bound to a parameter.
-/

namespace EntityLisp

open Node Run

variable {ledger : Ledger}

/-! ### Lists of nodes -/

/-- The nodes of a list are recorded. -/
abbrev RecordedAll (ledger : Ledger) (nodes : List Node) : Prop :=
  ∀ node ∈ nodes, node.Recorded ledger

theorem RecordedAll.mono {later : Ledger} (hgrows : ledger.Grows later) {nodes : List Node}
    (h : RecordedAll ledger nodes) : RecordedAll later nodes :=
  fun node hnode => (h node hnode).mono hgrows

theorem recordedAll_nil : RecordedAll ledger [] := fun _ h => absurd h List.not_mem_nil

/-! ### Payloads -/

section Payloads

variable {x y z : Node}

theorem mem_of_mem_repeatItems {α : Type} {items repeated : List α} {count : Nat}
    (h : repeatItems items count = .ok repeated) {item : α} (hitem : item ∈ repeated) :
    item ∈ items := by
  unfold repeatItems at h
  split at h
  · cases h
    exact absurd hitem List.not_mem_nil
  · split at h
    · cases h
    · cases h
      obtain ⟨copy, hcopy, hmem⟩ := List.mem_flatten.mp hitem
      rwa [(List.mem_replicate.mp hcopy).2] at hmem

theorem Node.Recorded.repeated (hx : x.Recorded ledger) {count : Nat}
    (h : x.repeated count = .ok z) : z.Recorded ledger := by
  unfold Node.repeated at h
  split at h
  · split at h
    · cases h
    · obtain ⟨chars, -, rfl⟩ := Except.map_eq_ok_iff.mp h
      exact .plain rfl
  · obtain ⟨copies, hcopies, rfl⟩ := Except.map_eq_ok_iff.mp h
    exact .form fun item hitem =>
      recorded_form_iff.mp hx item (mem_of_mem_repeatItems hcopies hitem)
  · obtain ⟨copies, hcopies, rfl⟩ := Except.map_eq_ok_iff.mp h
    exact .entities fun e he =>
      recorded_entities_iff.mp hx e (mem_of_mem_repeatItems hcopies he)
  · cases h
    exact hx

theorem Node.Recorded.multiply (hx : x.Recorded ledger) (hy : y.Recorded ledger)
    (h : x.multiply y = .ok z) : z.Recorded ledger := by
  unfold Node.multiply at h
  split at h
  · obtain ⟨count, -, hcopies⟩ := Except.bind_eq_ok_iff.mp h
    exact hx.repeated hcopies
  · split at h
    · obtain ⟨count, -, hcopies⟩ := Except.bind_eq_ok_iff.mp h
      exact hy.repeated hcopies
    · cases h

theorem Node.Recorded.join (hx : x.Recorded ledger) (hy : y.Recorded ledger)
    (h : x.join y = .ok z) : z.Recorded ledger := by
  unfold Node.join at h
  split at h
  · cases h
    exact .plain rfl
  · cases h
    exact .form fun item hitem => (List.mem_append.mp hitem).elim
      (recorded_form_iff.mp hx item) (recorded_form_iff.mp hy item)
  · cases h
    exact .entities fun e he => (List.mem_append.mp he).elim
      (recorded_entities_iff.mp hx e) (recorded_entities_iff.mp hy e)
  all_goals cases h

/-- **What an operation makes of payloads** is made of parts of them. -/
theorem Node.Recorded.apply (op : NumericOp) (hx : x.Recorded ledger) (hy : y.Recorded ledger)
    (h : op.apply x y = .ok z) : z.Recorded ledger := by
  unfold NumericOp.apply at h
  split at h
  · obtain ⟨number, -, rfl⟩ := Except.map_eq_ok_iff.mp h
    cases number <;> exact .plain rfl
  · cases op with
    | add => exact hx.join hy h
    | sub => cases h
    | mul => exact hx.multiply hy h

theorem recorded_foldPayloads (op : NumericOp) {first : Entity Node} {rest : List (Entity Node)}
    (hfirst : (Node.entity first).Recorded ledger)
    (hrest : ∀ e ∈ rest, (Node.entity e).Recorded ledger)
    (h : foldPayloads op first rest = .ok z) : z.Recorded ledger := by
  obtain ⟨total, hfold, hresult⟩ := Except.bind_eq_ok_iff.mp h
  have htotal : ∀ (operands : List (Entity Node)) (start : Node), start.Recorded ledger →
      (∀ e ∈ operands, (Node.entity e).Recorded ledger) →
      operands.foldlM (fun total operand => op.apply total operand.payload) start = .ok total →
        total.Recorded ledger := by
    intro operands
    induction operands with
    | nil =>
      rintro start hstart - ⟨⟩
      exact hstart
    | cons operand operands ih =>
      intro start hstart hoperands hfold
      rw [List.forall_mem_cons] at hoperands
      obtain ⟨next, hnext, hfold⟩ := Except.bind_eq_ok_iff.mp hfold
      exact ih next (hstart.apply op (recorded_entity_iff.mp hoperands.1).1 hnext) hoperands.2
        hfold
  have hrecorded := htotal rest first.payload (recorded_entity_iff.mp hfirst).1 hrest hfold
  unfold numericResult at hresult
  split at hresult
  · obtain ⟨x, -, rfl⟩ := Except.map_eq_ok_iff.mp hresult
    exact recorded_plain .float (.plain rfl)
  · cases hresult
    exact recorded_plain .integer hrecorded

theorem recorded_compareValues (h : compareValues x y = .ok z) : z.Recorded ledger := by
  obtain ⟨a, -, h⟩ := Except.bind_eq_ok_iff.mp h
  obtain ⟨b, -, rfl⟩ := Except.map_eq_ok_iff.mp h
  exact recorded_plain .boolean (.plain rfl)

theorem Node.Recorded.lentPayload (hx : x.Recorded ledger) : x.lentPayload.Recorded ledger := by
  unfold Node.lentPayload
  split
  · split
    · exact hx
    · exact (recorded_entity_iff.mp hx).1
  · exact hx

theorem Node.Recorded.bindArgument (hx : x.Recorded ledger) {name : String} {type : TypeTag}
    (h : bindArgument name type x = .ok (.ok z)) : z.Recorded ledger := by
  have hcoerce : ∀ {kind : TypeTag} {coerced : Node}, coerce kind x = .ok coerced →
      coerced.Recorded ledger := by
    intro kind coerced h
    unfold coerce at h
    split at h
    · cases h
      exact recorded_plain _ (.plain rfl)
    · cases h
      exact recorded_plain _ (.plain rfl)
    · split at h
      · cases h
        exact recorded_plain _ (.plain rfl)
      · cases h
    · cases h
      exact recorded_plain _ (.plain rfl)
    · cases h
      exact recorded_plain _ (.plain rfl)
    · cases h
      exact hx
  unfold EntityLisp.bindArgument at h
  split at h
  · cases h
  · obtain ⟨coerced, hcoerced, heq⟩ := Except.map_eq_ok_iff.mp h
    split at heq
    · cases heq
      unfold argumentFor at hcoerced
      split at hcoerced
      · cases hcoerced
        exact hx
      · cases hcoerced
        exact hx
      · exact hcoerce (Except.mapError_eq_ok_iff.mp hcoerced)
    · cases heq

theorem Node.Recorded.checkResult (returns : TypeTag) (hx : x.Recorded ledger) :
    (checkResult returns x).Recorded ledger := by
  unfold EntityLisp.checkResult
  split
  · exact hx
  · split
    · exact hx
    · exact Failure.recorded_toNode _
  · exact Failure.recorded_toNode _

end Payloads

/-! ### Parts of forms -/

theorem recorded_of_attributePairs? {attrs? : Option Node} {pairs : List Node}
    (hattrs : ∀ attrs, attrs? = some attrs → attrs.Recorded ledger)
    (h : attributePairs? attrs? = some pairs) : ∀ node ∈ pairs, node.Recorded ledger := by
  unfold attributePairs? at h
  split at h
  · split at h
    · cases h
      have hall := recorded_form_iff.mp (hattrs _ rfl)
      exact fun node hnode => hall node (List.mem_cons_of_mem _ hnode)
    · cases h
  · cases h

theorem recorded_of_readBindings {nodes : List Node} {bindings : List (String × Node)}
    (hnodes : ∀ node ∈ nodes, node.Recorded ledger) (h : readBindings nodes = .ok bindings) :
    ∀ binding ∈ bindings, binding.2.Recorded ledger := by
  intro binding hbinding
  obtain ⟨items, hitems, hvalue⟩ := exists_mem_of_readBindings h binding hbinding
  exact recorded_form_iff.mp (hnodes _ hitems) _ hvalue

theorem recorded_foldAttributes {arguments : List Node}
    (h : ∀ a ∈ arguments, a.Recorded ledger) :
    ∀ a ∈ foldAttributes arguments, a.Recorded ledger := by
  unfold foldAttributes
  split
  · next kind value first rest =>
    split
    · exact h
    · rw [List.forall_mem_cons, List.forall_mem_cons] at h
      have hmap : ∀ item ∈ .symbol mapHead :: first :: rest, item.Recorded ledger :=
        List.forall_mem_cons.mpr ⟨.symbol mapHead, h.2.2⟩
      simpa using ⟨h.1, h.2.1, Node.Recorded.form hmap⟩
  · exact h

theorem recorded_roleArguments (role : Role) {value : Node} {attrs : List Node}
    (hvalue : value.Recorded ledger) (hattrs : ∀ node ∈ attrs, node.Recorded ledger) :
    ∀ a ∈ roleArguments role value attrs, a.Recorded ledger := by
  have hmap : ∀ item ∈ .symbol mapHead :: attrs ++ [.keyword "role", .str role.value],
      item.Recorded ledger := by
    intro item hitem
    rcases List.mem_append.mp hitem with hitem | hitem
    · exact List.forall_mem_cons.mpr ⟨.symbol mapHead, hattrs⟩ item hitem
    · simp only [List.mem_cons, List.not_mem_nil, or_false] at hitem
      rcases hitem with rfl | rfl <;> exact .plain rfl
  intro a ha
  simp only [roleArguments, List.mem_cons, List.not_mem_nil, or_false] at ha
  rcases ha with rfl | rfl | rfl
  · exact .symbol _
  · exact hvalue
  · exact .form hmap

theorem eq_entity_of_listElement {position : Nat} {value : Node} {e : Entity Node}
    (h : listElement position value = .ok e) : value = .entity e := by
  unfold listElement at h
  split at h
  · split at h
    · cases h
      rfl
    · cases h
  · cases h

theorem eq_entity_of_numericOperand {op : NumericOp} {position : Nat} {value : Node}
    {e : Entity Node} (h : numericOperand op position value = .ok e) : value = .entity e := by
  unfold numericOperand at h
  split at h
  · split at h
    · cases h
      rfl
    · cases h
  · cases h

end EntityLisp
