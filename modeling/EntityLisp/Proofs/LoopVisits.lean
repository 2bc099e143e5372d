import EntityLisp.Proofs.Ensures
import EntityLisp.Proofs.Values

/-!
# The visits of loops

A loop over nodes evaluates one after the other, and which of these evaluations, its visits, it
comes to depends on what the ones before have given. Each loop has a predicate for its visits: the
nodes before have been evaluated, in the same loop, without a failure. The lemmas on the first step
of a loop (`operandVisit_cons_iff` and the like) and on its end take the visits apart as the loop
itself goes.
-/

namespace EntityLisp

open Run

/-- **A visit:** an evaluation that an action makes, inside an application or not. -/
structure Visit where
  inside : Bool
  node : Node
  state : RunState

/-! ### Steps of loops -/

section Steps

variable {eval : Node → Run Node} {state : RunState}

theorem evalOperands_cons {β : Type} (accept : Nat → Node → Except Failure β) (position : Nat)
    (argument : Node) (rest : List Node) : evalOperands eval accept position (argument :: rest) =
      eval argument >>= fun value =>
        match accept position value with
        | .error failure => pure (.error failure)
        | .ok accepted => evalOperands eval accept (position + 1) rest >>= fun others =>
            pure (others.map (accepted :: ·)) := rfl

theorem evalOperands_cons_eq_ok_iff {β : Type} {accept : Nat → Node → Except Failure β}
    {position : Nat} {argument : Node} {rest : List Node} {accepted : List β} {last : RunState} :
    evalOperands eval accept position (argument :: rest) state = .ok (.ok accepted) last ↔
      ∃ value between kept others, eval argument state = .ok value between ∧
        accept position value = .ok kept ∧
          evalOperands eval accept (position + 1) rest between = .ok (.ok others) last ∧
            accepted = kept :: others := by
  rw [evalOperands_cons, bind_eq_ok_iff]
  constructor
  · rintro ⟨value, between, hvalue, h⟩
    cases hkept : accept position value with
    | error failure =>
      rw [hkept] at h
      cases h
    | ok kept =>
      rw [hkept] at h
      obtain ⟨result, final, hothers, heq⟩ := bind_eq_ok_iff.mp h
      cases result with
      | error failure => cases heq
      | ok others =>
        cases heq
        exact ⟨value, between, kept, others, hvalue, hkept, hothers, rfl⟩
  · rintro ⟨value, between, kept, others, hvalue, hkept, hothers, rfl⟩
    refine ⟨value, between, hvalue, ?_⟩
    simp only [hkept]
    rw [bind_of_ok hothers]
    rfl

theorem evalValues_of_short {pairs : List Node} (hshort : ∀ k i r, pairs = k :: i :: r → False) :
    evalValues eval pairs = pure [] := by
  unfold evalValues
  split
  · next key item rest => exact absurd rfl (hshort key item rest)
  · rfl

theorem enterAttributes_of_short {attrs : Table String Node} {pairs : List Node}
    (hshort : ∀ k i r, pairs = k :: i :: r → False) :
    enterAttributes eval attrs pairs = pure (.ok attrs) := by
  unfold enterAttributes
  split
  · next key item rest => exact absurd rfl (hshort key item rest)
  · rfl

/-- Where no two nodes are left, no key with a value stands behind an even number of nodes. -/
theorem ne_append_of_short {pairs before rest : List Node} {key item : Node}
    (hshort : ∀ k i r, pairs = k :: i :: r → False) (heven : before.length % 2 = 0) :
    pairs ≠ before ++ key :: item :: rest := by
  rintro rfl
  match before with
  | [] => exact hshort _ _ _ rfl
  | [_] => cases heven
  | _ :: _ :: before => exact hshort _ _ _ rfl

theorem evalValues_cons (key item : Node) (rest : List Node) :
    evalValues eval (key :: item :: rest) = eval item >>= fun value =>
      evalValues eval rest >>= fun others => pure (key :: value :: others) := rfl

theorem enterAttributes_cons {name : String} {key : Node} (hkey : key.mapKey? = some name)
    (attrs : Table String Node) (item : Node) (rest : List Node) :
    enterAttributes eval attrs (key :: item :: rest) =
      attributeValue eval name item >>= fun result =>
        match result with
        | .error failure => pure (.error failure)
        | .ok value => enterAttributes eval (Table.put name value attrs) rest := by
  rw [enterAttributes]
  split
  · next hnone =>
    rw [hkey] at hnone
    cases hnone
  · next other hother =>
    rw [hkey] at hother
    cases hother
    rfl

theorem enterAttributes_of_not_key {attrs : Table String Node} {key : Node}
    (hkey : key.mapKey? = none) (item : Node) (rest : List Node) :
    enterAttributes eval attrs (key :: item :: rest) = pure (.error (.invalidKey key.shown)) := by
  rw [enterAttributes, hkey]

theorem bindInOrder_cons (name : String) (value : Node) (rest : List (String × Node)) :
    bindInOrder eval ((name, value) :: rest) = eval value >>= fun value =>
      scope >>= fun scope => setScope (scope.define name value) >>= fun _ =>
        bindInOrder eval rest := rfl

theorem evalSequence_cons (value item : Node) (rest : List Node) :
    evalSequence eval value (item :: rest) = eval item >>= fun next =>
      evalSequence eval next rest := rfl

theorem Run.ofResult_eq_ok_iff {α : Type} {result : Except EvalError α} {value : α}
    {last : RunState} :
    ofResult result state = .ok value last ↔ result = .ok value ∧ last = state := by
  cases result with
  | ok value' =>
    constructor
    · rintro ⟨⟩
      exact ⟨rfl, rfl⟩
    · rintro ⟨⟨⟩, rfl⟩
      rfl
  | error stop =>
    constructor
    · rintro ⟨⟩
    · rintro ⟨⟨⟩, -⟩

theorem evalArguments_cons (name : String) (type : TypeTag) (params : List (String × TypeTag))
    (argument : Node) (arguments : List Node) :
    evalArguments eval ((name, type) :: params) (argument :: arguments) =
      eval argument >>= fun value => ofResult (bindArgument name type value) >>= fun result =>
        match result with
        | .error failure => pure (.error failure)
        | .ok value => evalArguments eval params arguments >>= fun others =>
            pure (others.map ((name, value) :: ·)) := rfl

theorem evalArguments_cons_eq_ok_iff {name : String} {type : TypeTag}
    {params : List (String × TypeTag)} {argument : Node} {arguments : List Node}
    {bindings : List (String × Node)} {last : RunState} :
    evalArguments eval ((name, type) :: params) (argument :: arguments) state =
        .ok (.ok bindings) last ↔
      ∃ value between bound others, eval argument state = .ok value between ∧
        bindArgument name type value = .ok (.ok bound) ∧
          evalArguments eval params arguments between = .ok (.ok others) last ∧
            bindings = (name, bound) :: others := by
  rw [evalArguments_cons, bind_eq_ok_iff]
  constructor
  · rintro ⟨value, between, hvalue, h⟩
    obtain ⟨result, between', hresult, h⟩ := bind_eq_ok_iff.mp h
    obtain ⟨hbound, rfl⟩ := ofResult_eq_ok_iff.mp hresult
    cases result with
    | error failure => cases h
    | ok bound =>
      obtain ⟨result, final, hothers, heq⟩ := bind_eq_ok_iff.mp h
      cases result with
      | error failure => cases heq
      | ok others =>
        cases heq
        exact ⟨value, _, bound, others, hvalue, hbound, hothers, rfl⟩
  · rintro ⟨value, between, bound, others, hvalue, hbound, hothers, rfl⟩
    refine ⟨value, between, hvalue, ?_⟩
    rw [bind_of_ok (ofResult_eq_ok_iff.mpr ⟨hbound, rfl⟩)]
    show (evalArguments eval params arguments >>= _) between = _
    rw [bind_of_ok hothers]
    rfl

end Steps

/-! ### Splitting lists -/

/-- A list that begins with an element is split in front of it or behind it. -/
theorem exists_split_cons_iff {α : Type} {first : α} {others : List α}
    {P : List α → α → List α → Prop} :
    (∃ before item rest, first :: others = before ++ item :: rest ∧ P before item rest) ↔
      P [] first others ∨
        ∃ before item rest, others = before ++ item :: rest ∧ P (first :: before) item rest := by
  constructor
  · rintro ⟨before, item, rest, heq, h⟩
    cases before with
    | nil =>
      cases heq
      exact Or.inl h
    | cons other before =>
      cases heq
      exact Or.inr ⟨before, item, rest, rfl, h⟩
  · rintro (h | ⟨before, item, rest, rfl, h⟩)
    · exact ⟨[], first, others, rfl, h⟩
    · exact ⟨first :: before, item, rest, rfl, h⟩

/-- Of keys and values, taken in turn, the first value is split off, or one behind it. -/
theorem exists_split_pair_iff {α : Type} {key value : α} {others : List α}
    {P : List α → α → α → Prop} :
    (∃ before k item rest, key :: value :: others = before ++ k :: item :: rest ∧
        before.length % 2 = 0 ∧ P before k item) ↔
      P [] key value ∨ ∃ before k item rest, others = before ++ k :: item :: rest ∧
        before.length % 2 = 0 ∧ P (key :: value :: before) k item := by
  constructor
  · rintro ⟨before, k, item, rest, heq, heven, h⟩
    match before with
    | [] =>
      cases heq
      exact Or.inl h
    | [_] => cases heven
    | _ :: _ :: before =>
      cases heq
      simp only [List.length_cons] at heven
      exact Or.inr ⟨before, k, item, rest, rfl, by omega, h⟩
  · rintro (h | ⟨before, k, item, rest, rfl, heven, h⟩)
    · exact ⟨[], key, value, others, rfl, rfl, h⟩
    · refine ⟨key :: value :: before, k, item, rest, rfl, ?_, h⟩
      simp only [List.length_cons]
      omega

/-- Two lists are split at the same place, in front of their first elements or behind them. -/
theorem exists_split_both_iff {α β : Type} {a : α} {as : List α} {b : β} {bs : List β}
    {P : List α → List β → β → Prop} :
    (∃ earlier a' later before b' rest, a :: as = earlier ++ a' :: later ∧
        b :: bs = before ++ b' :: rest ∧ earlier.length = before.length ∧ P earlier before b') ↔
      P [] [] b ∨ ∃ earlier a' later before b' rest, as = earlier ++ a' :: later ∧
        bs = before ++ b' :: rest ∧ earlier.length = before.length ∧
          P (a :: earlier) (b :: before) b' := by
  constructor
  · rintro ⟨earlier, a', later, before, b', rest, has, hbs, haligned, h⟩
    match earlier, before with
    | [], [] =>
      cases hbs
      exact Or.inl h
    | _ :: earlier, _ :: before =>
      cases has
      cases hbs
      exact Or.inr ⟨earlier, a', later, before, b', rest, rfl, rfl, Nat.succ.inj haligned, h⟩
  · rintro (h | ⟨earlier, a', later, before, b', rest, rfl, rfl, haligned, h⟩)
    · exact ⟨[], a, as, [], b, bs, rfl, rfl, rfl, h⟩
    · exact ⟨a :: earlier, a', later, b :: before, b', rest, rfl, rfl,
        congrArg (· + 1) haligned, h⟩

/-! ### Which visits a loop makes -/

/-- **The visits of operands:** those behind accepted ones. -/
def OperandVisit (eval : Node → Run Node) (accept : Nat → Node → Except Failure (Entity Node))
    (position : Nat) (arguments : List Node) (start : RunState) (v : Visit) : Prop :=
  ∃ before argument rest, arguments = before ++ argument :: rest ∧ ∃ es reached,
    evalOperands eval accept position before start = .ok (.ok es) reached ∧
      v = ⟨false, argument, reached⟩

/-- **The visits of keys and values:** the values, in turn. -/
def ValueVisit (eval : Node → Run Node) (pairs : List Node) (start : RunState) (v : Visit) : Prop :=
  ∃ before key item rest, pairs = before ++ key :: item :: rest ∧ before.length % 2 = 0 ∧
    ∃ keyed reached, evalValues eval before start = .ok keyed reached ∧ v = ⟨false, item, reached⟩

/-- **The visits of keys and values that are entered:** the adjectives among the values. -/
def AdjectiveVisit (eval : Node → Run Node) (attrs : Table String Node) (pairs : List Node)
    (start : RunState) (v : Visit) : Prop :=
  ∃ before key item rest, pairs = before ++ key :: item :: rest ∧ before.length % 2 = 0 ∧
    ∃ entered reached, enterAttributes eval attrs before start = .ok (.ok entered) reached ∧
      key.mapKey? = some adjectiveKey ∧ v = ⟨false, item, reached⟩

/-- **The visits of bindings:** their values, each where those before it are bound. -/
def BindingVisit (eval : Node → Run Node) (bindings : List (String × Node)) (start : RunState)
    (v : Visit) : Prop :=
  ∃ before binding rest, bindings = before ++ binding :: rest ∧ ∃ reached,
    bindInOrder eval before start = .ok () reached ∧ v = ⟨false, binding.2, reached⟩

/-- **The visits of a sequence:** its nodes, in turn. -/
def SequenceVisit (eval : Node → Run Node) (value : Node) (nodes : List Node) (start : RunState)
    (v : Visit) : Prop :=
  ∃ before item rest, nodes = before ++ item :: rest ∧ ∃ last reached,
    evalSequence eval value before start = .ok last reached ∧ v = ⟨false, item, reached⟩

/-- **The visits of the arguments of an application,** as long as they fit. -/
def ArgumentVisit (argEval : Node → Run Node) (params : List (String × TypeTag))
    (arguments : List Node) (start : RunState) (v : Visit) : Prop :=
  ∃ earlier param later before argument rest, params = earlier ++ param :: later ∧
    arguments = before ++ argument :: rest ∧ earlier.length = before.length ∧
      ∃ bindings reached, evalArguments argEval earlier before start =
        .ok (.ok bindings) reached ∧ v = ⟨true, argument, reached⟩

section LoopVisits

variable {eval : Node → Run Node} {start : RunState} {v : Visit}

theorem operandVisit_cons_iff {accept : Nat → Node → Except Failure (Entity Node)}
    {position : Nat} {argument : Node} {rest : List Node} :
    OperandVisit eval accept position (argument :: rest) start v ↔
      v = ⟨false, argument, start⟩ ∨ ∃ value between, eval argument start = .ok value between ∧
        ∃ kept, accept position value = .ok kept ∧
          OperandVisit eval accept (position + 1) rest between v := by
  refine exists_split_cons_iff.trans (or_congr ⟨?_, ?_⟩ ⟨?_, ?_⟩)
  · rintro ⟨es, reached, ⟨⟩, rfl⟩
    rfl
  · rintro rfl
    exact ⟨[], start, rfl, rfl⟩
  · rintro ⟨before, item, others, hsplit, es, reached, hbefore, rfl⟩
    obtain ⟨value, between, kept, es, hvalue, hkept, hbefore, -⟩ :=
      evalOperands_cons_eq_ok_iff.mp hbefore
    exact ⟨value, between, hvalue, kept, hkept, before, item, others, hsplit, es, reached, hbefore,
      rfl⟩
  · rintro ⟨value, between, hvalue, kept, hkept, before, item, others, hsplit, es, reached,
      hbefore, rfl⟩
    exact ⟨before, item, others, hsplit, kept :: es, reached, evalOperands_cons_eq_ok_iff.mpr
      ⟨value, between, kept, es, hvalue, hkept, hbefore, rfl⟩, rfl⟩

theorem not_operandVisit_nil {accept : Nat → Node → Except Failure (Entity Node)}
    {position : Nat} : ¬OperandVisit eval accept position [] start v := by
  rintro ⟨before, argument, rest, hsplit, -⟩
  simp at hsplit

theorem valueVisit_cons_iff {key item : Node} {rest : List Node} :
    ValueVisit eval (key :: item :: rest) start v ↔
      v = ⟨false, item, start⟩ ∨
        ∃ value between, eval item start = .ok value between ∧ ValueVisit eval rest between v := by
  refine exists_split_pair_iff.trans (or_congr ⟨?_, ?_⟩ ⟨?_, ?_⟩)
  · rintro ⟨keyed, reached, ⟨⟩, rfl⟩
    rfl
  · rintro rfl
    exact ⟨[], start, rfl, rfl⟩
  · rintro ⟨before, k, i, others, hsplit, heven, keyed, reached, hbefore, rfl⟩
    rw [evalValues_cons, bind_eq_ok_iff] at hbefore
    obtain ⟨value, between, hvalue, hbefore⟩ := hbefore
    obtain ⟨keyed, last, hbefore, hlast⟩ := bind_eq_ok_iff.mp hbefore
    cases hlast
    exact ⟨value, between, hvalue, before, k, i, others, hsplit, heven, keyed, _, hbefore, rfl⟩
  · rintro ⟨value, between, hvalue, before, k, i, others, hsplit, heven, keyed, reached, hbefore,
      rfl⟩
    refine ⟨before, k, i, others, hsplit, heven, key :: value :: keyed, reached, ?_, rfl⟩
    rw [evalValues_cons, bind_of_ok hvalue, bind_of_ok hbefore]
    rfl

theorem not_valueVisit_of_short {pairs : List Node}
    (hshort : ∀ k i r, pairs = k :: i :: r → False) : ¬ValueVisit eval pairs start v := by
  rintro ⟨before, key, item, rest, hsplit, heven, -⟩
  exact ne_append_of_short hshort heven hsplit

theorem adjectiveVisit_cons_iff {attrs : Table String Node} {key item : Node} {rest : List Node}
    {name : String} (hkey : key.mapKey? = some name) :
    AdjectiveVisit eval attrs (key :: item :: rest) start v ↔
      (name = adjectiveKey ∧ v = ⟨false, item, start⟩) ∨
        ∃ result between, attributeValue eval name item start = .ok result between ∧
          ∃ value, result = .ok value ∧
            AdjectiveVisit eval (Table.put name value attrs) rest between v := by
  refine exists_split_pair_iff.trans (or_congr ⟨?_, ?_⟩ ⟨?_, ?_⟩)
  · rintro ⟨entered, reached, ⟨⟩, hadjective, rfl⟩
    rw [hkey] at hadjective
    cases hadjective
    exact ⟨rfl, rfl⟩
  · rintro ⟨rfl, rfl⟩
    exact ⟨attrs, start, rfl, hkey, rfl⟩
  · rintro ⟨before, k, i, others, hsplit, heven, entered, reached, hbefore, hadjective, rfl⟩
    rw [enterAttributes_cons hkey, bind_eq_ok_iff] at hbefore
    obtain ⟨result, between, hresult, hbefore⟩ := hbefore
    cases result with
    | error failure => cases hbefore
    | ok value =>
      exact ⟨_, between, hresult, value, rfl, before, k, i, others, hsplit, heven, entered,
        reached, hbefore, hadjective, rfl⟩
  · rintro ⟨result, between, hresult, value, rfl, before, k, i, others, hsplit, heven, entered,
      reached, hbefore, hadjective, rfl⟩
    refine ⟨before, k, i, others, hsplit, heven, entered, reached, ?_, hadjective, rfl⟩
    rw [enterAttributes_cons hkey, bind_of_ok hresult]
    exact hbefore

/-- A node that is no key ends the loop. -/
theorem not_adjectiveVisit_of_not_key {attrs : Table String Node} {key item : Node}
    {rest : List Node} (hkey : key.mapKey? = none) :
    ¬AdjectiveVisit eval attrs (key :: item :: rest) start v := by
  unfold AdjectiveVisit
  rw [exists_split_pair_iff]
  rintro (⟨entered, reached, -, hadjective, -⟩ | ⟨before, k, i, others, -, -, entered, reached,
    hbefore, -⟩)
  · rw [hkey] at hadjective
    cases hadjective
  · rw [enterAttributes_of_not_key hkey] at hbefore
    cases hbefore

theorem not_adjectiveVisit_of_short {attrs : Table String Node} {pairs : List Node}
    (hshort : ∀ k i r, pairs = k :: i :: r → False) :
    ¬AdjectiveVisit eval attrs pairs start v := by
  rintro ⟨before, key, item, rest, hsplit, heven, -⟩
  exact ne_append_of_short hshort heven hsplit

theorem bindingVisit_cons_iff {name : String} {value : Node} {rest : List (String × Node)} :
    BindingVisit eval ((name, value) :: rest) start v ↔
      v = ⟨false, value, start⟩ ∨ ∃ result between, eval value start = .ok result between ∧
        BindingVisit eval rest (between.inScope (between.scope.define name result)) v := by
  refine exists_split_cons_iff.trans (or_congr ⟨?_, ?_⟩ ⟨?_, ?_⟩)
  · rintro ⟨reached, ⟨⟩, rfl⟩
    rfl
  · rintro rfl
    exact ⟨start, rfl, rfl⟩
  · rintro ⟨before, binding, others, hsplit, reached, hbefore, rfl⟩
    rw [bindInOrder_cons, bind_eq_ok_iff] at hbefore
    obtain ⟨result, between, hresult, hbefore⟩ := hbefore
    exact ⟨result, between, hresult, before, binding, others, hsplit, reached, hbefore, rfl⟩
  · rintro ⟨result, between, hresult, before, binding, others, hsplit, reached, hbefore, rfl⟩
    refine ⟨before, binding, others, hsplit, reached, ?_, rfl⟩
    rw [bindInOrder_cons, bind_of_ok hresult]
    exact hbefore

theorem not_bindingVisit_nil : ¬BindingVisit eval [] start v := by
  rintro ⟨before, binding, rest, hsplit, -⟩
  simp at hsplit

theorem sequenceVisit_cons_iff {value node : Node} {rest : List Node} :
    SequenceVisit eval value (node :: rest) start v ↔
      v = ⟨false, node, start⟩ ∨ ∃ next between, eval node start = .ok next between ∧
        SequenceVisit eval next rest between v := by
  refine exists_split_cons_iff.trans (or_congr ⟨?_, ?_⟩ ⟨?_, ?_⟩)
  · rintro ⟨last, reached, ⟨⟩, rfl⟩
    rfl
  · rintro rfl
    exact ⟨value, start, rfl, rfl⟩
  · rintro ⟨before, item, others, hsplit, last, reached, hbefore, rfl⟩
    rw [evalSequence_cons, bind_eq_ok_iff] at hbefore
    obtain ⟨next, between, hnext, hbefore⟩ := hbefore
    exact ⟨next, between, hnext, before, item, others, hsplit, last, reached, hbefore, rfl⟩
  · rintro ⟨next, between, hnext, before, item, others, hsplit, last, reached, hbefore, rfl⟩
    refine ⟨before, item, others, hsplit, last, reached, ?_, rfl⟩
    rw [evalSequence_cons, bind_of_ok hnext]
    exact hbefore

theorem not_sequenceVisit_nil {value : Node} : ¬SequenceVisit eval value [] start v := by
  rintro ⟨before, item, rest, hsplit, -⟩
  simp at hsplit

theorem argumentVisit_cons_iff {name : String} {type : TypeTag}
    {params : List (String × TypeTag)} {argument : Node} {arguments : List Node} :
    ArgumentVisit eval ((name, type) :: params) (argument :: arguments) start v ↔
      v = ⟨true, argument, start⟩ ∨ ∃ value between, eval argument start = .ok value between ∧
        ∃ bound, bindArgument name type value = .ok (.ok bound) ∧
          ArgumentVisit eval params arguments between v := by
  refine exists_split_both_iff.trans (or_congr ⟨?_, ?_⟩ ⟨?_, ?_⟩)
  · rintro ⟨bindings, reached, ⟨⟩, rfl⟩
    rfl
  · rintro rfl
    exact ⟨[], start, rfl, rfl⟩
  · rintro ⟨earlier, param, later, before, item, rest, hparams, hsplit, haligned, bindings,
      reached, hbefore, rfl⟩
    obtain ⟨value, between, bound, bindings, hvalue, hbound, hbefore, -⟩ :=
      evalArguments_cons_eq_ok_iff.mp hbefore
    exact ⟨value, between, hvalue, bound, hbound, earlier, param, later, before, item, rest,
      hparams, hsplit, haligned, bindings, reached, hbefore, rfl⟩
  · rintro ⟨value, between, hvalue, bound, hbound, earlier, param, later, before, item, rest,
      hparams, hsplit, haligned, bindings, reached, hbefore, rfl⟩
    exact ⟨earlier, param, later, before, item, rest, hparams, hsplit, haligned,
      (name, bound) :: bindings, reached, evalArguments_cons_eq_ok_iff.mpr
        ⟨value, between, bound, bindings, hvalue, hbound, hbefore, rfl⟩, rfl⟩

end LoopVisits

end EntityLisp
