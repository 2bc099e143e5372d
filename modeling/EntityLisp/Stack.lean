/-!
# The stack

Reading a form goes into the forms inside it, and so do writing and evaluating it; each takes up
stack as it goes deeper. A `Stack` says how deep each of them can go. What holds does so on every
stack; a stack of a thousand frames serves where programs are run.
-/

namespace EntityLisp

/-- The depth limit that holds unless another is set. -/
def defaultMaxDepth : Nat := 200

/-- **What the stack can hold.** Every form counts as much as one of those that take up most. -/
class Stack where
  /-- How deep forms may nest that are read. -/
  nestingLimit : Nat
  /-- How deep forms may nest that are written. -/
  writingLimit : Nat
  /-- How deep evaluation nests at most, whatever limit is set. -/
  stackDepth : Nat
  /-- Reading takes up no more than writing. -/
  writingLimit_le_nestingLimit : writingLimit ≤ nestingLimit
  /-- Reading takes up no more than evaluation. -/
  stackDepth_le_nestingLimit : stackDepth ≤ nestingLimit
  /-- The default limit on evaluation is reached before the end of the stack. -/
  defaultMaxDepth_le_stackDepth : defaultMaxDepth ≤ stackDepth

export Stack (nestingLimit writingLimit stackDepth)

namespace Stack

/-- A stack of a thousand frames. A form takes one of them to be read, and at most three to be
written or evaluated. -/
instance ofThousandFrames : Stack where
  nestingLimit := 990
  writingLimit := 330
  stackDepth := 330
  writingLimit_le_nestingLimit := by decide
  stackDepth_le_nestingLimit := by decide
  defaultMaxDepth_le_stackDepth := by decide

theorem stackDepth_pos [Stack] : 0 < stackDepth :=
  Nat.lt_of_lt_of_le (by decide) defaultMaxDepth_le_stackDepth

theorem defaultMaxDepth_le_nestingLimit [Stack] : defaultMaxDepth ≤ nestingLimit :=
  Nat.le_trans defaultMaxDepth_le_stackDepth stackDepth_le_nestingLimit

theorem nestingLimit_pos [Stack] : 0 < nestingLimit :=
  Nat.lt_of_lt_of_le (by decide) defaultMaxDepth_le_nestingLimit

end Stack

end EntityLisp
