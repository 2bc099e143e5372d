import EntityLisp.Run

/-!
# The `let` and `impl` forms

`(let ((name be value) ...) body ...)` evaluates in a copy of the current scope, one binding after
the other and then the body. In between, each pending closure of the scope is fixed: it captures
the scope as it is at that moment, so it sees the bindings made beside its own, and keeps what it
had captured for the names that the scope does not bind.

`(impl Trait for Type)` declares a trait in the current scope.
-/

namespace EntityLisp

/-! ### Fixing -/

/-- The scope after one of its bindings, if it is a pending closure, has been fixed. -/
def fixBinding (scope : Scope Node) (binding : String × Node) : Scope Node :=
  match binding.2 with
  | .closure c =>
    if c.fixed then scope
    else scope.define binding.1 (.closure (c.fix (scope.mergedWith c.scope)))
  | _ => scope

/-- **The scope with every pending closure fixed,** one after the other in order of entry. -/
def Scope.fixClosures (scope : Scope Node) : Scope Node :=
  scope.bindings.foldl fixBinding scope

/-- Whether a value is a pending closure. -/
def Node.isPending : Node → Bool
  | .closure c => !c.fixed
  | _ => false

/-- The names that are bound to pending closures, in order of entry. -/
def Scope.pendingNames (scope : Scope Node) : List String :=
  (scope.bindings.filter (·.2.isPending)).map (·.1)

/-- Fixes the pending closures of the current scope. -/
def fixCurrent : Run Unit := do
  let scope ← Run.scope
  Run.setScope scope.fixClosures
  scope.pendingNames.forM fun name => Run.report (.closureFixed name)

/-! ### `let` -/

/-- The name and the value of a binding `(name be value)`. -/
def readBinding? : Node → Option (String × Node)
  | .form [.symbol name, .symbol be, value] => if be = "be" then some (name, value) else none
  | _ => none

/-- The names and values of bindings, or the first node that is none. -/
def readBindings : List Node → Except Node (List (String × Node))
  | [] => .ok []
  | node :: rest =>
    match readBinding? node with
    | none => .error node
    | some binding => (readBindings rest).map (binding :: ·)

/-- Evaluates values one after the other, each in the scope with the names before it bound. -/
def bindInOrder (eval : Node → Run Node) : List (String × Node) → Run Unit
  | [] => pure ()
  | (name, value) :: rest => do
    let value ← eval value
    Run.setScope ((← Run.scope).define name value)
    bindInOrder eval rest

/-- Evaluates nodes in order; the value is that of the last, or `value` if there is none. -/
def evalSequence (eval : Node → Run Node) : (value : Node) → List Node → Run Node
  | value, [] => pure value
  | _, node :: rest => do evalSequence eval (← eval node) rest

/-- What a `let` does in its own scope. -/
def runBody (eval : Node → Run Node) (bindings : List (String × Node)) (body : List Node) :
    Run Node := do
  Run.report (.letScope bindings.length)
  bindInOrder eval bindings
  fixCurrent
  evalSequence eval .nil body

/-- **The `let` form.** -/
def runLet (eval : Node → Run Node) : List Node → Run Node
  | .form bindings :: body =>
    match readBindings bindings with
    | .error node => pure (Failure.invalidBinding node.shown).toNode
    | .ok bindings => do Run.within (← Run.scope) (runBody eval bindings body)
  | _ => pure Failure.letForm.toNode

/-! ### `impl` -/

/-- The type that a symbol names. -/
def Node.typeTag? : Node → Option TypeTag
  | .symbol name => TypeTag.ofName? name
  | _ => none

/-- The trait that a symbol names. -/
def Node.traitTag? : Node → Option TraitTag
  | .symbol name => TraitTag.ofName? name
  | _ => none

/-- Declares a trait for a type in the current scope; only a new declaration is reported. -/
def declareTrait (type : TypeTag) (trait : TraitTag) : Run Unit := do
  let scope ← Run.scope
  if scope.hasTrait type trait then pure ()
  else do
    Run.setScope (scope.implement type trait)
    Run.report (.implemented trait type)

/-- **The `impl` form.** -/
def runImpl : List Node → Run Node
  | [trait, .symbol word, type] =>
    if word = "for" then
      match trait.traitTag?, type.typeTag? with
      | some t, some k => do
        declareTrait k t
        pure (.truth true)
      | _, _ => pure (Failure.implTags trait.shown type.shown).toNode
    else pure Failure.implForm.toNode
  | _ => pure Failure.implForm.toNode

end EntityLisp
