import EntityLisp.Run.Binding

/-!
# The `lambda` form

`(lambda ((name as Type) ...) returns Type body)` makes a pending closure over the current scope.
Its parameters have distinct names, and its body is not the bare name `self`.
-/

namespace EntityLisp

/-- The name and the type of a parameter `(name as Type)`, as written. -/
def readParam? : Node → Option (String × Node)
  | .form [.symbol name, .symbol word, type] => if word = "as" then some (name, type) else none
  | _ => none

/-- The parameters that nodes give, where `seen` are the names of those before them. -/
def readParams : (seen : List String) → List Node → Except Failure (List (String × TypeTag))
  | _, [] => .ok []
  | seen, node :: rest =>
    match readParam? node with
    | none => .error (.invalidParameter node.shown)
    | some (name, typeNode) =>
      match typeNode.typeTag? with
      | none => .error (.parameterType name typeNode.shown)
      | some type =>
        if name ∈ seen then .error (.duplicateParameter name)
        else (readParams (name :: seen) rest).map ((name, type) :: ·)

/-- The parameters and the result type of a `lambda` form, from the nodes that give them. -/
def readSignature (params returns type : Node) :
    Except Failure (List (String × TypeTag) × TypeTag) :=
  match params with
  | .form params =>
    if returns.isSymbol "returns" then
      (readParams [] params).bind fun params =>
        match type.typeTag? with
        | none => .error (.returnType type.shown)
        | some type => .ok (params, type)
    else .error (.missingReturns returns.shown)
  | node => .error (.parameterList node.shown)

/-- The name by which a function body would refer to the function itself. -/
def selfName : String := "self"

/-- **The `lambda` form.** A number is taken as the origin only if a closure is made. -/
def runLambda : List Node → Run Node
  | [params, returns, type, body] =>
    match readSignature params returns type with
    | .error failure => pure failure.toNode
    | .ok (params, type) =>
      if body.isSymbol selfName then throw (.malformed .bareSelf)
      else do
        let scope ← Run.scope
        let origin ← Run.freshOrigin
        pure (.closure ⟨params, type, body, scope, false, origin⟩)
  | _ => pure Failure.lambdaForm.toNode

/-! ### Small facts -/

/-- The parameters that are read have distinct names, none of which was seen before. -/
theorem nodup_readParams {seen : List String} {nodes : List Node}
    {params : List (String × TypeTag)} (h : readParams seen nodes = .ok params) :
    (params.map (·.1)).Nodup ∧ ∀ param ∈ params, param.1 ∉ seen := by
  induction nodes generalizing seen params with
  | nil =>
    cases h
    simp
  | cons node rest ih =>
    unfold readParams at h
    split at h
    · cases h
    · next name typeNode _ =>
      split at h
      · cases h
      · next type _ =>
        split at h
        · cases h
        · next hseen =>
          cases hrest : readParams (name :: seen) rest with
          | error failure => rw [hrest] at h; cases h
          | ok others =>
            rw [hrest] at h
            cases h
            obtain ⟨hdistinct, hfresh⟩ := ih hrest
            refine ⟨?_, ?_⟩
            · simp only [List.map_cons, List.nodup_cons, List.mem_map, not_exists, not_and]
              refine ⟨fun param hparam heq => ?_, hdistinct⟩
              exact hfresh param hparam (by simp [heq])
            · intro param hparam
              rcases List.mem_cons.1 hparam with rfl | hparam
              · exact hseen
              · intro hmem
                exact hfresh param hparam (by simp [hmem])

end EntityLisp
