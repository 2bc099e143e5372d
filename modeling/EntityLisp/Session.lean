import EntityLisp.Node.Same
import EntityLisp.Run.Evaluate
import EntityLisp.SharedScope

/-!
# Sessions

Programs that run one after the other. `runEach` evaluates the forms of a program in one scope
that lasts, going on after errors. A `Session` keeps several environments under names and numbers
the closures made in any of them; its steps look into the environments, change them, clone and
merge them, and evaluate program text in them. Its environments share their tables until they are
changed.
-/

namespace EntityLisp

/-! ### One lasting scope -/

/-- Evaluates forms one after the other from a state, and gives the outcome of each with the
scope as it is afterwards. -/
def runEach [Stack] (limit : Nat) : RunState → List Node → List (Except EvalError Node × Scope Node)
  | _, [] => []
  | state, form :: rest =>
    match evaluate limit form state with
    | .ok value after => (.ok value, after.scope) :: runEach limit after rest
    | .error error after => (.error error, after.scope) :: runEach limit after rest

/-- Whether a form is the first one read from its own program text. -/
def readsBack [Stack] (form : Node) (text : String) : Except SyntaxError Bool :=
  (tokenize text).bind fun tokens => (readForm tokens).1.map (·.same form)

/-! ### Named environments -/

/-- **A session:** its environments, which of them stands under a name, and the number that the
next closure gets. -/
structure Session where
  environments : SharedScopes Node
  numbers : Table String Nat
  nextOrigin : Nat

/-- What a step of a session does. The first argument names the environment that it is about. -/
inductive SessionStep where
  /-- Puts an environment with the contents of a scope under a name. -/
  | new (scope : String) (contents : Scope Node)
  /-- Puts a clone under another name. -/
  | clone (scope target : String)
  /-- Puts an environment, with the one under `caller` folded in, under another name. -/
  | merge (scope caller target : String)
  /-- Puts the scope that the closure bound to a name has captured under another name. -/
  | captured (scope name target : String)
  | define (scope name : String) (value : Node)
  | remove (scope name : String)
  | implement (scope : String) (type : TypeTag) (trait : TraitTag)
  | evaluate (scope text : String)
  /-- Evaluates program text and binds the value to a name. -/
  | defineText (scope name text : String)
  | lookup (scope name : String)
  | contains (scope name : String)
  | hasTrait (scope : String) (type : TypeTag) (trait : TraitTag)
  | traitsFor (scope : String) (type : TypeTag)
  /-- Whether two names are bound to states of one closure. -/
  | sameOrigin (scope name other : String)
  /-- The fixed state that the closure bound to a name would have in the scope `target`. -/
  | fix (scope name target : String)
  | display (scope : String)

/-- What a step of a session answers. -/
inductive StepResult where
  | done
  | value (node : Node)
  | truth (value : Bool)
  | traits (set : TraitSet)
  | display (full bindings : String)

namespace Session

/-- The session without environments. -/
def initial : Session := ⟨.empty, [], 1⟩

/-- The session after an environment was made, which gets a name. -/
def keep (session : Session) (name : String) (environments : SharedScopes Node) : Session :=
  { session with
    environments
    numbers := Table.put name session.environments.count session.numbers }

/-- The environment under a name. There is an empty one under a name that is not used yet. -/
def environment (session : Session) (name : String) : Nat × Session :=
  match Table.get? name session.numbers with
  | some number => (number, session)
  | none => (session.environments.count, session.keep name (session.environments.add .empty))

/-- What the environment under a name shows. -/
def scope (session : Session) (name : String) : Scope Node :=
  ((Table.get? name session.numbers).bind session.environments.scope?).getD .empty

/-- What the environments show, under their names. -/
def scopes (session : Session) : Table String (Scope Node) :=
  session.numbers.map fun (name, _) => (name, session.scope name)

/-- The session after a change to the environment under a name. -/
def change (session : Session) (name : String)
    (action : Nat → SharedScopes Node → SharedScopes Node) : Session :=
  let (number, session) := session.environment name
  { session with environments := action number session.environments }

/-- Runs an action in the environment under a name, in which it may declare traits. -/
def run (session : Session) (name : String) (action : Run Node) :
    Except EvalError Node × Session :=
  let finish := fun (state : RunState) =>
    let declared := session.change name (SharedScopes.declareAll · state.scope.traits)
    { declared with nextOrigin := state.nextOrigin }
  match action ⟨session.scope name, session.nextOrigin, []⟩ with
  | .ok value after => (.ok value, finish after)
  | .error error after => (.error error, finish after)

/-- The value bound to a name in an environment. -/
def valueOf (session : Session) (scope name : String) : Except EvalError Node :=
  match (session.scope scope).lookup? name with
  | some value => .ok value
  | none => .error (.unbound name)

/-- Answers from what a name is bound to, without changing the session. -/
def answer (session : Session) (result : Except EvalError StepResult) :
    Except EvalError StepResult × Session := (result, session)

/-- **One step of a session.** -/
def step [Stack] (limit : Nat) (session : Session) :
    SessionStep → Except EvalError StepResult × Session
  | .new label contents =>
    let traits := contents.traits.map fun (type, set) => (type, set.members)
    (.ok .done, session.keep label (session.environments.add (.ofEntries contents.bindings traits)))
  | .clone label target =>
    let (number, session) := session.environment label
    (.ok .done, session.keep target (session.environments.clone number))
  | .merge label caller target =>
    let (number, session) := session.environment label
    let (caller, session) := session.environment caller
    (.ok .done, session.keep target (session.environments.merge number caller))
  | .captured label name target =>
    match session.valueOf label name with
    | .ok (.closure c) => (.ok .done, session.keep target (session.environments.add c.scope))
    | .ok _ => (.ok .done, session)
    | .error error => (.error error, session)
  | .define label name value => (.ok .done, session.change label (SharedScopes.define · name value))
  | .remove label name => (.ok .done, session.change label (SharedScopes.remove · name))
  | .implement label type trait =>
    let (number, session) := session.environment label
    let (fresh, environments) := session.environments.implement number type trait
    (.ok (.truth fresh), { session with environments })
  | .evaluate label text =>
    let (result, after) := session.run label (evaluateText limit text)
    (result.map .value, after)
  | .defineText label name text =>
    match session.run label (evaluateText limit text) with
    | (.ok value, after) =>
      (.ok (.value value), after.change label (SharedScopes.define · name value))
    | (.error error, after) => (.error error, after)
  | .lookup label name => session.answer ((session.valueOf label name).map .value)
  | .contains label name => session.answer (.ok (.truth ((session.scope label).binds name)))
  | .hasTrait label type trait =>
    session.answer (.ok (.truth ((session.scope label).hasTrait type trait)))
  | .traitsFor label type => session.answer (.ok (.traits ((session.scope label).traitsFor type)))
  | .sameOrigin label name other =>
    session.answer <| (session.valueOf label name).bind fun first =>
      (session.valueOf label other).map fun second =>
        match first with
        | .closure c => .truth (second.hasOrigin c.origin)
        | _ => .truth false
  | .fix label name target =>
    session.answer <| (session.valueOf label name).map fun value =>
      match value with
      | .closure c => .value (.closure (c.fix (session.scope target)))
      | value => .value value
  | .display label =>
    let scope := session.scope label
    session.answer (.ok (.display scope.display scope.displayBindings))

end Session

end EntityLisp
