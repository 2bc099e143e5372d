import EntityLisp.Node
import EntityLisp.Text.Quoted

/-!
# Nodes on display

How a node is shown to a reader of messages: texts are quoted, symbols and keywords are marked as
such, forms stand in brackets, and an entity shows its type, its payload and its attributes.
`Node.text` is the plainer variant in which a text, a name or a signature stands for itself.
-/

namespace EntityLisp

/-- Items with a comma and a space between them. -/
def commaSeparated (items : List String) : String := ", ".intercalate items

/-- The entities of a joined list between their brackets; one alone has a comma behind it. -/
def joinedBrackets : List String → String
  | [item] => "(" ++ item ++ ",)"
  | items => "(" ++ commaSeparated items ++ ")"

mutual

/-- **A node on display.** -/
def Node.display : Node → String
  | .nil => "nil"
  | .bool true => "True"
  | .bool false => "False"
  | .int n => toString n
  | .float x => FloatStyle.display.render x
  | .str s => quoted s
  | .symbol name => "Symbol(" ++ quoted name ++ ")"
  | .keyword name => "Keyword(" ++ quoted name ++ ")"
  | .form items => "[" ++ commaSeparated (displayItems items) ++ "]"
  | .entity e => displayEntity e
  | .entities es false => "EntityList([" ++ commaSeparated (displayEntities es) ++ "])"
  | .entities es true => joinedBrackets (displayEntities es)
  | .closure c =>
    "<Closure " ++ c.signature ++ (if c.fixed then " fixed" else " pending") ++ ">"

/-- The items of a form on display. -/
def displayItems : List Node → List String
  | [] => []
  | item :: rest => item.display :: displayItems rest

/-- An entity on display; attributes are shown if there are any. -/
def displayEntity : Entity Node → String
  | ⟨kind, payload, attrs⟩ =>
    "<" ++ kind.name ++ " " ++ payload.display ++
      (if attrs.isEmpty then ""
       else " \x7b" ++ commaSeparated (displayAttrs attrs) ++ "\x7d") ++ ">"

/-- The entities of a list on display. -/
def displayEntities : List (Entity Node) → List String
  | [] => []
  | entity :: rest => displayEntity entity :: displayEntities rest

/-- Attributes on display, each as its quoted name and its value. -/
def displayAttrs : List (String × Node) → List String
  | [] => []
  | (name, value) :: rest => (quoted name ++ ": " ++ value.display) :: displayAttrs rest

end

/-- **The text of a node.** A text, a name or a signature is its own text. -/
def Node.text : Node → String
  | .str s => s
  | .symbol name => name
  | .keyword name => ":" ++ name
  | .closure c => c.signature
  | node => node.display

/-- A short description of a value for messages: the type of an entity, with the report of an
error. -/
def Node.describe : Node → String
  | .entity e => if e.isError then "Error (" ++ e.payload.text ++ ")" else e.kind.name
  | .closure _ => "Lambda"
  | .entities _ false => "list"
  | node => node.sort

namespace Scope

/-- The bindings of a scope on display. -/
def displayBindings (scope : Scope Node) : String :=
  "\x7b" ++ commaSeparated (scope.bindings.map fun (name, value) => name ++ ": " ++ value.display)
    ++ "\x7d"

/-- The traits of a scope on display, those of one type in order of name. -/
def displayTraits (scope : Scope Node) : String :=
  let entry := fun ((type, set) : TypeTag × TraitSet) =>
    type.name ++ ": [" ++ " ".intercalate (set.members.map TraitTag.name) ++ "]"
  "\x7b" ++ commaSeparated (scope.traits.map entry) ++ "\x7d"

/-- **A scope on display.** -/
def display (scope : Scope Node) : String :=
  "<Environment vars=" ++ scope.displayBindings ++ " traits=" ++ scope.displayTraits ++ ">"

end Scope

end EntityLisp
