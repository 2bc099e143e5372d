import EntityLisp.Node.Display
import EntityLisp.Stack

/-!
# Nodes as program text

`Node.source?` writes a tree of atoms and forms as program text that the reader takes back. Other
values have no program text, and forms nest at most `writingLimit` deep; what is met first, from
left to right, is the fault. `Node.shown` is the text for messages: program text if there is one,
and else the node on display.
-/

namespace EntityLisp

mutual

/-- **How deep the forms of a tree nest.** A leaf has no height. -/
def Node.height : Node → Nat
  | .form items => Node.itemsHeight items + 1
  | _ => 0

/-- The largest height among items. -/
def Node.itemsHeight : List Node → Nat
  | [] => 0
  | item :: rest => max item.height (Node.itemsHeight rest)

end

/-- The program text of an atom. -/
def Node.atomText? : Node → Option String
  | .nil => some "nil"
  | .bool true => some "true"
  | .bool false => some "false"
  | .int n => some (toString n)
  | .float x => some (FloatStyle.source.render x)
  | .str s => some ("\"" ++ s ++ "\"")
  | .symbol name => some name
  | .keyword name => some (":" ++ name)
  | _ => none

/-- **Why a node cannot be written.** -/
inductive WritingFault where
  /-- A node has no program text. -/
  | noText (node : Node)
  /-- Forms are nested deeper than the writer goes. -/
  | nestedTooDeeply

/-- The message for a fault of writing. -/
def WritingFault.unwritable : WritingFault → String
  | .noText node => "Cannot render " ++ node.display ++ " as source"
  | .nestedTooDeeply => "maximum recursion depth exceeded"

mutual

/-- Writes a node whose forms may nest `room` deep. -/
def Node.sourceIn? : (room : Nat) → Node → Except WritingFault String
  | 0, .form _ => .error .nestedTooDeeply
  | room + 1, .form items =>
    (sourceItemsIn? room items).map fun texts => "(" ++ " ".intercalate texts ++ ")"
  | _, node =>
    match node.atomText? with
    | some text => .ok text
    | none => .error (.noText node)

/-- Writes the items of a form. -/
def sourceItemsIn? : (room : Nat) → List Node → Except WritingFault (List String)
  | _, [] => .ok []
  | room, item :: rest =>
    (item.sourceIn? room).bind fun text => (sourceItemsIn? room rest).map (text :: ·)

end

/-- **The program text of a node,** or the first fault. -/
def Node.source? [Stack] (node : Node) : Except WritingFault String := node.sourceIn? writingLimit

/-- **The text of a node in messages.** There is room for all of its forms. -/
def Node.shown (node : Node) : String :=
  match node.sourceIn? node.height with
  | .ok text => text
  | .error _ => node.display

end EntityLisp
