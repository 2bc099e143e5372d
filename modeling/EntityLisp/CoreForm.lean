import EntityLisp.Tag

/-!
# The core forms

The names with a fixed meaning at the head of a form, and the role names that introduce a noun
together with its role.
-/

namespace EntityLisp

/-- The folding operations on numbers. -/
inductive NumericOp where
  | add
  | sub
  | mul
  deriving DecidableEq

/-- The name of a folding operation. -/
def NumericOp.name : NumericOp → String
  | .add => "add"
  | .sub => "sub"
  | .mul => "mul"

/-- **The core forms.** -/
inductive CoreForm where
  | entity
  | list
  | numeric (op : NumericOp)
  | eq
  | letIn
  | impl
  | lambda
  deriving DecidableEq

namespace CoreForm

/-- The name of a core form. -/
def name : CoreForm → String
  | .entity => "entity"
  | .list => "list"
  | .numeric op => op.name
  | .eq => "eq"
  | .letIn => "let"
  | .impl => "impl"
  | .lambda => "lambda"

/-- Every core form. -/
def all : List CoreForm :=
  [.entity, .list, .numeric .add, .numeric .sub, .numeric .mul, .eq, .letIn, .impl, .lambda]

/-- The core form of that name. -/
def ofName? (text : String) : Option CoreForm := all.find? (·.name == text)

theorem mem_all (form : CoreForm) : form ∈ all := by
  cases form with
  | numeric op => cases op <;> decide
  | _ => decide

theorem ofName?_name (form : CoreForm) : ofName? form.name = some form := by
  cases form with
  | numeric op => cases op <;> decide
  | _ => decide

theorem name_of_ofName? {text : String} {form : CoreForm} (h : ofName? text = some form) :
    form.name = text := by
  simpa using List.find?_some h

/-- Whether the form takes bare numbers as entities: every core form but `entity` does. -/
def wrapsNumbers (form : CoreForm) : Bool := form != .entity

end CoreForm

/-- **The roles** that a noun can be introduced with. -/
inductive Role where
  | subject
  | object
  deriving DecidableEq

namespace Role

/-- The head of a form that introduces a noun in this role. -/
def head : Role → String
  | .subject => "Subject"
  | .object => "Object"

/-- The value of the role attribute. -/
def value : Role → String
  | .subject => "subject"
  | .object => "object"

/-- The role introduced by a head. -/
def ofHead? (text : String) : Option Role := [subject, object].find? (·.head == text)

theorem ofHead?_head (role : Role) : ofHead? role.head = some role := by cases role <;> decide

theorem head_of_ofHead? {text : String} {role : Role} (h : ofHead? text = some role) :
    role.head = text := by
  simpa using List.find?_some h

end Role

end EntityLisp
