/-!
# Type tags and trait tags

The closed sets of types an entity can have and of traits a type can be declared to have. A
program names a tag by its name; `ofName?` is the inverse of `name`.
-/

namespace EntityLisp

/-- **The types of entities,** and the type of closures. -/
inductive TypeTag where
  | noun
  | verb
  | time
  | adverb
  | string
  | integer
  | float
  | boolean
  | pronoun
  | preposition
  | adjective
  | error
  | lambda
  deriving DecidableEq, Repr

/-- **The traits** that a type can be declared to have. -/
inductive TraitTag where
  | numeric
  | relatable
  | comparable
  | countable
  | temporal
  | descriptive
  deriving DecidableEq, Repr

/-- What the payload of an entity can be. -/
inductive Shape where
  | string
  | integer
  | float
  | boolean
  deriving DecidableEq, Repr

namespace TypeTag

/-- The name of a type in program text. -/
def name : TypeTag → String
  | .noun => "Noun"
  | .verb => "Verb"
  | .time => "Time"
  | .adverb => "Adverb"
  | .string => "String"
  | .integer => "Integer"
  | .float => "Float"
  | .boolean => "Boolean"
  | .pronoun => "Pronoun"
  | .preposition => "Preposition"
  | .adjective => "Adjective"
  | .error => "Error"
  | .lambda => "Lambda"

/-- Every type. -/
def all : List TypeTag :=
  [.noun, .verb, .time, .adverb, .string, .integer, .float, .boolean, .pronoun, .preposition,
    .adjective, .error, .lambda]

theorem mem_all (tag : TypeTag) : tag ∈ all := by cases tag <;> decide

/-- The type of that name. -/
def ofName? (text : String) : Option TypeTag := all.find? (·.name == text)

theorem ofName?_name (tag : TypeTag) : ofName? tag.name = some tag := by cases tag <;> decide

theorem name_of_ofName? {text : String} {tag : TypeTag} (h : ofName? text = some tag) :
    tag.name = text := by
  simpa using List.find?_some h

/-- **The payload that an entity of a type must have.** Every type but the numbers, the Booleans
and closures holds text; no entity holds a closure. -/
def shape? : TypeTag → Option Shape
  | .integer => some .integer
  | .float => some .float
  | .boolean => some .boolean
  | .lambda => none
  | _ => some .string

/-- The types that arithmetic accepts. -/
def isNumeric (tag : TypeTag) : Bool := tag == .integer || tag == .float

/-- The types that a list accepts. -/
def isListable (tag : TypeTag) : Bool :=
  tag == .noun || tag == .time || tag == .verb || tag.isNumeric

/-- The types whose name may head a form that builds an entity. -/
def isSugar (tag : TypeTag) : Bool := tag != .error && tag != .lambda

end TypeTag

namespace TraitTag

/-- The name of a trait in program text. -/
def name : TraitTag → String
  | .numeric => "Numeric"
  | .relatable => "Relatable"
  | .comparable => "Comparable"
  | .countable => "Countable"
  | .temporal => "Temporal"
  | .descriptive => "Descriptive"

/-- Every trait, in order of name. -/
def all : List TraitTag :=
  [.comparable, .countable, .descriptive, .numeric, .relatable, .temporal]

theorem mem_all (trait : TraitTag) : trait ∈ all := by cases trait <;> decide

/-- The trait of that name. -/
def ofName? (text : String) : Option TraitTag := all.find? (·.name == text)

theorem ofName?_name (trait : TraitTag) : ofName? trait.name = some trait := by
  cases trait <;> decide

end TraitTag

/-- The name of a shape in messages. -/
def Shape.name : Shape → String
  | .string => "string"
  | .integer => "integer"
  | .float => "float"
  | .boolean => "boolean"

/-! ### Sets of traits -/

/-- **A set of traits,** held as its members in order of name. -/
structure TraitSet where
  members : List TraitTag
  canonical : members = TraitTag.all.filter (· ∈ members)
  deriving DecidableEq

namespace TraitSet

/-- The traits that satisfy a test. -/
def ofTest (p : TraitTag → Bool) : TraitSet where
  members := TraitTag.all.filter p
  canonical := by
    refine List.filter_congr fun trait _ => ?_
    simp [TraitTag.mem_all]

/-- Whether a trait is in the set. -/
def has (set : TraitSet) (trait : TraitTag) : Bool := trait ∈ set.members

@[simp] theorem has_ofTest (p : TraitTag → Bool) (trait : TraitTag) :
    (ofTest p).has trait = p trait := by
  simp [has, ofTest, TraitTag.mem_all]

/-- Sets with the same members are equal. -/
theorem ext_has {a b : TraitSet} (h : ∀ trait, a.has trait = b.has trait) : a = b := by
  obtain ⟨xs, hx⟩ := a
  obtain ⟨ys, hy⟩ := b
  have : xs = ys := by
    rw [hx, hy]
    exact List.filter_congr fun trait _ => h trait
  subst this
  rfl

/-- The set without members. -/
def empty : TraitSet := ofTest fun _ => false

/-- The traits of either set. -/
def union (a b : TraitSet) : TraitSet := ofTest fun trait => a.has trait || b.has trait

/-- The set with one trait more. -/
def insert (trait : TraitTag) (set : TraitSet) : TraitSet :=
  ofTest fun other => other == trait || set.has other

/-- The set of the traits in a list. -/
def ofList (traits : List TraitTag) : TraitSet := ofTest (traits.contains ·)

@[simp] theorem has_empty (trait : TraitTag) : empty.has trait = false := by simp [empty]

@[simp] theorem has_union (a b : TraitSet) (trait : TraitTag) :
    (a.union b).has trait = (a.has trait || b.has trait) := by simp [union]

@[simp] theorem has_insert (trait other : TraitTag) (set : TraitSet) :
    (set.insert trait).has other = (other == trait || set.has other) := by simp [insert]

theorem union_assoc (a b c : TraitSet) : (a.union b).union c = a.union (b.union c) :=
  ext_has fun trait => by simp [Bool.or_assoc]

theorem union_self (a : TraitSet) : a.union a = a := ext_has fun trait => by simp

end TraitSet

end EntityLisp
