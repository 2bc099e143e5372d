import EntityLisp.Scope

/-!
# Environments that share tables

An environment is a scope that can be changed. A clone of it shares its tables, and whichever of
the two is changed first copies the table that it is about to change. Who has to copy is told by a
flag for each table of each environment: the one that owns a table is the only one that holds it,
and may change it in place. A clone takes the flag from both sides.

Environments are numbered in the order in which they are made. A `Pool` holds the tables of one
kind, by place, and for each environment the place of its own; the bindings and the traits of
`SharedScopes` are two such pools, in which tables are shared independently.
-/

namespace EntityLisp

/-- **How an environment holds a table:** the place of the table, and whether the environment owns
it. -/
structure Holder where
  place : Nat
  owns : Bool
  deriving DecidableEq

/-- **Tables by place, and the environments that hold them.** -/
structure Pool (τ : Type) where
  tables : List τ
  holders : List Holder
  deriving DecidableEq

namespace Pool

variable {τ : Type}

/-- The pool without environments. -/
def empty : Pool τ := ⟨[], []⟩

/-- The table that an environment shows. -/
def shown? (number : Nat) (pool : Pool τ) : Option τ :=
  pool.holders[number]?.bind fun holder => pool.tables[holder.place]?

/-- A new environment, with a table of its own. -/
def add (table : τ) (pool : Pool τ) : Pool τ :=
  ⟨pool.tables ++ [table], pool.holders ++ [⟨pool.tables.length, true⟩]⟩

/-- **A new environment that shares the table of another one.** Neither owns it from now on. -/
def share (number : Nat) (pool : Pool τ) : Pool τ :=
  match pool.holders[number]? with
  | none => pool
  | some holder =>
    let shared : Holder := { holder with owns := false }
    { pool with holders := pool.holders.set number shared ++ [shared] }

/-- Copies the table of an environment, unless the environment owns it. -/
def own (number : Nat) (pool : Pool τ) : Pool τ :=
  match pool.holders[number]? with
  | none => pool
  | some holder =>
    if holder.owns then pool
    else
      ⟨pool.tables ++ pool.tables[holder.place]?.toList,
        pool.holders.set number ⟨pool.tables.length, true⟩⟩

/-- Changes the table of an environment in place, whoever else holds it. -/
def overwrite (number : Nat) (change : τ → τ) (pool : Pool τ) : Pool τ :=
  match pool.holders[number]? with
  | none => pool
  | some holder => { pool with tables := pool.tables.modify holder.place change }

/-- **Changes the table of an environment,** which is copied first if it is not owned. -/
def write (number : Nat) (change : τ → τ) (pool : Pool τ) : Pool τ :=
  (pool.own number).overwrite number change

end Pool

/-- The scope in which bindings and traits are entered one after the other. -/
def Scope.ofEntries {α : Type} (bindings : List (String × α))
    (traits : List (TypeTag × List TraitTag)) : Scope α :=
  ⟨Table.ofList bindings, Table.ofList (traits.map fun (type, set) => (type, TraitSet.ofList set))⟩

/-- **Environments that share tables,** one pool for the bindings and one for the traits. -/
structure SharedScopes (α : Type) where
  bindings : Pool (Table String α)
  traits : Pool (Table TypeTag TraitSet)

namespace SharedScopes

variable {α : Type}

/-- No environments. -/
def empty : SharedScopes α := ⟨.empty, .empty⟩

/-- The number that the next environment gets. -/
def count (environments : SharedScopes α) : Nat := environments.bindings.holders.length

/-- **What an environment shows.** -/
def scope? (number : Nat) (environments : SharedScopes α) : Option (Scope α) :=
  (environments.bindings.shown? number).bind fun bindings =>
    (environments.traits.shown? number).map fun traits => ⟨bindings, traits⟩

/-- A new environment with the contents of a scope. -/
def add (scope : Scope α) (environments : SharedScopes α) : SharedScopes α :=
  ⟨environments.bindings.add scope.bindings, environments.traits.add scope.traits⟩

/-- **A clone,** which shares both tables. -/
def clone (number : Nat) (environments : SharedScopes α) : SharedScopes α :=
  ⟨environments.bindings.share number, environments.traits.share number⟩

/-- An environment with the contents of one into which those of a caller are folded. -/
def merge (number caller : Nat) (environments : SharedScopes α) : SharedScopes α :=
  match environments.scope? number, environments.scope? caller with
  | some scope, some callerScope => environments.add (scope.mergedWith callerScope)
  | _, _ => environments

/-- Binds a name in an environment. -/
def define (number : Nat) (name : String) (value : α) (environments : SharedScopes α) :
    SharedScopes α :=
  { environments with bindings := environments.bindings.write number (Table.put name value) }

/-- Drops the binding of a name in an environment. Nothing is copied if there is none. -/
def remove (number : Nat) (name : String) (environments : SharedScopes α) : SharedScopes α :=
  match (environments.bindings.shown? number).bind (Table.get? name) with
  | none => environments
  | some _ =>
    { environments with bindings := environments.bindings.write number (Table.remove name) }

/-- Declares a trait in an environment, and tells whether this is new. Nothing is copied if it is
not. -/
def implement (number : Nat) (type : TypeTag) (trait : TraitTag)
    (environments : SharedScopes α) : Bool × SharedScopes α :=
  match environments.traits.shown? number with
  | none => (false, environments)
  | some registry =>
    let current := (Table.get? type registry).getD .empty
    if current.has trait then (false, environments)
    else
      (true, { environments with
        traits := environments.traits.write number (Table.put type (current.insert trait)) })

/-- Declares all traits of a registry in an environment. -/
def declareAll (number : Nat) (registry : Table TypeTag TraitSet)
    (environments : SharedScopes α) : SharedScopes α :=
  registry.foldl
    (fun environments (type, set) =>
      set.members.foldl (fun environments trait => (environments.implement number type trait).2)
        environments)
    environments

end SharedScopes

end EntityLisp
