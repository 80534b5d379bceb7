import Scriptlet.Fault

/-!
# Scopes and the store

A scope holds the names declared in it, in order, and knows the scope around it, which was opened
before it. The store holds all scopes that were ever opened, the supply of identities, the host's
sink for printing and what was printed so far.
-/

namespace Scriptlet

/-- A scope: the one around it, and its bindings in the order of declaration. -/
structure Scope where
  parent : Option ScopeId
  bindings : List (Name × Value)

namespace Scope

/-- The names the scope itself declares, in order. -/
def names (scope : Scope) : List Name :=
  scope.bindings.map Prod.fst

/-- The value the scope itself gives a name. -/
def find? (scope : Scope) (name : Name) : Option Value :=
  scope.bindings.lookup name

/-- The scope itself declares the name. -/
def declares (scope : Scope) (name : Name) : Bool :=
  (scope.find? name).isSome

/-- The scope with one more binding, the last. -/
def append (scope : Scope) (name : Name) (value : Value) : Scope :=
  { scope with bindings := scope.bindings ++ [(name, value)] }

/-- The scope with another value for a name it declares. -/
def replace (scope : Scope) (name : Name) (value : Value) : Scope :=
  { scope with
    bindings := scope.bindings.map fun binding =>
      if binding.1 = name then (binding.1, value) else binding }

end Scope

/-- Where printed values go. -/
inductive Sink where
  /-- Every call is taken. -/
  | recording
  /-- Every call fails for the given reason. -/
  | broken (reason : String)
deriving DecidableEq, Repr

/-- All that evaluation can read or change. -/
structure Store where
  scopes : Array Scope
  fresh : ObjectId
  sink : Sink
  printed : Array (List Value)

namespace Store

/-- The store without scopes. -/
def empty (sink : Sink) : Store :=
  ⟨#[], 0, sink, #[]⟩

/-- Open a scope, inside another one or outermost. -/
def openScope (store : Store) (parent : Option ScopeId) : ScopeId × Store :=
  (store.scopes.size, { store with scopes := store.scopes.push ⟨parent, []⟩ })

/-- The bindings of a scope, in the order of declaration. -/
def bindings (store : Store) (id : ScopeId) : List (Name × Value) :=
  match store.scopes[id]? with
  | none => []
  | some scope => scope.bindings

/-- The nearest scope, from `id` outward, that declares the name. -/
def resolve (store : Store) (id : ScopeId) (name : Name) : Option ScopeId :=
  match store.scopes[id]? with
  | none => none
  | some scope =>
      if scope.declares name then
        some id
      else
        match scope.parent with
        | none => none
        | some parent => if parent < id then store.resolve parent name else none
termination_by id

/-- The name is declared in reach of the scope. -/
def has (store : Store) (id : ScopeId) (name : Name) : Bool :=
  (store.resolve id name).isSome

/-- The value a name has in a scope. -/
def lookup? (store : Store) (id : ScopeId) (name : Name) : Option Value :=
  match store.resolve id name with
  | none => none
  | some owner =>
      match store.scopes[owner]? with
      | none => none
      | some scope => scope.find? name

/-- The value a name has in a scope; a name without one is a fault. -/
def get (store : Store) (id : ScopeId) (name : Name) : Except Fault Value :=
  match store.lookup? id name with
  | some value => .ok value
  | none => .error (.unbound name)

/-- Give a name that the scope itself declares another value. -/
def write (store : Store) (id : ScopeId) (name : Name) (value : Value) : Store :=
  { store with scopes := store.scopes.modify id fun scope => scope.replace name value }

/-- The scope itself declares the name. -/
def declares (store : Store) (id : ScopeId) (name : Name) : Bool :=
  match store.scopes[id]? with
  | none => false
  | some scope => scope.declares name

/-- Add a binding to a scope, the last. -/
def append (store : Store) (id : ScopeId) (name : Name) (value : Value) : Store :=
  { store with scopes := store.scopes.modify id fun scope => scope.append name value }

/-- Declare a name in a scope with a first value; a second declaration is a fault. -/
@[inline] def declare (store : Store) (id : ScopeId) (name : Name) (value : Value) :
    Except Fault Store :=
  if store.declares id name then
    .error (.redeclared name)
  else
    .ok (store.append id name value)

/-- Give a name another value in the nearest scope that declares it. -/
@[inline] def set (store : Store) (id : ScopeId) (name : Name) (value : Value) :
    Except Fault Store :=
  match store.resolve id name with
  | none => .error (.unbound name)
  | some owner => .ok (store.write owner name value)

/-- Take the next identity. -/
def newId (store : Store) : ObjectId × Store :=
  (store.fresh, { store with fresh := store.fresh + 1 })

end Store

end Scriptlet
