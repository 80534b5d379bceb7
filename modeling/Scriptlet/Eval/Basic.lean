import Scriptlet.Store

/-!
# Evaluations

An evaluation reads and changes a store and ends with a value or with an exit: a pending return, a
failure, or the end of its limits. A change made before an exit stays made.
-/

namespace Scriptlet

/-- How an evaluation ends without an ordinary value. -/
inductive Exit where
  /-- A return that looks for the end of its function. -/
  | returned (value : Value)
  | failed (failure : Failure)
  /-- The limits on calls or rounds are used up. -/
  | exhausted

/-- An evaluation over a store. -/
abbrev Eval := EStateM Exit Store

namespace Eval

/-- Stop with a fault. -/
def fault {α : Type} (cause : Fault) : Eval α := fun store =>
  .error (.failed (.raised cause)) store

/-- A computation that may have a fault and touches no store. -/
def ofExcept {α : Type} (result : Except Fault α) : Eval α := fun store =>
  match result with
  | .ok value => .ok value store
  | .error cause => .error (.failed (.raised cause)) store

/-- The name of a node that stands where a name should. -/
def nameOf (node : Node) : Eval Name := fun store =>
  match node.naming with
  | .ok name => .ok name store
  | .error flaw => .error (.failed (.flaw flaw)) store

/-- Give a fault that has no place yet the place of a node. Failures of other kinds have none. -/
@[inline] def located {α : Type} (origin : Origin) (action : Eval α) : Eval α := fun store =>
  match action store with
  | .error (.failed (.fault cause none)) store =>
      .error (.failed (.fault cause origin.position?)) store
  | result => result

/-- A pending return ends here and becomes the value. -/
@[inline] def catchReturn (action : Eval Value) : Eval Value := fun store =>
  match action store with
  | .error (.returned value) store => .ok value store
  | result => result

/-- The value of a name: a declared one first, then a host function. -/
def lookup (scope : ScopeId) (name : String) : Eval Value := fun store =>
  match store.lookup? scope name with
  | some value => .ok value store
  | none =>
      match Builtin.ofName? name with
      | some host => .ok (.builtin host) store
      | none => .error (.failed (.fault (.unbound name) none)) store

/-- The name is declared in reach of the scope. -/
def has (scope : ScopeId) (name : String) : Eval Bool := fun store =>
  .ok (store.has scope name) store

/-- Declare a name in a scope. -/
def declare (scope : ScopeId) (name : Name) (value : Value) : Eval Unit := fun store =>
  match store.declare scope name value with
  | .ok store => .ok () store
  | .error cause => .error (.failed (.raised cause)) store

/-- Give a name that the scope itself declares another value. -/
def write (scope : ScopeId) (name : Name) (value : Value) : Eval Unit := fun store =>
  .ok () (store.write scope name value)

/-- Give a name another value where it is declared. -/
def set (scope : ScopeId) (name : String) (value : Value) : Eval Unit := fun store =>
  match store.set scope name value with
  | .ok store => .ok () store
  | .error cause => .error (.failed (.fault cause none)) store

/-- Open a scope inside another one. -/
def openScope (parent : ScopeId) : Eval ScopeId := fun store =>
  let (id, store) := store.openScope (some parent)
  .ok id store

/-- Take the next identity. -/
def newId : Eval ObjectId := fun store =>
  let (id, store) := store.newId
  .ok id store

/-- Hand the arguments of a print call to the sink. -/
def print (arguments : List Value) : Eval Unit := fun store =>
  match store.sink with
  | .recording => .ok () { store with printed := store.printed.push arguments }
  | .broken reason => .error (.failed (.sink reason)) store

/-- Run `body` for as long as `test` holds; the bound counts the rounds. -/
def repeatWhile (test : Eval Bool) (body : Eval Unit) : Nat → Eval Unit
  | 0 => throw .exhausted
  | rounds + 1 => do
      if ← test then
        body
        repeatWhile test body rounds
      else
        return ()

end Eval

end Scriptlet
