import Scriptlet.Value.Basic

/-!
# Faults and failures

A fault is a mistake of the running program. A failure is whatever stops an evaluation for good: a
fault, with the place it was found at, or something outside the language.
-/

namespace Scriptlet

/-- A mistake of the running program. -/
inductive Fault where
  /-- No scope in reach declares the name. -/
  | unbound (name : Name)
  /-- The scope declares the name already. -/
  | redeclared (name : Name)
  /-- The left side of an assignment is no declared name. -/
  | badTarget
  | divisionByZero
  /-- The position lies outside the array. -/
  | indexRange
  /-- The pair of types allows no indexing. -/
  | badIndex
  /-- A map key must be a string. -/
  | badKey (type : ValueType)
  /-- The callee is no function. -/
  | notCallable
  /-- A function got a wrong number of arguments. -/
  | argumentCount (got want : Nat)
  /-- A host function got a wrong number of arguments. -/
  | hostArgumentCount (got want : Nat)
  /-- Values of this type have no length. -/
  | noLength (type : ValueType)
  /-- Values of this type have no such member. -/
  | noMember (type : ValueType) (name : Name)
  /-- The operator does not apply to this operand. -/
  | badUnary (operator : String) (type : ValueType)
  /-- The operator does not apply to operands of these two types. -/
  | mismatch (left : ValueType) (operator : String) (right : ValueType)
  /-- The operator does not apply to two operands of this type. -/
  | badBinary (type : ValueType) (operator : String)
deriving DecidableEq

/-- The classes of faults. -/
inductive FaultClass where
  | general | name | type | arity | index
deriving DecidableEq, Repr

/-- The name of a class of faults. -/
def FaultClass.label : FaultClass → String
  | general => "FunkeyRuntimeError"
  | name => "FunkeyNameError"
  | type => "FunkeyTypeError"
  | arity => "FunkeyArityError"
  | index => "FunkeyIndexError"

namespace Fault

/-- The class of a fault. -/
def faultClass : Fault → FaultClass
  | unbound _ => .name
  | redeclared _ => .name
  | badTarget => .name
  | divisionByZero => .general
  | indexRange => .index
  | argumentCount _ _ => .arity
  | hostArgumentCount _ _ => .arity
  | _ => .type

/-- The wording of a fault. -/
def message : Fault → String
  | unbound name => "identifier not found: " ++ name.shown
  | redeclared name => "identifier has been declared: " ++ name.shown
  | badTarget => "invalid assignment target"
  | divisionByZero => "division by zero"
  | indexRange => "index out of bound"
  | badIndex => "index expression is not valid"
  | badKey type => "unusable as map key: " ++ type.name
  | notCallable => "it is not a function"
  | argumentCount got want =>
      "arguments count mismatch: got=" ++ toString got ++ ", want=" ++ toString want
  | hostArgumentCount got want =>
      "wrong number of arguments. got=" ++ toString got ++ ", want=" ++ toString want
  | noLength type => "argument to `len` not supported, got " ++ type.name
  | noMember type name => "invalid operation: " ++ type.name ++ "." ++ name.shown
  | badUnary operator type => "unknown operator: " ++ operator ++ type.name
  | mismatch left operator right =>
      "type mismatch: " ++ left.name ++ " " ++ operator ++ " " ++ right.name
  | badBinary type operator =>
      "unknown operator: " ++ type.name ++ " " ++ operator ++ " " ++ type.name

/-- The flaw of the name that the wording of a fault has to show. -/
def flaw? : Fault → Option Flaw
  | unbound name => name.flaw?
  | redeclared name => name.flaw?
  | noMember _ name => name.flaw?
  | _ => none

end Fault

/-- Why an evaluation has no value. -/
inductive Failure where
  /-- A fault and the place of the innermost node around it that has one. -/
  | fault (cause : Fault) (position : Option Position)
  /-- The host could not take what was printed. -/
  | sink (reason : String)
  /-- The evaluation met a flaw of a node. -/
  | flaw (cause : Flaw)
deriving DecidableEq

namespace Failure

/-- The failure when a fault is found. It has no place yet; if it cannot be worded, the flaw in its
wording takes its place. -/
def raised (cause : Fault) : Failure :=
  match cause.flaw? with
  | some found => .flaw found
  | none => .fault cause none

/-- The wording of a failure without its place. -/
def message : Failure → String
  | fault cause _ => cause.message
  | sink reason => reason
  | flaw cause => cause.message

/-- The wording of a failure with its place, if it has one. -/
def describe : Failure → String
  | fault cause (some position) =>
      cause.message ++ " (line " ++ toString position.line ++ ", col " ++
        toString position.column ++ ")"
  | failure => failure.message

end Failure

end Scriptlet
