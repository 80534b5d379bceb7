import Scriptlet.Fault
import Scriptlet.Value.Integer

/-!
# Operations on values

The operators, indexing, member access and length. None of them touches a store; each gives a value
or a fault.
-/

namespace Scriptlet.Value

/-- An operator in front of a value: `!` negates the truth of any value, `-` an integer. -/
def unary (operator : String) (operand : Value) : Except Fault Value :=
  if operator = "!" then
    .ok (.boolean (!operand.truthy))
  else
    match operator, operand with
    | "-", .integer value => .ok (.integer (Integer.wrap (-value)))
    | _, _ => .error (.badUnary operator operand.type)

/-- The fault of an operator between values it does not apply to. -/
def binaryFault (operator : String) (left right : Value) : Fault :=
  if left.type = right.type then
    .badBinary left.type operator
  else
    .mismatch left.type operator right.type

/-- An operator between integers: arithmetic or order. -/
def integerBinary (operator : String) (left right : Int) : Except Fault Value :=
  match Integer.Arithmetic.ofText? operator with
  | some operation =>
      match operation.result? left right with
      | some value => .ok (.integer value)
      | none => .error .divisionByZero
  | none =>
      match Integer.Comparison.ofText? operator with
      | some comparison => .ok (.boolean (comparison.holds left right))
      | none => .error (.badBinary .integer operator)

/-- An operator between two values: equality of any two, arithmetic and order of integers, and
joining of strings. -/
def binary (operator : String) (left right : Value) : Except Fault Value :=
  if operator = "==" then
    .ok (.boolean (left.equals right))
  else if operator = "!=" then
    .ok (.boolean (!left.equals right))
  else
    match left, right with
    | .integer first, .integer second => integerBinary operator first second
    | .string first, .string second =>
        if operator = "+" then
          .ok (.string (first ++ second))
        else
          .error (.badBinary .string operator)
    | _, _ => .error (binaryFault operator left right)

/-- The element of an array at a position, or the value of a map under a key. -/
def index (target position : Value) : Except Fault Value :=
  match target, position with
  | .array _ elements, .integer place =>
      if place < 0 then
        .error .indexRange
      else
        match elements[place.toNat]? with
        | some value => .ok value
        | none => .error .indexRange
  | .map _ entries, .string key => .ok (entry key entries)
  | _, _ => .error .badIndex

/-- The value of a map under a name. The keys of a map are texts. -/
def named (name : Name) (entries : List (String × Value)) : Value :=
  match name with
  | .text key => entry key entries
  | .node _ => null

/-- A member of a value: every key of a map, and the length of strings and arrays. -/
def member (target : Value) (name : Name) : Except Fault Value :=
  match target with
  | .string text =>
      if name = "length" then
        .ok (.integer text.length)
      else
        .error (.noMember .string name)
  | .array _ elements =>
      if name = "length" then
        .ok (.integer elements.length)
      else
        .error (.noMember .array name)
  | .map _ entries => .ok (named name entries)
  | _ => .error (.noMember target.type name)

/-- The length of the only argument, a string or an array. -/
def length (arguments : List Value) : Except Fault Value :=
  match arguments with
  | [.string text] => .ok (.integer text.length)
  | [.array _ elements] => .ok (.integer elements.length)
  | [value] => .error (.noLength value.type)
  | _ => .error (.hostArgumentCount arguments.length 1)

end Scriptlet.Value
