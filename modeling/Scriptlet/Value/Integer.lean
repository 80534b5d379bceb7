/-!
# Integers of 64 bits

Every integer of the language lies between -2^63 and 2^63 - 1. Arithmetic is done in unbounded
integers and then wrapped; division goes toward zero and the remainder has the sign of the
dividend.
-/

namespace Scriptlet.Integer

/-- The least integer, -2^63. -/
def least : Int := -9223372036854775808

/-- The greatest integer, 2^63 - 1. -/
def greatest : Int := 9223372036854775807

/-- The integer of 64 bits that is congruent to `value` modulo 2^64. -/
def wrap (value : Int) : Int :=
  value.bmod 18446744073709551616

/-- The operations that give an integer. -/
inductive Arithmetic where
  | add | sub | mul | div | rem
deriving DecidableEq, Repr

/-- The arithmetic operation of an operator. -/
def Arithmetic.ofText? : String → Option Arithmetic
  | "+" => some add
  | "-" => some sub
  | "*" => some mul
  | "/" => some div
  | "%" => some rem
  | _ => none

/-- The result of an operation, or `none` when it divides by zero. -/
def Arithmetic.result? (left right : Int) : Arithmetic → Option Int
  | add => some (wrap (left + right))
  | sub => some (wrap (left - right))
  | mul => some (wrap (left * right))
  | div => if right = 0 then none else some (wrap (left.tdiv right))
  | rem => if right = 0 then none else some (wrap (left.tmod right))

/-- The comparisons of order. -/
inductive Comparison where
  | less | lessEqual | greater | greaterEqual
deriving DecidableEq, Repr

/-- The comparison of an operator. -/
def Comparison.ofText? : String → Option Comparison
  | "<" => some less
  | "<=" => some lessEqual
  | ">" => some greater
  | ">=" => some greaterEqual
  | _ => none

/-- The comparison holds between the two integers. -/
def Comparison.holds (left right : Int) : Comparison → Bool
  | less => left < right
  | lessEqual => left ≤ right
  | greater => right < left
  | greaterEqual => right ≤ left

end Scriptlet.Integer
