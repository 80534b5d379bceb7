import Scriptlet.Parser.Basic

/-!
# Expressions

An expression is an operand followed by operators that bind tighter than what stands before it.
Every binary operator, assignment included, groups to the left. The parsers here take the parser
of nested phrases as an argument; the bound counts the turns of their loops.
-/

namespace Scriptlet

/-- How tightly a token of this kind binds the expression on its left: assignment least, then
equality, order, sums, products, and behind the unary operators call, index and member. All other
kinds end an expression. -/
def Kind.power : Kind → Nat
  | assign => 1
  | equal | notEqual => 2
  | less | lessEqual | greater | greaterEqual => 3
  | plus | minus => 4
  | asterisk | slash | percent => 5
  | openParen => 7
  | openBracket => 8
  | dot => 9
  | _ => 0

namespace Parser

/-- A phrase that may contain itself. -/
inductive Phrase where
  /-- An expression whose operators bind tighter than `power`. -/
  | expression (power : Nat)
  /-- Statements in braces. -/
  | block
deriving DecidableEq, Repr

/-- The power of the unary operators. -/
def unaryPower : Nat := 6

/-- The greatest integer literal, 2^63 - 1. -/
def maxLiteral : Nat := 9223372036854775807

/-- The greatest number of digits of a literal that is read at all. -/
def maxDigits : Nat := 4300

/-- The number that a run of decimal digits stands for. -/
def decimal (digits : List Char) : Nat :=
  Nat.ofDigitChars 10 digits 0

/-- The literal of an integer token. -/
def integerLiteral (token : Token) : Parser Node :=
  let digits := token.text.toList
  if digits.length > maxDigits then
    throw (.oversized digits.length)
  else if decimal digits > maxLiteral then
    fail (.integerTooLarge token.text)
  else
    return .integer (some token) (decimal digits)

/-- A parameter of a function literal. The token is read whatever it is. -/
def parameter : Parser Node := do
  match ← shift with
  | none => fail (.expectedNext .ident .eof)
  | some token =>
      if token.kind = .ident then
        return .identifier (some token) token.text
      else
        fail (.expectedNext .ident token.kind)

/-- A key, a colon and a value. -/
def mapPair (phrase : Phrase → Parser Node) : Parser (Node × Node) := do
  let key ← phrase (.expression 0)
  let _ ← expect .colon
  let value ← phrase (.expression 0)
  return (key, value)

/-- A choice whose first word has been read. -/
def choice (phrase : Phrase → Parser Node) (token : Token) : Parser Node := do
  let _ ← expect .openParen
  let test ← phrase (.expression 0)
  let _ ← expect .closeParen
  let consequence ← phrase .block
  if ← accept .wordElse then
    let alternative ← phrase .block
    return .choice (some token) test consequence (some alternative)
  else
    return .choice (some token) test consequence none

/-- A function literal whose first word has been read. -/
def function (phrase : Phrase → Parser Node) (bound : Nat) (token : Token) : Parser Node := do
  let _ ← expect .openParen
  let parameters ← items .closeParen parameter bound
  let body ← phrase .block
  return .function (some token) parameters body

/-- The operand that begins with the given token, which has been read. Parentheses add no node. -/
def operandAt (phrase : Phrase → Parser Node) (bound : Nat) (token : Token) : Parser Node :=
  match token.kind with
  | .ident => return .identifier (some token) token.text
  | .int => integerLiteral token
  | .string => return .string (some token) token.text
  | .wordTrue => return .boolean (some token) true
  | .wordFalse => return .boolean (some token) false
  | .bang | .minus => do
      let operand ← phrase (.expression unaryPower)
      return .unary (some token) token.text operand
  | .openParen => do
      let inner ← phrase (.expression 0)
      let _ ← expect .closeParen
      return inner
  | .openBracket => do
      let elements ← items .closeBracket (phrase (.expression 0)) bound
      return .array (some token) elements
  | .openBrace => do
      let pairs ← items .closeBrace (mapPair phrase) bound
      return .map (some token) pairs
  | .wordIf => choice phrase token
  | .wordFn => function phrase bound token
  | kind => fail (.noOperand kind)

/-- The operand at the next token, which is read whatever it is. -/
def operand (phrase : Phrase → Parser Node) (bound : Nat) : Parser Node := do
  match ← shift with
  | none => fail (.noOperand .eof)
  | some token => operandAt phrase bound token

/-- The operator application whose operator token has been read, with its left operand. -/
def application (phrase : Phrase → Parser Node) (bound : Nat) (token : Token) (left : Node) :
    Parser Node :=
  match token.kind with
  | .openParen => do
      let arguments ← items .closeParen (phrase (.expression 0)) bound
      return .call (some token) left arguments
  | .openBracket => do
      let position ← phrase (.expression 0)
      let _ ← expect .closeBracket
      return .index (some token) left position
  | .dot => do
      let name ← expect .ident
      return .member (some token) left (.identifier (some name) name.text)
  | .assign => do
      let value ← phrase (.expression token.kind.power)
      return .assign (some token) left value
  | _ => do
      let right ← phrase (.expression token.kind.power)
      return .binary (some token) left token.text right

/-- Extend `left` by the operators that follow it and bind tighter than `power`. -/
def climb (phrase : Phrase → Parser Node) (bound : Nat) (power : Nat) : Nat → Node → Parser Node
  | 0, _ => throw .exhausted
  | turns + 1, left => do
      match ← peekToken with
      | none => return left
      | some token =>
          if power < token.kind.power then
            let _ ← shift
            let extended ← application phrase bound token left
            climb phrase bound power turns extended
          else
            return left

/-- An expression whose operators bind tighter than `power`. -/
def expression (phrase : Phrase → Parser Node) (bound : Nat) (power : Nat) : Parser Node := do
  let left ← operand phrase bound
  climb phrase bound power bound left

end Parser

end Scriptlet
