import Scriptlet.Token.Basic

/-!
# Nodes

A node is a piece of a program: the program itself, a statement or an expression. Every node but a
program remembers the token that introduced it, its origin, and any node may stand below any other:
a declared name, a parameter and a member are nodes too, and ought to be identifiers. A node built
by hand may have no origin, may have a node of another form there, and may lack a child that the
language asks for; such a gap is the node `hole`.
-/

namespace Scriptlet

/-- The token that introduced a node, if there is one. -/
abbrev Origin := Option Token

/-- The place an origin gives to faults. Lines count from one, so a token on line zero has none. -/
def Origin.position? (origin : Origin) : Option Position :=
  match origin with
  | none => none
  | some token => if token.position.line = 0 then none else some token.position

/-- A program, a statement or an expression. -/
inductive Node where
  /-- A gap where a child is asked for. -/
  | hole
  /-- A whole program. -/
  | program (statements : List Node)
  /-- An expression used as a statement. -/
  | expression (origin : Origin) (body : Node)
  /-- The declaration of a name, with or without a first value. -/
  | declaration (origin : Origin) (name : Node) (value : Option Node)
  /-- The end of a function body, with or without a value. -/
  | returning (origin : Origin) (value : Option Node)
  /-- Statements in braces. -/
  | block (origin : Origin) (statements : List Node)
  /-- A loop with its three optional header clauses. -/
  | loop (origin : Origin) (first test step : Option Node) (body : Node)
  /-- An integer literal. -/
  | integer (origin : Origin) (value : Int)
  /-- A boolean literal. -/
  | boolean (origin : Origin) (value : Bool)
  /-- A string literal. -/
  | string (origin : Origin) (value : String)
  /-- The use of a name. -/
  | identifier (origin : Origin) (name : String)
  /-- An array literal. -/
  | array (origin : Origin) (elements : List Node)
  /-- A map literal; a key may occur twice. -/
  | map (origin : Origin) (pairs : List (Node × Node))
  /-- A function literal. -/
  | function (origin : Origin) (parameters : List Node) (body : Node)
  /-- A choice between two blocks, the second optional. -/
  | choice (origin : Origin) (test consequence : Node) (alternative : Option Node)
  /-- An operator in front of its operand. -/
  | unary (origin : Origin) (operator : String) (operand : Node)
  /-- An operator between its operands. -/
  | binary (origin : Origin) (left : Node) (operator : String) (right : Node)
  /-- The application of a callee to arguments. -/
  | call (origin : Origin) (callee : Node) (arguments : List Node)
  /-- An element of a collection. -/
  | index (origin : Origin) (target position : Node)
  /-- A member of a value. -/
  | member (origin : Origin) (target name : Node)
  /-- The assignment of a value to a target. -/
  | assign (origin : Origin) (target value : Node)
deriving Inhabited

namespace Node

/-- The token that introduced the node. -/
def origin : Node → Origin
  | hole => none
  | program _ => none
  | expression origin _ => origin
  | declaration origin _ _ => origin
  | returning origin _ => origin
  | block origin _ => origin
  | loop origin _ _ _ _ => origin
  | integer origin _ => origin
  | boolean origin _ => origin
  | string origin _ => origin
  | identifier origin _ => origin
  | array origin _ => origin
  | map origin _ => origin
  | function origin _ _ => origin
  | choice origin _ _ _ => origin
  | unary origin _ _ => origin
  | binary origin _ _ _ => origin
  | call origin _ _ => origin
  | index origin _ _ => origin
  | member origin _ _ => origin
  | assign origin _ _ => origin

/-- The name that an identifier uses; a node of another form uses none. -/
def identifier? : Node → Option String
  | identifier _ name => some name
  | _ => none

/-- The node is a program, the boundary at which failures are reported. -/
def isProgram : Node → Bool
  | program _ => true
  | _ => false

/-- The node is a statement whose value does not count: a declaration or a loop. -/
def isSilent : Node → Bool
  | declaration _ _ _ => true
  | loop _ _ _ _ _ => true
  | _ => false

mutual

/-- The two nodes have the same shape and data; origins do not count. -/
def same : Node → Node → Bool
  | hole, hole => true
  | program left, program right => sameList left right
  | expression _ left, expression _ right => left.same right
  | declaration _ left first, declaration _ right second =>
      left.same right && sameOption first second
  | returning _ left, returning _ right => sameOption left right
  | block _ left, block _ right => sameList left right
  | loop _ first test step body, loop _ first' test' step' body' =>
      sameOption first first' && sameOption test test' && sameOption step step' && body.same body'
  | integer _ left, integer _ right => left == right
  | boolean _ left, boolean _ right => left == right
  | string _ left, string _ right => left == right
  | identifier _ left, identifier _ right => left == right
  | array _ left, array _ right => sameList left right
  | map _ left, map _ right => samePairs left right
  | function _ names body, function _ names' body' =>
      sameList names names' && body.same body'
  | choice _ test yes no, choice _ test' yes' no' =>
      test.same test' && yes.same yes' && sameOption no no'
  | unary _ operator operand, unary _ operator' operand' =>
      operator == operator' && operand.same operand'
  | binary _ left operator right, binary _ left' operator' right' =>
      left.same left' && operator == operator' && right.same right'
  | call _ callee arguments, call _ callee' arguments' =>
      callee.same callee' && sameList arguments arguments'
  | index _ target position, index _ target' position' =>
      target.same target' && position.same position'
  | member _ target name, member _ target' name' =>
      target.same target' && name.same name'
  | assign _ target value, assign _ target' value' =>
      target.same target' && value.same value'
  | _, _ => false
termination_by structural left => left

/-- The lists are equally long and hold the same nodes in order. -/
def sameList : List Node → List Node → Bool
  | [], [] => true
  | left :: lefts, right :: rights => left.same right && sameList lefts rights
  | _, _ => false

/-- The lists are equally long and hold the same pairs in order. -/
def samePairs : List (Node × Node) → List (Node × Node) → Bool
  | [], [] => true
  | (key, value) :: pairs, (key', value') :: pairs' =>
      key.same key' && value.same value' && samePairs pairs pairs'
  | _, _ => false

/-- Both are absent, or both are present and the same. -/
def sameOption : Option Node → Option Node → Bool
  | none, none => true
  | some left, some right => left.same right
  | _, _ => false

end

end Node

end Scriptlet
