import Scriptlet.Node.Basic

/-!
# Flaws of nodes

A node built by hand can be one that has no text or no tree: a child is missing, a node without a
name stands where a name should, or the body of a function or loop is not a list of statements.
`Node.flaw?` finds the first such flaw in reading order. Nodes that were read from a text have none.

Two forms of nodes have a name: an identifier, whose name is a text, and a declaration, whose name
is again a node. A declaration in the place of a name is no flaw therefore: what is shown there is
the text of the node that it declares.
-/

namespace Scriptlet

/-- What is wrong with a node. -/
inductive Flaw where
  /-- A child is missing. -/
  | hole
  /-- A node of the given form, one without a name, stands where a name should. -/
  | noName (form : String)
  /-- A node of the given form stands where statements should. -/
  | noStatements (form : String)
  /-- The name at this place of a list of names is a node of the given form and no text. -/
  | noText (place : Nat) (form : String)
deriving DecidableEq, Repr

/-- The wording of a flaw. -/
def Flaw.message : Flaw → String
  | hole => "Expected code to be unreachable, but got: None"
  | noName form => "'" ++ form ++ "' object has no attribute 'name'"
  | noStatements form => "'" ++ form ++ "' object has no attribute 'statements'"
  | noText place form =>
      "sequence item " ++ toString place ++ ": expected str instance, " ++ form ++ " found"

/-- The ways to show a node. -/
inductive View where
  | text | tree
deriving DecidableEq, Repr

namespace Node

/-- What the form of a node is called. -/
def form : Node → String
  | hole => "NoneType"
  | program _ => "Program"
  | expression _ _ => "ExpressionStatement"
  | declaration _ _ _ => "LetStatement"
  | returning _ _ => "ReturnStatement"
  | block _ _ => "BlockStatement"
  | loop _ _ _ _ _ => "ForStatement"
  | integer _ _ => "IntegerLiteral"
  | boolean _ _ => "BooleanLiteral"
  | string _ _ => "StringLiteral"
  | identifier _ _ => "Identifier"
  | array _ _ => "ArrayLiteral"
  | map _ _ => "MapLiteral"
  | function _ _ _ => "FunctionLiteral"
  | choice _ _ _ _ => "IfExpression"
  | unary _ _ _ => "PrefixExpression"
  | binary _ _ _ _ => "InfixExpression"
  | call _ _ _ => "CallExpression"
  | index _ _ _ => "IndexExpression"
  | member _ _ _ => "DotExpression"
  | assign _ _ _ => "AssignExpression"

/-- The node is a list of statements. -/
def hasStatements : Node → Bool
  | program _ => true
  | block _ _ => true
  | _ => false

/-- The flaw of a node that stands where a body should; only a text needs its statements. -/
def bodyFlaw? (view : View) (body : Node) : Option Flaw :=
  if view = .text && !body.hasStatements then some (.noStatements body.form) else none

mutual

/-- The first flaw of a node, in reading order, that keeps it from being shown. -/
def flaw? (view : View) : Node → Option Flaw
  | hole => some .hole
  | program statements => flawList? view statements
  | expression _ body => body.flaw? view
  | declaration _ name value => name.nameFlaw?.or (flawOption? view value)
  | returning _ value => flawOption? view value
  | block _ statements => flawList? view statements
  | loop _ first test step body =>
      (flawOption? view first).or <| (flawOption? view test).or <| (flawOption? view step).or <|
        (body.bodyFlaw? view).or (body.flaw? view)
  | integer _ _ => none
  | boolean _ _ => none
  | string _ _ => none
  | identifier _ _ => none
  | array _ elements => flawList? view elements
  | map _ pairs => flawPairs? view pairs
  | function _ parameters body =>
      (flawParameters? view parameters).or <| (body.bodyFlaw? view).or (body.flaw? view)
  | choice _ test consequence alternative =>
      (test.flaw? view).or <| (consequence.flaw? view).or (flawOption? view alternative)
  | unary _ _ operand => operand.flaw? view
  | binary _ left _ right => (left.flaw? view).or (right.flaw? view)
  | call _ callee arguments => (callee.flaw? view).or (flawList? view arguments)
  | index _ target position => (target.flaw? view).or (position.flaw? view)
  | member _ target name => (target.flaw? view).or name.nameFlaw?
  | assign _ target value => (target.flaw? view).or (value.flaw? view)

/-- The flaw of a node that stands where a name should. The name of a declaration is shown as a
text, and if it is missing, as a gap. -/
def nameFlaw? : Node → Option Flaw
  | identifier _ _ => none
  | declaration _ hole _ => none
  | declaration _ name _ => name.flaw? .text
  | node => some (.noName node.form)

/-- The first flaw of a list of nodes. -/
def flawList? (view : View) : List Node → Option Flaw
  | [] => none
  | node :: nodes => (node.flaw? view).or (flawList? view nodes)

/-- The first flaw of a list of parameters: a text shows them as nodes, a tree by their names. -/
def flawParameters? (view : View) : List Node → Option Flaw
  | [] => none
  | node :: nodes =>
      (if view = .text then node.flaw? view else node.nameFlaw?).or (flawParameters? view nodes)

/-- The first flaw of the pairs of a map. -/
def flawPairs? (view : View) : List (Node × Node) → Option Flaw
  | [] => none
  | (key, value) :: pairs =>
      (key.flaw? view).or <| (value.flaw? view).or (flawPairs? view pairs)

/-- The first flaw of an optional child. -/
def flawOption? (view : View) : Option Node → Option Flaw
  | none => none
  | some node => node.flaw? view

end

/-- The flaw that keeps a node from being shown as part of a text, where a gap is shown as such. -/
def textFlaw? : Node → Option Flaw
  | hole => none
  | node => node.flaw? .text

/-- The flaw of a parameter that has no name. -/
def noNameFlaw? : Node → Option Flaw
  | identifier _ _ => none
  | declaration _ _ _ => none
  | node => some (.noName node.form)

/-- The flaw of the first parameter whose name is a node, in a list that begins at the given
place. -/
def noTextFlaw? (place : Nat) : List Node → Option Flaw
  | [] => none
  | declaration _ name _ :: _ => some (.noText place name.form)
  | _ :: nodes => noTextFlaw? (place + 1) nodes

end Node

end Scriptlet
