import Scriptlet.Node.Render

/-!
# Labelled trees

A tree has labelled branches and, as leaves, pieces of source text with a class. `Node.toTree`
shows a node as such a tree and `Tree.pretty` writes a tree with two blanks a level.
-/

namespace Scriptlet

/-- The class of a leaf. -/
inductive LeafKind where
  | integer | yes | no | string | identifier | operator
deriving DecidableEq, Repr

/-- A labelled tree. -/
inductive Tree where
  | leaf (kind : LeafKind) (text : String)
  | branch (label : String) (children : List Tree)

namespace Tree

/-- Two blanks a level. -/
def indent (level : Nat) : String :=
  String.ofList (List.replicate (2 * level) ' ')

mutual

/-- The tree, one label or leaf a line; an only child that is a leaf shares its parent's line. -/
def prettyAt (level : Nat) : Tree → String
  | leaf _ text => indent level ++ text ++ "\n"
  | branch label [leaf _ text] => indent level ++ label ++ "\t" ++ text ++ "\n"
  | branch label children => indent level ++ label ++ "\n" ++ prettyList (level + 1) children

/-- The trees of a list, one after the other. -/
def prettyList (level : Nat) : List Tree → String
  | [] => ""
  | tree :: trees => tree.prettyAt level ++ prettyList level trees

end

/-- The indented text of a tree. -/
def pretty (tree : Tree) : String :=
  tree.prettyAt 0

end Tree

namespace Node

/-- The leaf of a name. -/
def nameLeaf (name : Node) : Tree :=
  .leaf .identifier name.renderName

mutual

/-- The tree of a node: one label a construct, literals, names and operators as leaves. -/
def toTree : Node → Tree
  | hole => .branch "hole" []
  | program statements => .branch "program" (treeList statements)
  | expression _ body => .branch "expression_statement" [body.toTree]
  | declaration _ name value => .branch "let_statement" (nameLeaf name :: treeOption value)
  | returning _ value => .branch "return_statement" (treeOption value)
  | block _ statements => .branch "block" (treeList statements)
  | loop _ first test step body =>
      .branch "for_statement"
        [.branch "init" (treeOption first), .branch "condition" (treeOption test),
          .branch "update" (treeOption step), body.toTree]
  | integer _ value => .branch "integer" [.leaf .integer (toString value)]
  | boolean _ value =>
      .branch "boolean" [if value then .leaf .yes "true" else .leaf .no "false"]
  | string _ value => .branch "string" [.leaf .string value]
  | identifier _ name => .branch "identifier" [.leaf .identifier name]
  | array _ elements => .branch "array" (treeList elements)
  | map _ pairs => .branch "map" (treePairs pairs)
  | function _ parameters body =>
      .branch "function" [.branch "parameters" (parameters.map nameLeaf), body.toTree]
  | choice _ test consequence alternative =>
      .branch "if_expression" (test.toTree :: consequence.toTree :: treeOption alternative)
  | unary _ operator operand => .branch "prefix" [.leaf .operator operator, operand.toTree]
  | binary _ left operator right =>
      .branch "infix" [left.toTree, .leaf .operator operator, right.toTree]
  | call _ callee arguments =>
      .branch "call" [callee.toTree, .branch "arguments" (treeList arguments)]
  | index _ target position => .branch "index" [target.toTree, position.toTree]
  | member _ target name => .branch "dot" [target.toTree, nameLeaf name]
  | assign _ target value => .branch "assign" [target.toTree, value.toTree]

/-- The trees of a list of nodes. -/
def treeList : List Node → List Tree
  | [] => []
  | node :: nodes => node.toTree :: treeList nodes

/-- The trees of the pairs of a map. -/
def treePairs : List (Node × Node) → List Tree
  | [] => []
  | (key, value) :: pairs => .branch "pair" [key.toTree, value.toTree] :: treePairs pairs

/-- The tree of an optional child, or no tree. -/
def treeOption : Option Node → List Tree
  | none => []
  | some node => [node.toTree]

end

/-- The tree of a node, or its first flaw. -/
def toTree? (node : Node) : Except Flaw Tree :=
  match node.flaw? .tree with
  | some flaw => .error flaw
  | none => .ok node.toTree

end Node

end Scriptlet
