import Scriptlet.Node.Flaw

/-!
# The canonical text of a node

`render` writes every operator application with parentheses, one statement a line, and the bodies
of functions and loops indented by a tab. Strings come without quotes and the blocks of a choice
without braces, so the text is meant for reading. `render?` refuses a node with a flaw.
-/

namespace Scriptlet.Node

/-- A statement in a loop header loses its terminator, if it ends with one. -/
def withoutTerminator (text : String) : String :=
  if text.toList.getLast? = some ';' then String.ofList text.toList.dropLast else text

mutual

/-- The canonical text of a node; `separator` stands between the statements of a block. -/
def renderWith (separator : String) : Node → String
  | hole => "None"
  | program statements => separator.intercalate (renderList statements)
  | expression _ body => body.renderWith "\n" ++ ";"
  | declaration _ name value => "let " ++ name.renderName ++ renderGiven " = " value ++ ";"
  | returning _ value => "return" ++ renderGiven " " value ++ ";"
  | block _ statements => separator.intercalate (renderList statements)
  | loop _ first test step body =>
      "for (" ++ renderClause first ++ "; " ++ renderClause test ++ "; " ++ renderClause step ++
        ") \x7b\n\t" ++ body.renderWith "\n\t" ++ "\n\x7d"
  | integer _ value => toString value
  | boolean _ value => if value then "true" else "false"
  | string _ value => value
  | identifier _ name => name
  | array _ elements => "[" ++ ", ".intercalate (renderList elements) ++ "]"
  | map _ pairs => "\x7b" ++ ", ".intercalate (renderPairs pairs) ++ "\x7d"
  | function _ parameters body =>
      "fn (" ++ ", ".intercalate (renderList parameters) ++
        ") \x7b\n\t" ++ body.renderWith "\n\t" ++ "\n\x7d"
  | choice _ test consequence alternative =>
      "if (" ++ test.renderWith "\n" ++ ") " ++ consequence.renderWith "\n" ++
        renderGiven " else " alternative
  | unary _ operator operand => "(" ++ operator ++ operand.renderWith "\n" ++ ")"
  | binary _ left operator right =>
      "(" ++ left.renderWith "\n" ++ " " ++ operator ++ " " ++ right.renderWith "\n" ++ ")"
  | call _ callee arguments =>
      callee.renderWith "\n" ++ "(" ++ ", ".intercalate (renderList arguments) ++ ")"
  | index _ target position =>
      "(" ++ target.renderWith "\n" ++ "[" ++ position.renderWith "\n" ++ "])"
  | member _ target name => "(" ++ target.renderWith "\n" ++ "." ++ name.renderName ++ ")"
  | assign _ target value =>
      "(" ++ target.renderWith "\n" ++ " = " ++ value.renderWith "\n" ++ ")"

/-- The text of the name of a node; the name of a declaration is a node itself. -/
def renderName : Node → String
  | identifier _ name => name
  | declaration _ name _ => name.renderWith "\n"
  | _ => ""

/-- The canonical texts of a list of nodes. -/
def renderList : List Node → List String
  | [] => []
  | node :: nodes => node.renderWith "\n" :: renderList nodes

/-- The canonical texts of the pairs of a map. -/
def renderPairs : List (Node × Node) → List String
  | [] => []
  | (key, value) :: pairs =>
      (key.renderWith "\n" ++ ":" ++ value.renderWith "\n") :: renderPairs pairs

/-- An optional child behind its introduction, or nothing. -/
def renderGiven (introduction : String) : Option Node → String
  | none => ""
  | some node => introduction ++ node.renderWith "\n"

/-- A clause of a loop header. -/
def renderClause : Option Node → String
  | none => ""
  | some node => withoutTerminator (node.renderWith "\n")

end

/-- The canonical text of a node. -/
def render (node : Node) : String :=
  node.renderWith "\n"

/-- The canonical text of a node, or its first flaw. -/
def render? (node : Node) : Except Flaw String :=
  match node.flaw? .text with
  | some flaw => .error flaw
  | none => .ok node.render

end Scriptlet.Node
