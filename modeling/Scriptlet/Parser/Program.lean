import Scriptlet.Token.Lexer
import Scriptlet.Parser.Statement

/-!
# Programs

`parse` reads a whole text. Every phrase inside a phrase begins behind at least one more token, so
the number of tokens bounds both the nesting and the turns of every loop.
-/

namespace Scriptlet

namespace Parser

/-- A phrase with at most `bound` phrases nested in one another. -/
def nested : Nat → Phrase → Parser Node
  | 0, _ => throw .exhausted
  | bound + 1, .expression power => expression (nested bound) (bound + 1) power
  | bound + 1, .block => block (nested bound) (bound + 1)

/-- The statements up to the end of the text. -/
def programStatements (phrase : Phrase → Parser Node) : Nat → Parser (List Node)
  | 0 => throw .exhausted
  | turns + 1 => do
      match ← peek with
      | .eof => return []
      | _ =>
          let node ← attempt (statement phrase)
          let nodes ← programStatements phrase turns
          return node.toList ++ nodes

/-- The state before the first token is read. -/
def State.initial (tokens : List Token) : State :=
  ⟨.eof, tokens, []⟩

/-- Read the statements of a list of tokens that holds no end marker. -/
def readTokens (tokens : List Token) : EStateM.Result Stop State (List Node) :=
  let bound := tokens.length + 1
  programStatements (nested bound) bound (State.initial tokens)

end Parser

/-- What reading a text gives: the program of the statements that could be read, and the errors. -/
structure Parsed where
  statements : List Node
  errors : List SyntaxError

/-- The program that was read. -/
def Parsed.program (parsed : Parsed) : Node :=
  .program parsed.statements

/-- Read a text. It stops without a program only at an integer literal that cannot be read. -/
def parse (source : String) : Except Stop Parsed :=
  match Parser.readTokens (Token.ofText source) with
  | .ok statements state => .ok ⟨statements, state.errors⟩
  | .error stop _ => .error stop

end Scriptlet
