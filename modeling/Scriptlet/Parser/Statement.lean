import Scriptlet.Parser.Expression

/-!
# Statements

Declarations, returns, loops and expression statements, and the lists of them that make up blocks.
A statement that fails is left out of its list, which goes on with the next unread token.
-/

namespace Scriptlet.Parser

/-- A declaration at its first word: a name, then nothing or a first value, then a semicolon. -/
def declaration (phrase : Phrase → Parser Node) : Parser Node := do
  let origin ← shift
  let name ← expect .ident
  if ← accept .semicolon then
    return .declaration origin (.identifier (some name) name.text) none
  else
    let _ ← expect .assign
    let value ← phrase (.expression 0)
    let _ ← expect .semicolon
    return .declaration origin (.identifier (some name) name.text) (some value)

/-- A return at its first word: nothing or a value, then a semicolon. -/
def returning (phrase : Phrase → Parser Node) : Parser Node := do
  let origin ← shift
  if ← accept .semicolon then
    return .returning origin none
  else
    let value ← phrase (.expression 0)
    let _ ← expect .semicolon
    return .returning origin (some value)

/-- An expression as a statement; its semicolon may be left out. -/
def expressionStatement (phrase : Phrase → Parser Node) : Parser Node := do
  let origin ← peekToken
  let body ← phrase (.expression 0)
  let _ ← accept .semicolon
  return .expression origin body

/-- The first or last clause of a loop header: a declaration or an expression. -/
def clause (phrase : Phrase → Parser Node) : Parser Node := do
  if (← peek) = .wordLet then
    declaration phrase
  else
    expressionStatement phrase

/-- A clause of a loop header up to its semicolon, which the clause itself reads. -/
def headerClause (parser : Parser Node) : Parser (Option Node) := do
  if ← accept .semicolon then
    return none
  else
    let node ← parser
    expectRead .semicolon
    return some node

/-- The last clause of a loop header up to the closing parenthesis. -/
def lastClause (phrase : Phrase → Parser Node) : Parser (Option Node) := do
  if ← accept .closeParen then
    return none
  else
    let node ← clause phrase
    let _ ← expect .closeParen
    return some node

/-- A loop at its first word. -/
def loop (phrase : Phrase → Parser Node) : Parser Node := do
  let origin ← shift
  let _ ← expect .openParen
  let first ← headerClause (clause phrase)
  let test ← headerClause (expressionStatement phrase)
  let step ← lastClause phrase
  let body ← phrase .block
  return .loop origin first test step body

/-- A statement; its first word decides its form. -/
def statement (phrase : Phrase → Parser Node) : Parser Node := do
  match ← peek with
  | .wordLet => declaration phrase
  | .wordReturn => returning phrase
  | .wordFor => loop phrase
  | _ => expressionStatement phrase

/-- The statements of a block behind its opening brace, up to the closing one. -/
def blockStatements (phrase : Phrase → Parser Node) : Nat → Parser (List Node)
  | 0 => throw .exhausted
  | turns + 1 => do
      match ← peek with
      | .closeBrace =>
          let _ ← shift
          return []
      | .eof => fail (.expectedNext .closeBrace .eof)
      | _ =>
          let node ← attempt (statement phrase)
          let nodes ← blockStatements phrase turns
          return node.toList ++ nodes

/-- Statements in braces. -/
def block (phrase : Phrase → Parser Node) (bound : Nat) : Parser Node := do
  let token ← expect .openBrace
  let statements ← blockStatements phrase bound
  return .block (some token) statements

end Scriptlet.Parser
