import Scriptlet.Node.Basic

/-!
# Parser states

A parser reads a list of tokens and collects syntax errors. A construct that fails stops with
`missing`, and what it has read stays read; the enclosing statement list goes on behind it, so one
pass reports several errors.
-/

namespace Scriptlet

/-- A syntax error. -/
inductive SyntaxError where
  /-- The next token should have been of another kind. -/
  | expectedNext (wanted found : Kind)
  /-- The token just read should have been of another kind. -/
  | expectedHere (wanted found : Kind)
  /-- No expression begins with a token of this kind. -/
  | noOperand (found : Kind)
  /-- The integer literal is greater than every integer of the language. -/
  | integerTooLarge (literal : String)
deriving DecidableEq, Repr

/-- The wording of a syntax error. -/
def SyntaxError.message : SyntaxError → String
  | expectedNext wanted found =>
      "expected next token to be " ++ wanted.display ++ ", got " ++ found.display ++ " instead"
  | expectedHere wanted found =>
      "expected token to be " ++ wanted.display ++ ", got " ++ found.display ++ " instead"
  | noOperand found => "no prefix parse function for " ++ found.display ++ " found"
  | integerTooLarge literal => "could not parse " ++ literal ++ " as an integer"

/-- Why a parser stops without a result. -/
inductive Stop where
  /-- The construct is not there; the errors of the state say why. -/
  | missing
  /-- An integer literal has too many digits to be read at all. -/
  | oversized (digits : Nat)
  /-- The bound on nested constructs was too small for the text. -/
  | exhausted
deriving DecidableEq, Repr

namespace Parser

/-- What a parser has in hand: the kind of the token it read last, the tokens it has not read, and
the errors so far, oldest first. -/
structure State where
  last : Kind
  rest : List Token
  errors : List SyntaxError
deriving Repr

/-- The kind of the next token; at the end of the text it stays the end marker. -/
def State.next (state : State) : Kind :=
  match state.rest with
  | [] => .eof
  | token :: _ => token.kind

/-- The state with one more error. -/
def State.report (state : State) (error : SyntaxError) : State :=
  { state with errors := state.errors ++ [error] }

end Parser

/-- A parser: it may stop early, and keeps its state when it does. -/
abbrev Parser := EStateM Stop Parser.State

namespace Parser

/-- Stop with an error. -/
def fail {α : Type} (error : SyntaxError) : Parser α := fun state =>
  .error .missing (state.report error)

/-- The kind of the next token, which stays unread. -/
def peek : Parser Kind := fun state =>
  .ok state.next state

/-- The next token, which stays unread. -/
def peekToken : Parser Origin := fun state =>
  .ok state.rest.head? state

/-- Read the next token; at the end of the text there is none. -/
def shift : Parser Origin := fun state =>
  match state.rest with
  | [] => .ok none state
  | token :: rest => .ok (some token) { state with last := token.kind, rest := rest }

/-- Read the next token if it is of the given kind, and say whether it was. -/
def accept (kind : Kind) : Parser Bool := fun state =>
  match state.rest with
  | [] => .ok false state
  | token :: rest =>
      if token.kind = kind then
        .ok true { state with last := token.kind, rest := rest }
      else
        .ok false state

/-- Read the next token, which must be of the given kind; else it stays unread. -/
def expect (kind : Kind) : Parser Token := fun state =>
  match state.rest with
  | [] => .error .missing (state.report (.expectedNext kind .eof))
  | token :: rest =>
      if token.kind = kind then
        .ok token { state with last := token.kind, rest := rest }
      else
        .error .missing (state.report (.expectedNext kind token.kind))

/-- The token read last must have been of the given kind. -/
def expectRead (kind : Kind) : Parser Unit := fun state =>
  if state.last = kind then
    .ok () state
  else
    .error .missing (state.report (.expectedHere kind state.last))

/-- Run a parser and go on without its result when it finds its construct missing. -/
def attempt {α : Type} (parser : Parser α) : Parser (Option α) := fun state =>
  match parser state with
  | .ok value state => .ok (some value) state
  | .error .missing state => .ok none state
  | .error stop state => .error stop state

/-- The items behind the first one of a list: a comma before each, and the closing token behind the
last. -/
def moreItems {α : Type} (close : Kind) (item : Parser α) : Nat → Parser (List α)
  | 0 => throw .exhausted
  | bound + 1 => do
      if ← accept .comma then
        let value ← item
        let values ← moreItems close item bound
        return value :: values
      else
        let _ ← expect close
        return []

/-- A list of items up to its closing token: commas between them, none behind the last. -/
def items {α : Type} (close : Kind) (item : Parser α) (bound : Nat) : Parser (List α) := do
  if ← accept close then
    return []
  else
    let value ← item
    let values ← moreItems close item bound
    return value :: values

end Parser

end Scriptlet
