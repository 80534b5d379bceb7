import Scriptlet.Text.Newline
import Scriptlet.Token.Lexer

/-!
# Highlighting

A line is cut into fragments: one a token, in the style of its group, and unstyled ones between.
-/

namespace Scriptlet.Prompt

/-- The groups of tokens that are shown alike. -/
inductive Group where
  | keyword | boolean | number | string | identifier | function | operator | punctuation | error
deriving DecidableEq, Repr

/-- The style of a group. -/
def Group.style : Group → String
  | keyword => "bold ansicyan"
  | boolean => "ansicyan"
  | number => "ansimagenta"
  | string => "ansigreen"
  | identifier => ""
  | function => "bold ansiyellow"
  | operator => ""
  | punctuation => ""
  | error => "bold ansired"

/-- The group of a token kind, given the kind of the token behind it: a name before an opening
parenthesis is being called. -/
def Group.ofKind (kind following : Kind) : Group :=
  match kind with
  | .wordTrue | .wordFalse => boolean
  | .int => number
  | .string => string
  | .illegal => error
  | .ident => if following = .openParen then function else identifier
  | .wordFn | .wordLet | .wordIf | .wordElse | .wordReturn | .wordFor => keyword
  | .dot | .comma | .colon | .semicolon => punctuation
  | .openParen | .closeParen | .openBracket | .closeBracket | .openBrace | .closeBrace =>
      punctuation
  | _ => operator

/-- A piece of text in a style. -/
structure Fragment where
  style : String
  text : String
deriving DecidableEq, Repr

/-- The characters from `start` up to `stop`. -/
def slice (chars : List Char) (start stop : Nat) : String :=
  String.ofList ((chars.drop start).take (stop - start))

/-- An unstyled fragment, left out when it would be empty. -/
def gap (chars : List Char) (start stop : Nat) : List Fragment :=
  if start < stop then [⟨"", slice chars start stop⟩] else []

/-- The fragments of the text from `cursor` on, given the tokens that are left. A token occupies
the columns from its own on; one that begins before the cursor is passed over. -/
def fragmentsFrom (chars : List Char) (cursor : Nat) : List Token → List Fragment
  | [] => gap chars cursor chars.length
  | token :: tokens =>
      let start := token.position.column - 1
      let stop := start + token.spelling.length
      if start < cursor || stop ≤ start then
        fragmentsFrom chars cursor tokens
      else
        let following := match tokens with
          | [] => Kind.eof
          | next :: _ => next.kind
        gap chars cursor start ++
          ⟨(Group.ofKind token.kind following).style, slice chars start stop⟩ ::
            fragmentsFrom chars stop tokens

/-- The fragments of a line; an empty line is one empty fragment. -/
def highlight (line : String) : List Fragment :=
  match fragmentsFrom line.toList 0 (Token.ofText line) with
  | [] => [⟨"", line⟩]
  | fragments => fragments

/-- The fragments of a line of a text, counted from zero; behind the last line there is an empty
one. -/
def highlightLine (text : String) (number : Nat) : List Fragment :=
  match (Text.lines text.toList)[number]? with
  | some line => highlight (String.ofList line)
  | none => [⟨"", ""⟩]

end Scriptlet.Prompt
