import Scriptlet.Token.Lexer

/-!
# Tokens one at a time

A cursor stands in a text and reads one token on demand. At the end of the text it stays there, and
every further token is the end marker.
-/

namespace Scriptlet.Token

/-- What is left to read of a text, and the place where it begins. -/
structure Cursor where
  position : Position
  rest : List Char

namespace Cursor

/-- A cursor before the first character of a text. -/
def start (source : String) : Cursor :=
  ⟨.start, source.toList⟩

/-- Skip blanks and read one token, the end marker where nothing but blanks is left. -/
def next (cursor : Cursor) : Token × Cursor :=
  let place := cursor.position.after (cursor.rest.takeWhile isBlank)
  match cursor.rest.dropWhile isBlank with
  | [] => (⟨.eof, "", place⟩, ⟨place, []⟩)
  | first :: rest =>
      let lexeme := scan first rest
      (⟨lexeme.kind, String.ofList lexeme.text, place⟩,
        ⟨place.after (spell lexeme.kind lexeme.text), lexeme.rest⟩)

/-- The tokens of so many readings, one behind the other. -/
def pull (cursor : Cursor) : Nat → List Token
  | 0 => []
  | count + 1 => cursor.next.1 :: cursor.next.2.pull count

end Cursor

end Scriptlet.Token
