/-!
# Line ends

A text read from outside may end its lines with a line feed, a carriage return or both together;
inside, every line ends with a line feed.
-/

namespace Scriptlet.Text

/-- Every line end as a line feed. -/
def unifyNewlines : List Char → List Char
  | [] => []
  | '\r' :: '\n' :: rest => '\n' :: unifyNewlines rest
  | '\r' :: rest => '\n' :: unifyNewlines rest
  | char :: rest => char :: unifyNewlines rest

/-- The text of UTF-8 bytes with its line ends unified, or `none` when the bytes are no UTF-8. -/
def ofBytes? (bytes : ByteArray) : Option String :=
  (String.fromUTF8? bytes).map fun text => String.ofList (unifyNewlines text.toList)

/-- The lines of a text, cut at every line feed. -/
def lines : List Char → List (List Char)
  | [] => [[]]
  | char :: rest =>
      if char = '\n' then
        [] :: lines rest
      else
        match lines rest with
        | [] => [[char]]
        | line :: others => (char :: line) :: others

end Scriptlet.Text
