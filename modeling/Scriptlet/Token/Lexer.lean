import Scriptlet.Token.Basic

/-!
# From characters to tokens

`tokenize` skips blanks and cuts the text into lexemes, each the longest of its class: a word, a
number, a quoted string, an operator of two characters before one of one. It fails on no text; an
unknown character and a string without its closing quote become `illegal` tokens.
-/

namespace Scriptlet.Token

/-- The blanks between tokens: space, tab, line feed, carriage return, form feed, vertical tab. -/
def isBlank (char : Char) : Bool :=
  char = ' ' || char = '\t' || char = '\n' || char = '\r' || char = '\x0c' || char = '\x0b'

/-- The letters of words are the ASCII ones. -/
def isLetter (char : Char) : Bool :=
  char.isAlpha

/-- The digits of numbers are the ASCII ones. -/
def isDigit (char : Char) : Bool :=
  char.isDigit

/-- The character may stand inside a quoted string. -/
def isQuotable (char : Char) : Bool :=
  char != '"'

/-- A lexeme cut from the front of a text: its kind, its text and what follows it. -/
structure Lexeme where
  kind : Kind
  text : List Char
  rest : List Char

/-- Cut a string literal whose opening quote has been read. Without a closing quote all that is
left is one illegal lexeme, quote included. -/
def scanString (chars : List Char) : Lexeme :=
  match chars.dropWhile isQuotable with
  | [] => ⟨.illegal, '"' :: chars, []⟩
  | _ :: rest => ⟨.string, chars.takeWhile isQuotable, rest⟩

/-- Cut a symbol or an unknown character; a two-character operator goes first. -/
def scanSymbol (first : Char) (chars : List Char) : Lexeme :=
  match chars with
  | [] => ⟨.ofChar first, [first], []⟩
  | second :: rest =>
      match Kind.ofPair? first second with
      | some kind => ⟨kind, [first, second], rest⟩
      | none => ⟨.ofChar first, [first], second :: rest⟩

/-- Cut the lexeme that begins with the character `first`, which is no blank. -/
def scan (first : Char) (chars : List Char) : Lexeme :=
  if first = '"' then
    scanString chars
  else if isLetter first then
    let word := first :: chars.takeWhile isLetter
    ⟨.ofWord (String.ofList word), word, chars.dropWhile isLetter⟩
  else if isDigit first then
    ⟨.int, first :: chars.takeWhile isDigit, chars.dropWhile isDigit⟩
  else
    scanSymbol first chars

/-- Dropping a run never lengthens a list. -/
theorem length_dropWhile_le {α : Type} (p : α → Bool) (list : List α) :
    (list.dropWhile p).length ≤ list.length :=
  (List.dropWhile_sublist p).length_le

/-- A lexeme leaves no more than what stood behind its first character. -/
theorem length_rest_scan_le (first : Char) (chars : List Char) :
    (scan first chars).rest.length ≤ chars.length := by
  unfold scan
  split
  · have hdrop := length_dropWhile_le isQuotable chars
    unfold scanString
    split
    · simp
    · next rest hrest =>
        rw [hrest] at hdrop
        simp only [List.length_cons] at hdrop
        simp only
        omega
  · split
    · exact length_dropWhile_le isLetter chars
    · split
      · exact length_dropWhile_le isDigit chars
      · unfold scanSymbol
        split
        · simp
        · split <;> simp

/-- Skipping blanks and cutting one lexeme shortens the text. -/
theorem length_rest_lt {chars rest : List Char} {first : Char}
    (h : chars.dropWhile isBlank = first :: rest) :
    (scan first rest).rest.length < chars.length := by
  have hdrop := length_dropWhile_le isBlank chars
  have hscan := length_rest_scan_le first rest
  rw [h] at hdrop
  simp only [List.length_cons] at hdrop
  omega

/-- The tokens of a text whose first character stands at `position`, without an end marker. -/
def lex (position : Position) (chars : List Char) : List Token :=
  let place := position.after (chars.takeWhile isBlank)
  match _h : chars.dropWhile isBlank with
  | [] => []
  | first :: rest =>
      let lexeme := scan first rest
      ⟨lexeme.kind, String.ofList lexeme.text, place⟩ ::
        lex (place.after (spell lexeme.kind lexeme.text)) lexeme.rest
termination_by chars.length
decreasing_by exact length_rest_lt ‹_›

/-- The end marker of a text stands behind its last character. -/
def endOf (source : String) : Token :=
  ⟨.eof, "", Position.start.after source.toList⟩

/-- The tokens of a text, without an end marker. -/
def ofText (source : String) : List Token :=
  lex .start source.toList

/-- The tokens of a text and its end marker. -/
def tokenize (source : String) : List Token :=
  ofText source ++ [endOf source]

end Scriptlet.Token
