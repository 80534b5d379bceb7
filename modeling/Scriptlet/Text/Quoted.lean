import Scriptlet.Text.Unprintable

/-!
# Quoted text

A text in quotes on one line: the apostrophe delimits it unless the text holds an apostrophe and no
quotation mark. A backslash, the delimiter and every character without a printed form are escaped.
Which characters have none is a matter of the character set, so the functions take it as a
parameter, `hidden`; `quoted` follows Unicode.
-/

namespace Scriptlet.Text

/-- The lower-case hexadecimal digits of a number, with zeros in front up to a width. -/
def hexadecimal (width value : Nat) : List Char :=
  let digits := Nat.toDigits 16 value
  List.replicate (width - digits.length) '0' ++ digits

/-- The delimiter of a quoted text. -/
def delimiter (chars : List Char) : Char :=
  if chars.contains '\'' && !chars.contains '"' then '"' else '\''

/-- The escape of a character by its number: two, four or eight digits. -/
def numericEscape (char : Char) : List Char :=
  if char.toNat < 0x100 then
    '\\' :: 'x' :: hexadecimal 2 char.toNat
  else if char.toNat < 0x10000 then
    '\\' :: 'u' :: hexadecimal 4 char.toNat
  else
    '\\' :: 'U' :: hexadecimal 8 char.toNat

/-- A character inside a quoted text with the given delimiter. -/
def escapeChar (hidden : Char → Bool) (quote char : Char) : List Char :=
  if char = '\\' || char = quote then
    ['\\', char]
  else if char = '\n' then
    ['\\', 'n']
  else if char = '\r' then
    ['\\', 'r']
  else if char = '\t' then
    ['\\', 't']
  else if hidden char then
    numericEscape char
  else
    [char]

/-- The quoted form of a text, by its characters. -/
def quoteChars (hidden : Char → Bool) (chars : List Char) : List Char :=
  let quote := delimiter chars
  quote :: (chars.flatMap (escapeChar hidden quote) ++ [quote])

/-- The quoted form of a text when the hidden characters have no printed form. -/
def quotedBy (hidden : Char → Bool) (text : String) : String :=
  String.ofList (quoteChars hidden text.toList)

/-- The quoted form of a text. -/
def quoted (text : String) : String :=
  quotedBy isUnprintable text

end Scriptlet.Text
