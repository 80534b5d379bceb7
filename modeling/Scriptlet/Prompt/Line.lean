import Scriptlet.Token.Lexer

/-!
# Lines at the prompt

How many brackets of a text are still open, and which characters are dropped from pasted text.
-/

namespace Scriptlet.Prompt

/-- The number of open brackets behind one more token; a closing one never goes below zero. -/
def stepDepth (depth : Nat) (token : Token) : Nat :=
  if token.kind.isOpening then depth + 1 else if token.kind.isClosing then depth - 1 else depth

/-- The number of brackets that a text leaves open. -/
def depth (text : String) : Nat :=
  (Token.ofText text).foldl stepDepth 0

/-- The characters that pasted text brings along unseen: zero-width ones, the byte order mark, the
fixed blank and the carriage return. -/
def isInvisible (char : Char) : Bool :=
  char = '\u200b' || char = '\u200c' || char = '\u200d' || char = '\ufeff' || char = '\u00a0' ||
    char = '\r'

/-- A text without its invisible characters. -/
def clean (text : String) : String :=
  String.ofList (text.toList.filter fun char => !isInvisible char)

end Scriptlet.Prompt
