/-!
# Tokens

A token is a kind, a text and the place where it starts. Kinds cover the literals, the operators,
the punctuation and the eight reserved words; `illegal` marks what the language does not know and
`eof` the end of the text.
-/

namespace Scriptlet

/-- A place in a text: line and column count from one, in code points. -/
structure Position where
  line : Nat
  column : Nat
deriving DecidableEq, Repr, Inhabited

namespace Position

/-- The place of the first character of a text. -/
def start : Position := ⟨1, 1⟩

/-- The place behind one character: a line feed opens the next line. -/
def advance (position : Position) (char : Char) : Position :=
  if char = '\n' then ⟨position.line + 1, 1⟩ else ⟨position.line, position.column + 1⟩

/-- The place behind a run of characters. -/
def after (position : Position) (chars : List Char) : Position :=
  chars.foldl advance position

end Position

/-- What sort of token stands in the text. -/
inductive Kind where
  | illegal | eof
  | ident | int | string
  | assign | plus | minus | bang | asterisk | slash | percent
  | less | lessEqual | greater | greaterEqual | equal | notEqual
  | dot | comma | colon | semicolon
  | openParen | closeParen | openBracket | closeBracket | openBrace | closeBrace
  | wordFn | wordLet | wordTrue | wordFalse | wordIf | wordElse | wordReturn | wordFor
deriving DecidableEq, Repr, Inhabited

namespace Kind

/-- The name of a kind in token dumps. -/
def name : Kind → String
  | illegal => "ILLEGAL"
  | eof => "EOF"
  | ident => "IDENT"
  | int => "INT"
  | string => "STRING"
  | assign => "ASSIGN"
  | plus => "PLUS"
  | minus => "MINUS"
  | bang => "BANG"
  | asterisk => "ASTERISK"
  | slash => "SLASH"
  | percent => "MOD"
  | less => "LT"
  | lessEqual => "LTE"
  | greater => "GT"
  | greaterEqual => "GTE"
  | equal => "EQ"
  | notEqual => "NOT_EQ"
  | dot => "DOT"
  | comma => "COMMA"
  | colon => "COLON"
  | semicolon => "SEMICOLON"
  | openParen => "LPAREN"
  | closeParen => "RPAREN"
  | openBracket => "LBRACKET"
  | closeBracket => "RBRACKET"
  | openBrace => "LBRACE"
  | closeBrace => "RBRACE"
  | wordFn => "FUNCTION"
  | wordLet => "LET"
  | wordTrue => "TRUE"
  | wordFalse => "FALSE"
  | wordIf => "IF"
  | wordElse => "ELSE"
  | wordReturn => "RETURN"
  | wordFor => "FOR"

/-- The characters of an operator or punctuation kind. -/
def symbol? : Kind → Option String
  | assign => some "="
  | plus => some "+"
  | minus => some "-"
  | bang => some "!"
  | asterisk => some "*"
  | slash => some "/"
  | percent => some "%"
  | less => some "<"
  | lessEqual => some "<="
  | greater => some ">"
  | greaterEqual => some ">="
  | equal => some "=="
  | notEqual => some "!="
  | dot => some "."
  | comma => some ","
  | colon => some ":"
  | semicolon => some ";"
  | openParen => some "("
  | closeParen => some ")"
  | openBracket => some "["
  | closeBracket => some "]"
  | openBrace => some "\x7b"
  | closeBrace => some "\x7d"
  | _ => none

/-- The name of a kind in syntax errors: its characters if it has fixed ones that are no word,
else its dump name. -/
def display (kind : Kind) : String :=
  kind.symbol?.getD kind.name

/-- The reserved word of a kind. -/
def word? : Kind → Option String
  | wordFn => some "fn"
  | wordLet => some "let"
  | wordTrue => some "true"
  | wordFalse => some "false"
  | wordIf => some "if"
  | wordElse => some "else"
  | wordReturn => some "return"
  | wordFor => some "for"
  | _ => none

/-- The kind of a word: a reserved word has its own kind, any other is an identifier. -/
def ofWord : String → Kind
  | "fn" => wordFn
  | "let" => wordLet
  | "true" => wordTrue
  | "false" => wordFalse
  | "if" => wordIf
  | "else" => wordElse
  | "return" => wordReturn
  | "for" => wordFor
  | _ => ident

/-- The kind of a two-character operator. -/
def ofPair? : Char → Char → Option Kind
  | '=', '=' => some equal
  | '!', '=' => some notEqual
  | '<', '=' => some lessEqual
  | '>', '=' => some greaterEqual
  | _, _ => none

/-- The kind of a single character that begins no word, number, string or two-character operator. -/
def ofChar : Char → Kind
  | '=' => assign
  | '+' => plus
  | '-' => minus
  | '!' => bang
  | '*' => asterisk
  | '/' => slash
  | '%' => percent
  | '<' => less
  | '>' => greater
  | '.' => dot
  | ',' => comma
  | ':' => colon
  | ';' => semicolon
  | '(' => openParen
  | ')' => closeParen
  | '[' => openBracket
  | ']' => closeBracket
  | '\x7b' => openBrace
  | '\x7d' => closeBrace
  | _ => illegal

/-- The kind opens a bracket. -/
def isOpening : Kind → Bool
  | openParen | openBracket | openBrace => true
  | _ => false

/-- The kind closes a bracket. -/
def isClosing : Kind → Bool
  | closeParen | closeBracket | closeBrace => true
  | _ => false

end Kind

/-- A token: the text of a string literal comes without its quotes, every other text as written. -/
structure Token where
  kind : Kind
  text : String
  position : Position
deriving DecidableEq, Repr, Inhabited

namespace Token

/-- The characters a token of this kind and text is written with: a string has quotes around it. -/
def spell (kind : Kind) (text : List Char) : List Char :=
  if kind = .string then '"' :: (text ++ ['"']) else text

/-- The characters the token was written with. -/
def spelling (token : Token) : List Char :=
  spell token.kind token.text.toList

end Token

end Scriptlet
