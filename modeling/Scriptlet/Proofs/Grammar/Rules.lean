import Scriptlet.Parser.Statement

/-!
# The grammar of programs

The sentences of the language, as relations between a list of tokens, the tokens behind a phrase
and the node of the phrase: `Expression tokens rest node` says that `tokens` begins with an
expression, that `rest` follows it, and that `node` stands for it. Nodes never decide whether a
phrase is there; they are computed from its parts. Which integer tokens are literals is a parameter.

Operands and binary operators alternate without precedence in `Expression`; `grouped` puts the
parentheses in. The one restriction beyond context is that an expression statement without its
semicolon must not be followed by a token that would extend the expression.
-/

namespace Scriptlet

namespace Kind

/-- The kinds of the operators between two operands, assignment among them. -/
def isBinary : Kind → Bool
  | assign | equal | notEqual | less | lessEqual | greater | greaterEqual => true
  | plus | minus | asterisk | slash | percent => true
  | _ => false

/-- The kinds that begin a call, an index or a member behind an operand. -/
def isPostfix : Kind → Bool
  | openParen | openBracket | dot => true
  | _ => false

/-- The kinds that extend an expression standing before them. -/
def isContinuing (kind : Kind) : Bool :=
  kind.isBinary || kind.isPostfix || kind = wordElse

end Kind

namespace Grammar

/-- A list of tokens that does not extend an expression standing before it. -/
def Ended (rest : List Token) : Prop :=
  ∀ token ∈ rest.head?, token.kind.isContinuing = false

/-- The application of a binary operator. -/
def applied (operator : Token) (left right : Node) : Node :=
  if operator.kind = .assign then
    .assign (some operator) left right
  else
    .binary (some operator) left operator.text right

/-- The operator of a link binds tighter than `power`. -/
def binds (power : Nat) (link : Token × Node) : Bool :=
  power < link.1.kind.power

/-- The node of an operand and the operators and operands behind it. The first operator takes what
binds tighter as its right side, and its application is the left side of the next one. -/
def grouped (first : Node) : List (Token × Node) → Node
  | [] => first
  | (operator, right) :: links =>
      let right := grouped right (links.takeWhile (binds operator.kind.power))
      grouped (applied operator first right) (links.dropWhile (binds operator.kind.power))
termination_by links => links.length
decreasing_by
  · exact Nat.lt_succ_of_le (List.takeWhile_sublist _).length_le
  · exact Nat.lt_succ_of_le (List.dropWhile_sublist _).length_le

/-- Items with commas between them. -/
inductive Items {α : Type} (item : List Token → List Token → α → Prop) :
    List Token → List Token → List α → Prop where
  | nil {rest} : Items item rest rest []
  | single {tokens rest value} : item tokens rest value → Items item tokens rest [value]
  | comma {token tokens middle rest value next values} :
      item tokens (token :: middle) value → token.kind = .comma →
      Items item middle rest (next :: values) → Items item tokens rest (value :: next :: values)

/-- A parameter of a function literal. -/
inductive Parameter : List Token → List Token → Node → Prop where
  | name {token rest} :
      token.kind = .ident → Parameter (token :: rest) rest (.identifier (some token) token.text)

variable (literal : Token → Prop)

mutual

/-- An expression: operands with binary operators between them. -/
inductive Expression : List Token → List Token → Node → Prop where
  | links {tokens middle rest first links} :
      Operand tokens middle first → Links middle rest links →
      Expression tokens rest (grouped first links)

/-- Binary operators, each with the operand behind it. -/
inductive Links : List Token → List Token → List (Token × Node) → Prop where
  | nil {rest} : Links rest rest []
  | cons {operator tokens middle rest right links} :
      operator.kind.isBinary = true → Operand tokens middle right → Links middle rest links →
      Links (operator :: tokens) rest ((operator, right) :: links)

/-- An operand: unary operators before a primary expression and what is applied to it. -/
inductive Operand : List Token → List Token → Node → Prop where
  | unary {sign tokens rest operand} :
      sign.kind = .bang ∨ sign.kind = .minus → Operand tokens rest operand →
      Operand (sign :: tokens) rest (.unary (some sign) sign.text operand)
  | primary {tokens middle rest target node} :
      Primary tokens middle target → Postfixes target middle rest node →
      Operand tokens rest node

/-- The calls, indices and members behind an operand, which is the node they are applied to. -/
inductive Postfixes : Node → List Token → List Token → Node → Prop where
  | nil {target rest} : Postfixes target rest rest target
  | call {target paren close tokens middle rest arguments node} :
      paren.kind = .openParen → Items Expression tokens (close :: middle) arguments →
      close.kind = .closeParen →
      Postfixes (.call (some paren) target arguments) middle rest node →
      Postfixes target (paren :: tokens) rest node
  | index {target bracket close tokens middle rest position node} :
      bracket.kind = .openBracket → Expression tokens (close :: middle) position →
      close.kind = .closeBracket →
      Postfixes (.index (some bracket) target position) middle rest node →
      Postfixes target (bracket :: tokens) rest node
  | member {target dot name middle rest node} :
      dot.kind = .dot → name.kind = .ident →
      Postfixes (.member (some dot) target (.identifier (some name) name.text)) middle rest node →
      Postfixes target (dot :: name :: middle) rest node

/-- A primary expression. -/
inductive Primary : List Token → List Token → Node → Prop where
  | identifier {token rest} :
      token.kind = .ident → Primary (token :: rest) rest (.identifier (some token) token.text)
  | integer {token rest} :
      token.kind = .int → literal token →
      Primary (token :: rest) rest (.integer (some token) (Parser.decimal token.text.toList))
  | string {token rest} :
      token.kind = .string → Primary (token :: rest) rest (.string (some token) token.text)
  | yes {token rest} :
      token.kind = .wordTrue → Primary (token :: rest) rest (.boolean (some token) true)
  | no {token rest} :
      token.kind = .wordFalse → Primary (token :: rest) rest (.boolean (some token) false)
  | group {paren close tokens rest node} :
      paren.kind = .openParen → Expression tokens (close :: rest) node →
      close.kind = .closeParen → Primary (paren :: tokens) rest node
  | array {bracket close tokens rest elements} :
      bracket.kind = .openBracket → Items Expression tokens (close :: rest) elements →
      close.kind = .closeBracket →
      Primary (bracket :: tokens) rest (.array (some bracket) elements)
  | map {brace close tokens rest pairs} :
      brace.kind = .openBrace → Items Pair tokens (close :: rest) pairs →
      close.kind = .closeBrace → Primary (brace :: tokens) rest (.map (some brace) pairs)
  | choice {word paren close tokens middle rest test consequence} :
      word.kind = .wordIf → paren.kind = .openParen → Expression tokens (close :: middle) test →
      close.kind = .closeParen → Block middle rest consequence →
      Primary (word :: paren :: tokens) rest (.choice (some word) test consequence none)
  | alternative {word paren close other tokens middle behind rest test consequence no} :
      word.kind = .wordIf → paren.kind = .openParen → Expression tokens (close :: middle) test →
      close.kind = .closeParen → Block middle (other :: behind) consequence →
      other.kind = .wordElse → Block behind rest no →
      Primary (word :: paren :: tokens) rest (.choice (some word) test consequence (some no))
  | function {word paren close tokens middle rest parameters body} :
      word.kind = .wordFn → paren.kind = .openParen →
      Items Parameter tokens (close :: middle) parameters → close.kind = .closeParen →
      Block middle rest body →
      Primary (word :: paren :: tokens) rest (.function (some word) parameters body)

/-- A key, a colon and a value. -/
inductive Pair : List Token → List Token → Node × Node → Prop where
  | colon {token tokens middle rest key value} :
      Expression tokens (token :: middle) key → token.kind = .colon →
      Expression middle rest value → Pair tokens rest (key, value)

/-- Statements in braces. -/
inductive Block : List Token → List Token → Node → Prop where
  | braces {brace close tokens rest statements} :
      brace.kind = .openBrace → Statements tokens (close :: rest) statements →
      close.kind = .closeBrace → Block (brace :: tokens) rest (.block (some brace) statements)

/-- Statements one behind the other. -/
inductive Statements : List Token → List Token → List Node → Prop where
  | nil {rest} : Statements rest rest []
  | closed {tokens middle rest node nodes} :
      Statement tokens middle node → Statements middle rest nodes →
      Statements tokens rest (node :: nodes)
  | unclosed {first tokens middle rest body nodes} :
      Expression (first :: tokens) middle body → Ended middle → Statements middle rest nodes →
      Statements (first :: tokens) rest (.expression (some first) body :: nodes)

/-- A statement that shows its own end. -/
inductive Statement : List Token → List Token → Node → Prop where
  | declaration {tokens rest node} : Declaration tokens rest node → Statement tokens rest node
  | returning {word semicolon rest} :
      word.kind = .wordReturn → semicolon.kind = .semicolon →
      Statement (word :: semicolon :: rest) rest (.returning (some word) none)
  | returningValue {word semicolon tokens rest value} :
      word.kind = .wordReturn → Expression tokens (semicolon :: rest) value →
      semicolon.kind = .semicolon →
      Statement (word :: tokens) rest (.returning (some word) (some value))
  | expression {first semicolon tokens rest body} :
      Expression (first :: tokens) (semicolon :: rest) body → semicolon.kind = .semicolon →
      Statement (first :: tokens) rest (.expression (some first) body)
  | loop {word paren tokens second third behind rest first test step body} :
      word.kind = .wordFor → paren.kind = .openParen → FirstClause tokens second first →
      TestClause second third test → StepClause third behind step → Block behind rest body →
      Statement (word :: paren :: tokens) rest (.loop (some word) first test step body)

/-- A declaration with its semicolon. -/
inductive Declaration : List Token → List Token → Node → Prop where
  | bare {word name semicolon rest} :
      word.kind = .wordLet → name.kind = .ident → semicolon.kind = .semicolon →
      Declaration (word :: name :: semicolon :: rest) rest
        (.declaration (some word) (.identifier (some name) name.text) none)
  | valued {word name equals semicolon tokens rest value} :
      word.kind = .wordLet → name.kind = .ident → equals.kind = .assign →
      Expression tokens (semicolon :: rest) value → semicolon.kind = .semicolon →
      Declaration (word :: name :: equals :: tokens) rest
        (.declaration (some word) (.identifier (some name) name.text) (some value))

/-- The first clause of a loop header with its semicolon: a declaration, an expression or
nothing. -/
inductive FirstClause : List Token → List Token → Option Node → Prop where
  | none {semicolon rest} :
      semicolon.kind = .semicolon → FirstClause (semicolon :: rest) rest none
  | declaration {tokens rest node} :
      Declaration tokens rest node → FirstClause tokens rest (some node)
  | expression {first semicolon tokens rest body} :
      Expression (first :: tokens) (semicolon :: rest) body → semicolon.kind = .semicolon →
      FirstClause (first :: tokens) rest (some (.expression (some first) body))

/-- The test of a loop header with its semicolon: an expression or nothing. -/
inductive TestClause : List Token → List Token → Option Node → Prop where
  | none {semicolon rest} :
      semicolon.kind = .semicolon → TestClause (semicolon :: rest) rest none
  | expression {first semicolon tokens rest body} :
      Expression (first :: tokens) (semicolon :: rest) body → semicolon.kind = .semicolon →
      TestClause (first :: tokens) rest (some (.expression (some first) body))

/-- The last clause of a loop header with the closing parenthesis: a declaration with its semicolon,
an expression with or without one, or nothing. -/
inductive StepClause : List Token → List Token → Option Node → Prop where
  | none {close rest} : close.kind = .closeParen → StepClause (close :: rest) rest none
  | declaration {close tokens rest node} :
      Declaration tokens (close :: rest) node → close.kind = .closeParen →
      StepClause tokens rest (some node)
  | expression {first close tokens rest body} :
      Expression (first :: tokens) (close :: rest) body → close.kind = .closeParen →
      StepClause (first :: tokens) rest (some (.expression (some first) body))
  | terminated {first semicolon close tokens rest body} :
      Expression (first :: tokens) (semicolon :: close :: rest) body →
      semicolon.kind = .semicolon → close.kind = .closeParen →
      StepClause (first :: tokens) rest (some (.expression (some first) body))

end

end Grammar

end Scriptlet
