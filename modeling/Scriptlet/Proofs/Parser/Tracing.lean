import Mathlib.Algebra.Group.Int.Defs
import Scriptlet.Proofs.Parser.Acceptance
import Scriptlet.Proofs.Parser.Formation
import Scriptlet.Proofs.Token.Spelling

/-!
# Nodes go back to tokens

Every node below a program that was read goes back to a token of the text, the one that introduced
it, and its data are such as the tokens of a text have: small numbers, strings without quotes, names
that are no words of the language, known operators (`traced_of_parse`). This goes for what is left
of a text with errors too, since `Node.Formed` is about each run of a parser on its own.
-/

namespace Scriptlet

/-- The operators in front of an operand. -/
theorem Kind.symbol?_of_unary {kind : Kind} (h : kind = .bang ∨ kind = .minus) :
    ∃ symbol ∈ ["!", "-"], kind.symbol? = some symbol := by
  rcases h with rfl | rfl <;> exact ⟨_, by decide, rfl⟩

/-- The operators between two operands, without assignment. -/
theorem Kind.symbol?_of_isBinary {kind : Kind} (h : kind.isBinary = true)
    (hassign : kind ≠ .assign) :
    ∃ symbol ∈ ["==", "!=", "<", "<=", ">", ">=", "+", "-", "*", "/", "%"],
      kind.symbol? = some symbol := by
  cases kind <;> first
    | contradiction
    | exact ⟨_, by decide, rfl⟩

namespace Node

/-- The node may be the test of a loop: an expression used as a statement. -/
def isTest : Node → Bool
  | expression _ _ => true
  | _ => false

/-- The node may be the first or last clause of a loop header. -/
def isClause : Node → Bool
  | declaration _ _ _ => true
  | node => node.isTest

/-- The node may stand in a list of statements, as a block or a program may not. -/
def isStatement : Node → Bool
  | returning _ _ => true
  | loop _ _ _ _ _ => true
  | node => node.isClause

/-- The data of the node are such as tokens have, and the nodes in its list of statements or in its
loop header are of the sorts that stand there. -/
def Regular : Node → Prop
  | program statements => ∀ node ∈ statements, node.isStatement = true
  | block _ statements => ∀ node ∈ statements, node.isStatement = true
  | loop _ first test step _ =>
      (∀ node ∈ first, node.isClause = true) ∧ (∀ node ∈ test, node.isTest = true) ∧
        ∀ node ∈ step, node.isClause = true
  | integer _ value => 0 ≤ value ∧ value ≤ 2 ^ 63 - 1
  | string _ value => '"' ∉ value.toList
  | identifier _ name => name ≠ "" ∧ (∀ char ∈ name.toList, char.isAlpha = true) ∧
      ∀ kind : Kind, kind.word? ≠ some name
  | unary _ operator _ => operator ∈ ["!", "-"]
  | binary _ _ operator _ =>
      operator ∈ ["==", "!=", "<", "<=", ">", ">=", "+", "-", "*", "/", "%"]
  | _ => True

/-- The token is the one of the text that introduced the node. An expression statement is introduced
by the first token that was read for it, and any other node by a token of its own kind. -/
structure IntroducedBy (source : String) (token : Token) (node : Node) : Prop where
  mem : token ∈ Token.tokenize source
  origin : node.origin = some token
  begins : node.Begins token
  opens : ∀ origin body, node = expression origin body →
    Parser.Opens (Token.ofText source) token body

section Formed

variable {tokens : List Token} {place : Place} {node : Node}

theorem Formed.isTest (h : node.Formed tokens .test) : node.isTest = true := by
  cases h
  rfl

/-- What is formed for the place of a clause is a declaration or an expression. -/
theorem Formed.isClause (h : node.Formed tokens .clause) : node.isClause = true := by
  cases h with
  | declaration => rfl
  | testClause htest =>
      cases htest
      rfl

/-- What is formed for the place of a statement is one. -/
theorem Formed.isStatement (h : node.Formed tokens .statement) : node.isStatement = true := by
  cases h with
  | returning | loop => rfl
  | clauseStatement hclause =>
      cases hclause with
      | declaration => rfl
      | testClause htest =>
          cases htest
          rfl

/-- A name has the letters that its token is spelled with. -/
theorem regular_name {origin : Origin} {text : String}
    (h : Token.Spelled .ident text.toList) : (identifier origin text).Regular := by
  generalize htext : text.toList = chars at h
  cases h with
  | name hne hletters hwords =>
      rw [← htext, String.ofList_toList] at hwords
      refine ⟨fun hempty => hne ?_, fun char hchar => hletters char (htext ▸ hchar), hwords⟩
      rw [← htext, hempty]
      rfl
  | word hword | symbol hword => cases hword

/-- A string that was spelled holds what strings can hold. -/
theorem regular_string {origin : Origin} {text : String}
    (h : Token.Spelled .string text.toList) : (string origin text).Regular := by
  intro hquote
  generalize text.toList = chars at h hquote
  cases h with
  | quoted hquotable => exact absurd (hquotable _ hquote) (by decide)
  | word hword | symbol hword => cases hword

/-- A node that was read from tokens of a text is regular. -/
theorem Formed.regular (hspelled : ∀ token ∈ tokens, Token.Spelled token.kind token.text.toList)
    (h : node.Formed tokens place) : node.Regular := by
  induction h with
  | identifier _ ih | testClause _ ih | clauseStatement _ ih => exact ih
  | name htoken hkind => exact regular_name (hkind ▸ hspelled _ htoken)
  | string htoken hkind => exact regular_string (hkind ▸ hspelled _ htoken)
  -- Digits have no sign, and a literal above the greatest integer is an error.
  | integer _ _ hreadable => exact ⟨Int.natCast_nonneg _, Int.ofNat_le.2 hreadable.2⟩
  | unary hsign hkind =>
      obtain ⟨symbol, hmem, hsymbol⟩ := Kind.symbol?_of_unary hkind
      exact (hspelled _ hsign).symbol?_eq hsymbol ▸ hmem
  | binary hoperator hbinary hassign =>
      obtain ⟨symbol, hmem, hsymbol⟩ := Kind.symbol?_of_isBinary hbinary hassign
      exact (hspelled _ hoperator).symbol?_eq hsymbol ▸ hmem
  | loop _ _ hfirst htest hstep =>
      exact ⟨fun node hnode => (hfirst node hnode).isClause,
        fun node hnode => (htest node hnode).isTest,
        fun node hnode => (hstep node hnode).isClause⟩
  | block _ _ hstatements => exact fun node hnode => (hstatements node hnode).isStatement
  | yes | no | assign | call | index | member | array | map | choice | function | test
  | declaration | returning => trivial

/-- An expression statement was read from its origin on. -/
theorem Formed.opens {origin : Origin} {body : Node}
    (h : (expression origin body).Formed tokens place) :
    ∃ first, origin = some first ∧ Parser.Opens tokens first body := by
  generalize hnode : expression origin body = node at h
  induction h with
  | identifier _ ih | testClause _ ih | clauseStatement _ ih => exact ih hnode
  | test hopens =>
      cases hnode
      exact ⟨_, rfl, hopens⟩
  | _ => cases hnode

end Formed

end Node

/-- Whatever the parser gives goes back to the text: each node below the program to the token that
introduced it, also where the text has errors. -/
theorem traced_of_parse {source : String} {parsed : Parsed} (h : parse source = .ok parsed) :
    parsed.program.Regular ∧
      ∀ statement ∈ parsed.statements, ∀ node, statement.Contains node →
        node.Regular ∧ ∃ token, node.IntroducedBy source token := by
  refine ⟨fun node hnode => (formed_of_parse h node hnode).isStatement, ?_⟩
  intro statement hstatement node hcontains
  obtain ⟨place, hformed⟩ := (formed_of_parse h statement hstatement).part hcontains
  refine ⟨hformed.regular fun _ => Token.spelled_of_mem_ofText, ?_⟩
  obtain ⟨token, htoken, horigin, hbegins⟩ := hformed.begins
  refine ⟨token, List.mem_append_left _ htoken, horigin, hbegins, ?_⟩
  rintro origin body rfl
  obtain ⟨first, hfirst, hopens⟩ := hformed.opens
  cases hfirst.symm.trans horigin
  exact hopens

/-- A declaration without a name: the rest of it is read as an expression, which begins with a
parenthesis. -/
theorem traced_of_parse_nameless :
    let source := "let (5) + 1;"
    ∃ parsed, parse source = .ok parsed ∧ parsed.errors ≠ [] ∧ ∃ node ∈ parsed.statements,
      node.Regular ∧ node.IntroducedBy source ⟨.openParen, "(", ⟨1, 5⟩⟩ := by
  intro source
  have hread : (parse source).toOption.map
      (fun parsed => (parsed.errors.isEmpty, parsed.statements.map Node.origin)) =
        some (false, [some ⟨.openParen, "(", ⟨1, 5⟩⟩]) := by
    decide +kernel
  obtain ⟨parsed, hparsed, hresult⟩ := Option.map_eq_some_iff.1 hread
  obtain ⟨herrors, horigins⟩ := Prod.mk.inj hresult
  obtain ⟨node, hnodes, horigin⟩ := List.map_eq_singleton_iff.1 horigins
  have hparse : parse source = .ok parsed := parse_of_toOption hparsed
  have hmem : node ∈ parsed.statements := hnodes ▸ List.mem_singleton_self node
  obtain ⟨hregular, token, hintroduced⟩ := (traced_of_parse hparse).2 node hmem node .self
  cases horigin.symm.trans hintroduced.origin
  exact ⟨parsed, hparse, fun hnil => by simp [hnil] at herrors, node, hmem, hregular, hintroduced⟩

end Scriptlet
