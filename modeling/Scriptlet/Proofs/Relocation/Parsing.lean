import Scriptlet.Parser.Program
import Scriptlet.Proofs.Lockstep
import Scriptlet.Proofs.Relocation.Nodes

/-!
# Parsing tokens at other places

A parser looks at the kinds and texts of tokens and never at their places. So it goes in lockstep
with itself on the same tokens at other places: it reads as many of them, reports the same errors
and gives the moved node (`readTokens_relocate`).
-/

namespace Scriptlet.Parser

variable {α β γ δ : Type} {move : Position → Position}

/-- The state before the same tokens at other places. -/
def State.relocate (move : Position → Position) (state : State) : State :=
  { state with rest := state.rest.map (Token.relocate move) }

/-- The second parser does on moved tokens what the first one does on the tokens, and gives the
image of its result. -/
abbrev Follows (move : Position → Position) (image : α → β) (left : Parser α)
    (right : Parser β) : Prop :=
  Lockstep (fun first second => second = State.relocate move first) Eq
    (fun first second => second = image first) left right

namespace Follows

variable {image : α → β} {result : γ → δ}

theorem pure {left : α} {right : β} (h : right = image left) :
    Follows move image (pure left) (pure right) :=
  Lockstep.pure h

/-- Parsers one after the other follow as their parts do. -/
theorem bind {left : Parser α} {right : Parser β} {next : α → Parser γ} {other : β → Parser δ}
    (h : Follows move image left right)
    (hnext : ∀ value, Follows move result (next value) (other (image value))) :
    Follows move result (left >>= next) (right >>= other) := by
  refine Lockstep.bind h ?_
  intro value _ heq
  subst heq
  exact hnext value

theorem fail (error : SyntaxError) : Follows move image (fail error) (fail error) := by
  refine ⟨?_⟩
  intro state _ heq
  subst heq
  exact .error rfl rfl

theorem throw (stop : Stop) : Follows move image (throw stop) (throw stop) :=
  Lockstep.throw rfl

/-- What comes next is of the same kind. -/
theorem peek : Follows move id peek peek := by
  refine ⟨?_⟩
  intro state _ hstate
  subst hstate
  obtain ⟨last, _ | ⟨token, rest⟩, errors⟩ := state
  · exact .ok rfl rfl
  · exact .ok rfl rfl

theorem peekToken : Follows move (Origin.relocate move) peekToken peekToken := by
  refine ⟨?_⟩
  intro state _ hstate
  subst hstate
  obtain ⟨last, _ | ⟨token, rest⟩, errors⟩ := state
  · exact .ok rfl rfl
  · exact .ok rfl rfl

theorem shift : Follows move (Origin.relocate move) shift shift := by
  refine ⟨?_⟩
  intro state _ hstate
  subst hstate
  obtain ⟨last, _ | ⟨token, rest⟩, errors⟩ := state
  · exact .ok rfl rfl
  · exact .ok rfl rfl

/-- A kind is accepted or not whatever the positions are. -/
theorem accept (kind : Kind) : Follows move id (accept kind) (accept kind) := by
  refine ⟨?_⟩
  intro state _ hstate
  subst hstate
  obtain ⟨last, _ | ⟨token, rest⟩, errors⟩ := state
  · exact .ok rfl rfl
  · by_cases hkind : token.kind = kind
    · simp only [Parser.accept, State.relocate, Token.relocate, List.map_cons, hkind, if_true]
      exact .ok rfl rfl
    · simp only [Parser.accept, State.relocate, Token.relocate, List.map_cons, hkind, if_false]
      exact .ok rfl rfl

/-- A token that is asked for is there in both runs, or reported in both. -/
theorem expect (kind : Kind) :
    Follows move (Token.relocate move) (expect kind) (expect kind) := by
  refine ⟨?_⟩
  intro state _ hstate
  subst hstate
  obtain ⟨last, _ | ⟨token, rest⟩, errors⟩ := state
  · exact .error rfl rfl
  · by_cases hkind : token.kind = kind
    · subst hkind
      simp only [Parser.expect, State.relocate, Token.relocate, List.map_cons, if_true]
      exact .ok rfl rfl
    · simp only [Parser.expect, State.relocate, Token.relocate, List.map_cons, hkind, if_false]
      exact .error rfl rfl

theorem expectRead (kind : Kind) : Follows move id (expectRead kind) (expectRead kind) := by
  refine ⟨?_⟩
  intro state _ heq
  subst heq
  unfold Parser.expectRead
  by_cases hkind : state.last = kind
  · rw [if_pos hkind, if_pos (show (state.relocate move).last = kind from hkind)]
    exact .ok rfl rfl
  · rw [if_neg hkind, if_neg (show ¬ (state.relocate move).last = kind from hkind)]
    exact .error rfl rfl

/-- A parser that is allowed to fail fails in both runs. -/
theorem attempt {left : Parser α} {right : Parser β} (h : Follows move image left right) :
    Follows move (Option.map image) (attempt left) (attempt right) := by
  refine ⟨fun {first second} hstates => ?_⟩
  have hrun := h.run hstates
  unfold Parser.attempt
  generalize left first = firstResult at hrun
  generalize right second = secondResult at hrun
  cases hrun with
  | ok hvalue hfinish =>
      subst hvalue
      exact .ok rfl hfinish
  | @error stop _ _ _ hstop hfinish =>
      subst hstop
      cases stop with
      | missing => exact .ok rfl hfinish
      | oversized | exhausted => exact .error rfl hfinish

theorem moreItems {item : Parser α} {other : Parser β} (close : Kind)
    (hitem : Follows move image item other) (bound : Nat) :
    Follows move (List.map image) (moreItems close item bound)
      (Parser.moreItems close other bound) := by
  induction bound with
  | zero => exact throw .exhausted
  | succ bound ih =>
      unfold Parser.moreItems
      refine (accept .comma).bind fun found => ?_
      cases found with
      | true => exact hitem.bind fun value => ih.bind fun values => pure rfl
      | false => exact (expect close).bind fun _ => pure rfl

/-- Items between commas follow as the items themselves do. -/
theorem items {item : Parser α} {other : Parser β} (close : Kind)
    (hitem : Follows move image item other) (bound : Nat) :
    Follows move (List.map image) (items close item bound) (Parser.items close other bound) := by
  unfold Parser.items
  refine (accept close).bind fun found => ?_
  cases found with
  | true => exact pure rfl
  | false => exact hitem.bind fun value => (moreItems close hitem bound).bind fun values => pure rfl

end Follows

/-- The parser goes in lockstep with itself and gives moved nodes. -/
abbrev Moves (move : Position → Position) (parser : Parser Node) : Prop :=
  Follows move (Node.relocate move) parser parser

section Operands

variable {phrase : Phrase → Parser Node} {token : Token} {bound : Nat}

theorem moves_parameter : Moves move parameter := by
  unfold parameter
  refine Follows.shift.bind fun origin => ?_
  cases origin with
  | none => exact .fail _
  | some token =>
      simp only [Origin.relocate, Option.map_some, Token.relocate]
      split
      · exact .pure rfl
      · exact .fail _

/-- The value of a literal is in its digits, wherever they stand. -/
theorem follows_integerLiteral :
    Follows move (Node.relocate move) (integerLiteral token)
      (integerLiteral (token.relocate move)) := by
  by_cases hlong : token.text.toList.length > maxDigits
  · simp only [integerLiteral, Token.relocate, hlong, if_true]
    exact .throw _
  · by_cases hlarge : decimal token.text.toList > maxLiteral
    · simp only [integerLiteral, Token.relocate, hlong, hlarge, if_true, if_false]
      exact .fail _
    · simp only [integerLiteral, Token.relocate, hlong, hlarge, if_false]
      exact .pure rfl

variable (hphrase : ∀ phrased, Moves move (phrase phrased))
include hphrase

theorem follows_mapPair :
    Follows move (fun pair => (pair.1.relocate move, pair.2.relocate move)) (mapPair phrase)
      (mapPair phrase) := by
  unfold mapPair
  exact (hphrase _).bind fun key => (Follows.expect .colon).bind fun _ =>
    (hphrase _).bind fun value => .pure rfl

theorem follows_choice :
    Follows move (Node.relocate move) (choice phrase token)
      (choice phrase (token.relocate move)) := by
  unfold choice
  refine (Follows.expect .openParen).bind fun _ => (hphrase _).bind fun test =>
    (Follows.expect .closeParen).bind fun _ => (hphrase _).bind fun consequence =>
      (Follows.accept .wordElse).bind fun found => ?_
  cases found with
  | true => exact (hphrase _).bind fun alternative => .pure rfl
  | false => exact .pure rfl

theorem follows_function :
    Follows move (Node.relocate move) (function phrase bound token)
      (function phrase bound (token.relocate move)) := by
  unfold function
  refine (Follows.expect .openParen).bind fun _ =>
    (moves_parameter.items .closeParen bound).bind fun parameters =>
      (hphrase _).bind fun body => .pure ?_
  simp only [Node.relocate, Node.relocateList_eq_map]
  rfl

/-- An operand, by the kind of the token that begins it. -/
theorem follows_operandAt :
    Follows move (Node.relocate move) (operandAt phrase bound token)
      (operandAt phrase bound (token.relocate move)) := by
  unfold operandAt
  simp only [show (token.relocate move).kind = token.kind from rfl]
  split
  case h_2 => exact follows_integerLiteral
  case h_6 | h_7 => exact (hphrase _).bind fun operand => .pure rfl
  case h_8 =>
      exact (hphrase _).bind fun inner => (Follows.expect .closeParen).bind fun _ => .pure rfl
  case h_9 =>
      refine ((hphrase _).items .closeBracket bound).bind fun elements => .pure ?_
      simp only [Node.relocate, Node.relocateList_eq_map]
      rfl
  case h_10 =>
      refine ((follows_mapPair hphrase).items .closeBrace bound).bind fun pairs => .pure ?_
      simp only [Node.relocate, Node.relocatePairs_eq_map]
      rfl
  case h_11 => exact follows_choice hphrase
  case h_12 => exact follows_function hphrase
  case h_13 => exact .fail _
  all_goals exact .pure rfl

theorem moves_operand : Moves move (operand phrase bound) := by
  unfold operand
  refine Follows.shift.bind fun origin => ?_
  cases origin with
  | none => exact .fail _
  | some token => exact follows_operandAt hphrase

/-- An operator, a call or an access behind a left side that was moved. -/
theorem follows_application {left : Node} :
    Follows move (Node.relocate move) (application phrase bound token left)
      (application phrase bound (token.relocate move) (left.relocate move)) := by
  unfold application
  simp only [show (token.relocate move).kind = token.kind from rfl]
  split
  · refine ((hphrase _).items .closeParen bound).bind fun arguments => .pure ?_
    simp only [Node.relocate, Node.relocateList_eq_map]
    rfl
  · exact (hphrase _).bind fun position => (Follows.expect .closeBracket).bind fun _ => .pure rfl
  · exact (Follows.expect .ident).bind fun name => .pure rfl
  · exact (hphrase _).bind fun value => .pure rfl
  · exact (hphrase _).bind fun right => .pure rfl

/-- The left side grows in the same way, turn by turn. -/
theorem follows_climb (power turns : Nat) (left : Node) :
    Follows move (Node.relocate move) (climb phrase bound power turns left)
      (climb phrase bound power turns (left.relocate move)) := by
  induction turns generalizing left with
  | zero => exact .throw _
  | succ turns ih =>
      unfold climb
      refine Follows.peekToken.bind fun origin => ?_
      cases origin with
      | none => exact .pure rfl
      | some token =>
          simp only [Origin.relocate, Option.map_some,
            show (token.relocate move).kind = token.kind from rfl]
          split
          · exact Follows.shift.bind fun _ => (follows_application hphrase).bind fun _ => ih _
          · exact .pure rfl

/-- An expression is an operand and what climbs behind it. -/
theorem moves_expression (power : Nat) : Moves move (expression phrase bound power) := by
  unfold expression
  exact (moves_operand hphrase).bind fun left => follows_climb hphrase power bound left

end Operands

section Statements

variable {phrase : Phrase → Parser Node} (hphrase : ∀ phrased, Moves move (phrase phrased))
include hphrase

theorem moves_declaration : Moves move (declaration phrase) := by
  unfold declaration
  refine Follows.shift.bind fun origin => (Follows.expect .ident).bind fun name =>
    (Follows.accept .semicolon).bind fun found => ?_
  cases found with
  | true => exact .pure rfl
  | false =>
      exact (Follows.expect .assign).bind fun _ => (hphrase _).bind fun value =>
        (Follows.expect .semicolon).bind fun _ => .pure rfl

theorem moves_returning : Moves move (returning phrase) := by
  unfold returning
  refine Follows.shift.bind fun origin => (Follows.accept .semicolon).bind fun found => ?_
  cases found with
  | true => exact .pure rfl
  | false =>
      exact (hphrase _).bind fun value => (Follows.expect .semicolon).bind fun _ => .pure rfl

theorem moves_expressionStatement : Moves move (expressionStatement phrase) := by
  unfold expressionStatement
  exact Follows.peekToken.bind fun origin => (hphrase _).bind fun body =>
    (Follows.accept .semicolon).bind fun _ => .pure rfl

theorem moves_clause : Moves move (clause phrase) := by
  unfold clause
  refine Follows.peek.bind fun kind => ?_
  by_cases hkind : kind = .wordLet
  · simp only [id, hkind, if_true]
    exact moves_declaration hphrase
  · simp only [id, hkind, if_false]
    exact moves_expressionStatement hphrase

omit hphrase in
/-- A clause that may be left out is left out in both runs. -/
theorem follows_headerClause {parser : Parser Node} (h : Moves move parser) :
    Follows move (Node.relocateOption move) (headerClause parser) (headerClause parser) := by
  unfold headerClause
  refine (Follows.accept .semicolon).bind fun found => ?_
  cases found with
  | true => exact .pure rfl
  | false => exact h.bind fun node => (Follows.expectRead .semicolon).bind fun _ => .pure rfl

theorem follows_lastClause :
    Follows move (Node.relocateOption move) (lastClause phrase) (lastClause phrase) := by
  unfold lastClause
  refine (Follows.accept .closeParen).bind fun found => ?_
  cases found with
  | true => exact .pure rfl
  | false =>
      exact (moves_clause hphrase).bind fun node =>
        (Follows.expect .closeParen).bind fun _ => .pure rfl

theorem moves_loop : Moves move (loop phrase) := by
  unfold loop
  exact Follows.shift.bind fun origin => (Follows.expect .openParen).bind fun _ =>
    (follows_headerClause (moves_clause hphrase)).bind fun first =>
      (follows_headerClause (moves_expressionStatement hphrase)).bind fun test =>
        (follows_lastClause hphrase).bind fun step => (hphrase _).bind fun body => .pure rfl

/-- A statement, by the kind of the token that begins it. -/
theorem moves_statement : Moves move (statement phrase) := by
  unfold statement
  refine Follows.peek.bind fun kind => ?_
  simp only [id]
  split
  · exact moves_declaration hphrase
  · exact moves_returning hphrase
  · exact moves_loop hphrase
  · exact moves_expressionStatement hphrase

/-- One more statement of a list, unless it failed. -/
theorem follows_statement_cons {more : Parser (List Node)}
    (hmore : Follows move (Node.relocateList move) more more) :
    Follows move (Node.relocateList move)
      (do
        let node ← attempt (statement phrase)
        let nodes ← more
        return node.toList ++ nodes)
      (do
        let node ← attempt (statement phrase)
        let nodes ← more
        return node.toList ++ nodes) := by
  refine (moves_statement hphrase).attempt.bind fun node => hmore.bind fun nodes => .pure ?_
  cases node <;> rfl

/-- The statements of a block, by induction on the turns. -/
theorem follows_blockStatements (turns : Nat) :
    Follows move (Node.relocateList move) (blockStatements phrase turns)
      (blockStatements phrase turns) := by
  induction turns with
  | zero => exact .throw _
  | succ turns ih =>
      unfold blockStatements
      refine Follows.peek.bind fun kind => ?_
      simp only [id]
      split
      · exact Follows.shift.bind fun _ => .pure rfl
      · exact .fail _
      · exact follows_statement_cons hphrase ih

theorem moves_block (bound : Nat) : Moves move (block phrase bound) := by
  unfold block
  exact (Follows.expect .openBrace).bind fun token =>
    (follows_blockStatements hphrase bound).bind fun statements => .pure rfl

theorem follows_programStatements (turns : Nat) :
    Follows move (Node.relocateList move) (programStatements phrase turns)
      (programStatements phrase turns) := by
  induction turns with
  | zero => exact .throw _
  | succ turns ih =>
      unfold programStatements
      refine Follows.peek.bind fun kind => ?_
      simp only [id]
      split
      · exact .pure rfl
      · exact follows_statement_cons hphrase ih

end Statements

/-- All phrases follow, by induction on how deep they are nested. -/
theorem moves_nested (bound : Nat) (phrase : Phrase) : Moves move (nested bound phrase) := by
  induction bound generalizing phrase with
  | zero => exact .throw _
  | succ bound ih =>
      cases phrase with
      | expression power => exact moves_expression ih power
      | block => exact moves_block ih (bound + 1)

/-- What is read from tokens at other places: the moved nodes, with the same errors. -/
theorem readTokens_relocate (move : Position → Position) (tokens : List Token) :
    ResultRel (fun first second => second = State.relocate move first) Eq
      (fun first second => second = Node.relocateList move first) (readTokens tokens)
      (readTokens (tokens.map (Token.relocate move))) := by
  unfold readTokens
  rw [List.length_map]
  exact (follows_programStatements (moves_nested _) _).run rfl

end Scriptlet.Parser
