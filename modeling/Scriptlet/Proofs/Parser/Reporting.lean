import Scriptlet.Proofs.Parser.Calls

/-!
# Nothing is dropped without an error

A list of statements leaves out a statement that is missing, and a block that lost one is still a
block. So whether a program is whole rests on every parser that gives up having reported something.
`Method` lists the parsers; each of them only adds to the errors, and adds at least one when its
construct is missing (`Method.reports`). In a program without errors every statement that was
called for, at any depth, is therefore in its list (`nothing_dropped`).
-/

namespace Scriptlet

namespace Parser

/-- The parsers of the constructs, where at most `bound` phrases may be nested and a loop takes at
most `turns` turns. -/
inductive Method (bound turns : Nat) : {α : Type} → Parser α → Prop where
  | program : Method bound turns (programStatements (nested bound) turns)
  | statement : Method bound turns (statement (nested bound))
  | declaration : Method bound turns (declaration (nested bound))
  | returning : Method bound turns (returning (nested bound))
  | expressionStatement : Method bound turns (expressionStatement (nested bound))
  | loop : Method bound turns (loop (nested bound))
  | clause : Method bound turns (clause (nested bound))
  | headerClause {parser : Parser Node} :
      Method bound turns parser → Method bound turns (headerClause parser)
  | lastClause : Method bound turns (lastClause (nested bound))
  | block : Method bound turns (block (nested bound) turns)
  | blockStatements : Method bound turns (blockStatements (nested bound) turns)
  | phrase (phrase : Phrase) : Method bound turns (nested bound phrase)
  | expression (power : Nat) : Method bound turns (expression (nested bound) turns power)
  | operators (power : Nat) (left : Node) :
      Method bound turns (climb (nested bound) turns power turns left)
  | operand : Method bound turns (operand (nested bound) turns)
  | operandAt (token : Token) : Method bound turns (operandAt (nested bound) turns token)
  | integer (token : Token) : Method bound turns (integerLiteral token)
  | choice (token : Token) : Method bound turns (choice (nested bound) token)
  | function (token : Token) : Method bound turns (function (nested bound) turns token)
  | application (token : Token) (left : Node) :
      Method bound turns (application (nested bound) turns token left)
  | items {α : Type} {item : Parser α} (close : Kind) :
      Method bound turns item → Method bound turns (items close item turns)
  | moreItems {α : Type} {item : Parser α} (close : Kind) :
      Method bound turns item → Method bound turns (moreItems close item turns)
  | entry : Method bound turns (mapPair (nested bound))
  | parameter : Method bound turns parameter
  | expect (kind : Kind) : Method bound turns (expect kind)
  | expectRead (kind : Kind) : Method bound turns (expectRead kind)

/-- What a parser does to the errors: it adds to them, and adds one at least when it finds its
construct missing. Bounds stop it only if they are no larger than the number of unread tokens. -/
structure Reports {α : Type} (bound turns : Nat) (parser : Parser α) : Prop where
  ok {start finish : State} {value : α} :
    parser start = .ok value finish → start.errors <+: finish.errors
  error {start finish : State} {stop : Stop} :
    parser start = .error stop finish → start.errors <+: finish.errors
  missing {start finish : State} :
    parser start = .error .missing finish → start.errors.length < finish.errors.length
  exhausted {start finish : State} :
    parser start = .error .exhausted finish →
      bound ≤ start.rest.length ∨ turns ≤ start.rest.length

variable {α : Type} {bound turns : Nat} {parser : Parser α}

/-- All methods go forward. -/
theorem Method.forward (h : Method bound turns parser) : Forward parser := by
  induction h with
  | headerClause _ ih | items _ _ ih | moreItems _ _ ih => infer_instance
  | _ => infer_instance

/-- No method runs out of turns that are more than the tokens. -/
theorem Method.bounded (h : Method bound turns parser) {count : Nat} (hbound : count < bound)
    (hturns : count < turns) : Bounded count parser := by
  have hphrase := bounded_nested hbound
  have hinner (less : Nat) (hless : less < count) (phrased : Phrase) :=
    (hphrase phrased).mono (Nat.le_of_lt hless)
  induction h with
  | headerClause hparser ih =>
      have hforward := hparser.forward
      infer_instance
  | items close hitem ih =>
      have hforward := hitem.forward
      exact bounded_items close _ hturns
  | moreItems close hitem ih =>
      have hforward := hitem.forward
      exact bounded_moreItems close ih hturns
  | program => exact bounded_programStatements hphrase hturns
  | blockStatements => exact bounded_blockStatements hphrase hturns
  | block => exact bounded_block hinner hturns
  | expression power => exact bounded_expression hinner hturns
  | operators power left => exact bounded_climb left hphrase hturns hturns
  | operand => exact bounded_operand hturns
  | operandAt token => exact bounded_operandAt token hturns
  | function token => exact bounded_function token hturns
  | application token left => exact bounded_application token left hturns
  | _ => infer_instance

/-- All methods report what they drop. -/
theorem Method.reports (h : Method bound turns parser) : Reports bound turns parser := by
  have hforward := h.forward
  refine ⟨fun hrun => (hforward.ok hrun).errors, fun hrun => (hforward.error hrun).1.errors,
    fun hrun => ?_, fun {start _} hrun => ?_⟩
  · obtain ⟨hreaches, hgrown⟩ := hforward.error hrun
    refine Nat.lt_of_le_of_ne hreaches.errors.length_le fun hlength => ?_
    exact hgrown rfl (hreaches.errors.eq_of_length hlength).symm
  · -- Were both bounds above the number of unread tokens, they would be enough.
    rcases Nat.lt_or_ge start.rest.length bound with hbound | hbound
    · rcases Nat.lt_or_ge start.rest.length turns with hturns | hturns
      · have hbounded : Bounded start.rest.length parser := h.bounded hbound hturns
        exact absurd hrun (hbounded.ne_error (Nat.le_refl _))
      · exact .inr hturns
    · exact .inl hbound

/-- A block that is read without an error holds a node for each statement called for in it. -/
theorem attempts_of_block {state finish : State} {node : Node}
    (h : Clean (nested bound .block) state node finish) :
    ∃ inner brace behind statements, bound = inner + 1 ∧ state.rest = brace :: behind ∧
      node = .block (some brace) statements ∧
      attempts (nested inner) [.closeBrace, .eof] bound ⟨brace.kind, behind, state.errors⟩ =
        statements.map some := by
  cases bound with
  | zero => exact absurd h not_clean_throw
  | succ inner =>
      obtain ⟨last, _ | ⟨brace, behind⟩, errors⟩ := state
      · cases h.1
      · obtain ⟨found, middle, hfound, h⟩ := clean_bind_iff.1 h
        obtain ⟨statements, _, hstatements, h⟩ := clean_bind_iff.1 h
        obtain ⟨rfl, -⟩ := clean_pure_iff.1 h
        have hrun := hfound.1
        simp only [expect] at hrun
        split at hrun <;> cases hrun
        exact ⟨inner, brace, behind, statements, rfl, rfl, rfl,
          attempts_of_blockStatements hstatements⟩

end Parser

open Scriptlet.Parser

/-- Every parser adds to the errors, and adds at least one when its construct is missing. So where a
text has no errors, each statement called for at the top and in any block gives a node, these nodes
are the statements of the program or of the block in turn, and the block stands in the program. -/
theorem nothing_dropped :
    (∀ {bound turns : Nat} {α : Type} {parser : Parser α}, Method bound turns parser →
      Reports bound turns parser) ∧
    ∀ (source : String) (parsed : Parsed), parse source = .ok parsed → parsed.errors = [] →
      let tokens := Token.ofText source
      attempts (nested (tokens.length + 1)) [.eof] (tokens.length + 1) (State.initial tokens) =
        parsed.statements.map some ∧
      ∀ bound state, Called tokens bound .block state →
        ∃ inner brace behind statements finish, bound = inner + 1 ∧ state.rest = brace :: behind ∧
          nested bound .block state = .ok (.block (some brace) statements) finish ∧
          attempts (nested inner) [.closeBrace, .eof] bound ⟨brace.kind, behind, state.errors⟩ =
            statements.map some ∧
          parsed.program.Contains (.block (some brace) statements) := by
  refine ⟨Method.reports, fun source parsed hparse herrors => ?_⟩
  obtain ⟨finish, hrun, hfinish⟩ := parse_eq_ok_iff.1 hparse
  rw [herrors] at hfinish
  refine ⟨attempts_of_programStatements ⟨hrun, hfinish⟩, fun bound state hcalled => ?_⟩
  obtain ⟨node, final, hclean, hcontains⟩ := clean_of_called hrun hfinish hcalled
  obtain ⟨inner, brace, behind, statements, hbound, hrest, rfl, hattempts⟩ :=
    attempts_of_block hclean
  exact ⟨inner, brace, behind, statements, final, hbound, hrest, hclean.1, hattempts, hcontains⟩

/-- A function whose body is a block of one statement. -/
theorem nothing_dropped_function :
    Reports 8 8 (statement (nested 8)) ∧
    ∃ parsed tokens, parse "fn() \x7b x; \x7d" = .ok parsed ∧ parsed.errors = [] ∧
      Token.ofText "fn() \x7b x; \x7d" = tokens ∧
      Called tokens 7 .block ⟨.closeParen, tokens.drop 3, []⟩ ∧
      ∃ brace statements,
        attempts (nested 6) [.closeBrace, .eof] 7 ⟨brace.kind, tokens.drop 4, []⟩ =
          statements.map some ∧
        parsed.program.Contains (.block (some brace) statements) := by
  obtain ⟨parsed, hparse, herrors⟩ : ∃ parsed, parse "fn() \x7b x; \x7d" = .ok parsed ∧
      parsed.errors = [] := exists_parsed (by decide +kernel)
  have hlist : Token.ofText "fn() \x7b x; \x7d" =
      [⟨.wordFn, "fn", ⟨1, 1⟩⟩, ⟨.openParen, "(", ⟨1, 3⟩⟩, ⟨.closeParen, ")", ⟨1, 4⟩⟩,
        ⟨.openBrace, "\x7b", ⟨1, 6⟩⟩, ⟨.ident, "x", ⟨1, 8⟩⟩, ⟨.semicolon, ";", ⟨1, 9⟩⟩,
        ⟨.closeBrace, "\x7d", ⟨1, 11⟩⟩] := by
    decide +kernel
  generalize htokens : Token.ofText "fn() \x7b x; \x7d" = tokens at hlist
  have hstatement : Called tokens 8 (.expression 0) (State.initial tokens) := by
    subst hlist
    exact .program rfl
  have hcalled : Called tokens 7 .block ⟨.closeParen, tokens.drop 3, []⟩ := by
    subst hlist
    exact .inside hstatement rfl
  have hblock := (nothing_dropped.2 "fn() \x7b x; \x7d" parsed hparse herrors).2
  rw [htokens] at hblock
  obtain ⟨inner, brace, behind, statements, _, hbound, hrest, -, hattempts, hcontains⟩ :=
    hblock 7 _ hcalled
  cases hbound
  have hbehind : behind = tokens.drop 4 := by
    subst hlist
    exact (List.cons.inj hrest).2.symm
  rw [hbehind] at hattempts
  exact ⟨nothing_dropped.1 .statement, parsed, tokens, hparse, herrors, rfl, hcalled, brace,
    statements, hattempts, hcontains⟩

end Scriptlet
