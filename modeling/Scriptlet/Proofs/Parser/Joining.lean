import Scriptlet.Proofs.Grammar.Extension
import Scriptlet.Proofs.Parser.Acceptance
import Scriptlet.Proofs.Parser.Widening
import Scriptlet.Proofs.Relocation.Parsing
import Scriptlet.Proofs.Token.LineBreaks

/-!
# Reading two texts as one

A text that shows its own end may stand before any other text, also before one with errors. Its
statements are read as before, since none of them looks behind its end, and then the parser is where
it would be at the start of the second text: it has reported nothing, and the token read last is
never looked at before the next one is read (`programStatements_last`). The bounds are larger than
for the second text alone, which makes no difference. `readTokens_append` puts this together, and
`parse_append_newline` says it of texts.
-/

namespace Scriptlet

/-- Every statement has a token. -/
theorem Grammar.Statements.length_le {literal : Token → Prop} :
    ∀ {tokens rest nodes}, Statements literal tokens rest nodes → nodes.length ≤ tokens.length
  | _, _, _, .closed hnode hnodes =>
      Nat.lt_of_le_of_lt hnodes.length_le hnode.advances.length_lt
  | _, _, _, .unclosed hbody _ hnodes =>
      Nat.lt_of_le_of_lt hnodes.length_le hbody.advances.length_lt
  | _, _, _, .nil => Nat.zero_le _

namespace Parser

open Grammar

variable {literal : Token → Prop} {phrase : Phrase → Parser Node} {bound turns : Nat}
  {tokens extra : List Token} {node : Node} {nodes others : List Node}

section Statements

variable [∀ phrased, Forward (phrase phrased)]

/-- The first of some statements that show their own end is read whatever follows them. -/
theorem statement_append (hphrase : CompletePhrase literal bound phrase)
    (hfits : Fits literal bound (tokens ++ extra))
    (h : Statements literal tokens [] (node :: nodes))
    (hclosed : Closed tokens (node :: nodes)) :
    ∃ first behind middle, tokens = first :: behind ∧ first.kind.isLeading = true ∧
      Passes tokens middle ∧ Statements literal middle [] nodes ∧
      Reads (statement phrase) (tokens ++ extra) node (middle ++ extra) := by
  cases h with
  | closed hnode hnodes =>
      have hread := statement_complete hphrase hfits (hnode.extend extra)
      have hpasses := hnode.advances.passes
      obtain ⟨first, behind, rfl, hfirst⟩ := hnode.leading
      exact ⟨first, behind, _, rfl, hfirst, hpasses, hnodes, hread⟩
  | @unclosed first behind middle _ body _ hbody hended hnodes =>
      -- A statement without a semicolon is not the last one here: what ends it is in these tokens.
      have hmiddle := hclosed.ne_nil hbody hnodes
      have hne : ∀ token ∈ (middle ++ extra).head?, token.kind ≠ .semicolon := by
        intro token htoken
        rw [List.head?_append, List.head?_eq_some_head hmiddle, Option.some_or,
          ← List.head?_eq_some_head] at htoken
        exact hnodes.head_ne rfl nofun token htoken
      have hread := expressionStatement_unclosed_complete hphrase hfits (hbody.extend extra)
        (hended.extend extra hmiddle) hne
      exact ⟨first, behind, middle, rfl, Kind.isLeading_of_isInitial hbody.initial,
        hbody.advances.passes, hnodes, statement_expression_complete (hbody.extend extra) hread⟩

/-- Statements that show their own end are read whatever follows them, one in a turn. -/
theorem programStatements_append (hphrase : CompletePhrase literal bound phrase)
    (hfits : Fits literal bound (tokens ++ extra)) (h : Statements literal tokens [] nodes)
    (hclosed : Closed tokens nodes) (last : Kind) (errors : List SyntaxError) :
    ∃ behind, ∀ {finish},
      programStatements phrase turns ⟨behind, extra, errors⟩ = .ok others finish →
      programStatements phrase (nodes.length + turns) ⟨last, tokens ++ extra, errors⟩ =
        .ok (nodes ++ others) finish := by
  induction nodes generalizing tokens last with
  | nil =>
      rw [h.eq_of_nodes, List.length_nil, Nat.zero_add]
      exact ⟨last, fun hothers => hothers⟩
  | cons node nodes ih =>
      obtain ⟨first, behind, middle, rfl, hfirst, hpasses, hnodes, hread⟩ :=
        statement_append hphrase hfits h hclosed
      have hnext : State.next ⟨last, first :: (behind ++ extra), errors⟩ ≠ .eof := by
        intro hkind
        have hkind : first.kind = .eof := hkind
        rw [hkind] at hfirst
        cases hfirst
      obtain ⟨between, hnode⟩ := hread.attempt last errors
      obtain ⟨final, hmore⟩ := ih (hfits.passes (hpasses.extend extra)) hnodes
        (hclosed.tail hpasses hnodes) between
      refine ⟨final, fun {finish} hothers => ?_⟩
      rw [List.length_cons, Nat.succ_add, List.cons_append, programStatements_step hnext]
      exact bind_eq_ok.2 ⟨_, _, hnode, bind_eq_ok.2 ⟨_, _, hmore hothers, rfl⟩⟩

end Statements

/-- Every statement begins by reading a token, whatever was read last. -/
theorem statement_last (last other : Kind) (token : Token) (errors : List SyntaxError) :
    statement (nested (bound + 1)) ⟨last, token :: tokens, errors⟩ =
      statement (nested (bound + 1)) ⟨other, token :: tokens, errors⟩ := by
  obtain ⟨kind, text, position⟩ := token
  cases kind <;> rfl

/-- The token read last is not looked at before another one is read. -/
theorem programStatements_last {last : Kind} (other : Kind) {errors : List SyntaxError}
    {finish : State}
    (h : programStatements (nested (bound + 1)) turns ⟨last, tokens, errors⟩ = .ok nodes finish) :
    ∃ final, programStatements (nested (bound + 1)) turns ⟨other, tokens, errors⟩ =
      .ok nodes final ∧ final.errors = finish.errors := by
  cases turns with
  | zero => cases h
  | succ turns =>
      by_cases hnext : State.next ⟨last, tokens, errors⟩ = .eof
      · rw [programStatements_end hnext] at h
        cases h
        exact ⟨_, programStatements_end hnext, rfl⟩
      · have hother : State.next ⟨other, tokens, errors⟩ ≠ .eof := hnext
        refine ⟨finish, ?_, rfl⟩
        rw [programStatements_step hnext] at h
        rw [programStatements_step hother, ← h]
        cases tokens with
        | nil => exact absurd rfl hnext
        | cons token tokens =>
            have hattempt :
                attempt (statement (nested (bound + 1))) ⟨other, token :: tokens, errors⟩ =
                  attempt (statement (nested (bound + 1))) ⟨last, token :: tokens, errors⟩ := by
              simp only [attempt, statement_last other last token errors]
            show EStateM.bind _ _ _ = EStateM.bind _ _ _
            rw [EStateM.bind, hattempt]
            rfl

/-- Tokens of statements that show their own end are read before any other tokens, which are then
read as they are alone. -/
theorem readTokens_append (h : Statements Readable tokens [] nodes) (hclosed : Closed tokens nodes)
    {finish : State} (hextra : readTokens extra = .ok others finish) :
    ∃ final, readTokens (tokens ++ extra) = .ok (nodes ++ others) final ∧
      final.errors = finish.errors := by
  have hlength := h.length_le
  have hsum : (tokens ++ extra).length = tokens.length + extra.length := List.length_append
  have hnested (phrase : Phrase) :
      Widens (nested (extra.length + 1) phrase)
        (nested (tokens.length + extra.length + 1) phrase) :=
    widens_nested (by omega) phrase
  have hfits : Fits Readable (tokens.length + extra.length + 1) (tokens ++ extra) :=
    ⟨by omega, fun _ _ _ hreadable => hreadable⟩
  obtain ⟨behind, hjoined⟩ :=
    programStatements_append (nested_complete _) hfits h hclosed .eof []
  have hwide : programStatements (nested (tokens.length + extra.length + 1)) (extra.length + 1)
      (State.initial extra) = .ok others finish :=
    (widens_programStatements (Nat.le_refl _)).ok hextra
  -- The first tokens leave another token as the one read last, which is never looked at.
  obtain ⟨final, hfinal, herrors⟩ := programStatements_last behind hwide
  have hturns : nodes.length + (extra.length + 1) ≤ tokens.length + extra.length + 1 := by omega
  refine ⟨final, ?_, herrors⟩
  rw [readTokens, hsum]
  exact (widens_programStatements hturns).ok (hjoined hfinal)

end Parser

section Texts

variable {first second : String} {nodes others : List Node}

/-- No string is left open in a text that is read without an error. -/
theorem not_unterminated (h : parse first = .ok ⟨nodes, []⟩) :
    ∀ token ∈ Token.ofText first, ¬ token.Unterminated := by
  intro token htoken hopen
  obtain ⟨read, hread, hlegal⟩ := (parse_eq_iff.1 h).passes.read
  rw [hread, List.append_nil] at htoken
  exact hlegal token htoken hopen.1

/-- Two texts with a line break between them are read as the statements of the first and then those
of the second, further down, with the errors of the second. -/
theorem parse_append_newline (hfirst : parse first = .ok ⟨nodes, []⟩) {errors : List SyntaxError}
    (hsecond : parse second = .ok ⟨others, errors⟩)
    (hclosed : Grammar.Closed (Token.ofText first) nodes) :
    parse (first ++ "\n" ++ second) = .ok ⟨nodes ++ Node.relocateList
      (Position.down (Position.start.after first.toList).line) others, errors⟩ := by
  obtain ⟨alone, hrun, herrors⟩ := parse_eq_ok_iff.1 hsecond
  have hmoved := Parser.readTokens_relocate
    (Position.down (Position.start.after first.toList).line) (Token.ofText second)
  rw [hrun] at hmoved
  generalize hresult : Parser.readTokens ((Token.ofText second).map (Token.relocate
    (Position.down (Position.start.after first.toList).line))) = result at hmoved
  cases hmoved with
  | ok hvalues hstates =>
      -- Further down the tokens are read as before, with moved origins and the same errors.
      subst hvalues hstates
      obtain ⟨final, hjoined, hfinal⟩ :=
        Parser.readTokens_append (parse_eq_iff.1 hfirst) hclosed hresult
      rw [← Token.ofText_append_newline second (not_unterminated hfirst)] at hjoined
      exact parse_eq_ok_iff.2 ⟨final, hjoined, hfinal.trans herrors⟩

/-- A text that is read without an error and shows its own end may stand on the lines before any
text whose integer literals are not too long: the errors are those of the second text alone, and
the statements are those of the first text and then those of the second. -/
theorem parse_append_newline_same (first second : String) (parsed : Parsed)
    (hfirst : parse first = .ok parsed) (hfirstErrors : parsed.errors = [])
    (hclosed : Grammar.Closed (Token.ofText first) parsed.statements)
    (hsecond : Parser.Legible (Token.ofText second)) :
    ∃ alone joined, parse second = .ok alone ∧ parse (first ++ "\n" ++ second) = .ok joined ∧
      joined.errors = alone.errors ∧
      Node.sameList (parsed.statements ++ alone.statements) joined.statements = true := by
  obtain ⟨nodes, errors⟩ := parsed
  subst hfirstErrors
  obtain ⟨others, finish, hrun⟩ := Parser.readTokens_total hsecond
  have halone : parse second = .ok ⟨others, finish.errors⟩ :=
    parse_eq_ok_iff.2 ⟨finish, hrun, rfl⟩
  exact ⟨_, _, halone, parse_append_newline hfirst halone hclosed, rfl,
    Node.sameList_append_relocate _ nodes others⟩

/-- A declaration before a text that begins with one that has no name. -/
theorem parse_append_newline_same_nameless :
    ∃ parsed alone joined, parse "let a = 1;" = .ok parsed ∧ parsed.errors = [] ∧
      Grammar.Closed (Token.ofText "let a = 1;") parsed.statements ∧
      Parser.Legible (Token.ofText "let = 5; a") ∧
      parse "let = 5; a" = .ok alone ∧ parse "let a = 1;\nlet = 5; a" = .ok joined ∧
      joined.errors = alone.errors ∧
      Node.sameList (parsed.statements ++ alone.statements) joined.statements = true := by
  obtain ⟨parsed, hparsed, herrors⟩ : ∃ parsed, parse "let a = 1;" = .ok parsed ∧
      parsed.errors = [] := exists_parsed (by decide +kernel)
  have hclosed : Grammar.Closed (Token.ofText "let a = 1;") parsed.statements := by
    have hlast : (Token.ofText "let a = 1;").getLast?.map Token.kind = some .semicolon := by
      decide +kernel
    exact .inr (.inl (Option.map_eq_some_iff.1 hlast))
  have hlegible : Parser.Legible (Token.ofText "let = 5; a") := by
    unfold Parser.Legible
    decide +kernel
  obtain ⟨alone, joined, hresult⟩ :=
    parse_append_newline_same "let a = 1;" "let = 5; a" parsed hparsed herrors hclosed hlegible
  exact ⟨parsed, alone, joined, hparsed, herrors, hclosed, hlegible, hresult⟩

end Texts

end Scriptlet
