import Scriptlet.Proofs.Parser.Completeness
import Scriptlet.Proofs.Parser.Totality
import Scriptlet.Proofs.Token.Lexing

/-!
# The parser accepts its grammar

Soundness, completeness and totality put together: `parse_eq_iff` ties the programs that are read
without an error to the sentences of the grammar, node for node, and `parse_errors_eq_nil_iff` says
that a text whose literals are not too long is always read to its end, and without an error exactly
when its tokens are a sentence.
-/

namespace Scriptlet

open Scriptlet.Parser

/-- The number of the token is an integer of the language. -/
def Token.InRange (token : Token) : Prop :=
  decimal token.text.toList ≤ maxLiteral

/-- The tokens are a program of the grammar. -/
def Grammar.Sentence (tokens : List Token) : Prop :=
  ∃ nodes, Statements Token.InRange tokens [] nodes

namespace Parser

variable {literal : Token → Prop} {tokens : List Token} {nodes : List Node}

/-- A list of tokens that is read without an error is a sentence. -/
theorem readTokens_sound (hliteral : ∀ token, Readable token → literal token)
    (hend : ∀ token ∈ tokens, token.kind ≠ .eof) {finish : State}
    (h : readTokens tokens = .ok nodes finish) (herrors : finish.errors = []) :
    Grammar.Statements literal tokens [] nodes :=
  programStatements_sound (nested_sound hliteral _) hend ⟨h, herrors⟩

/-- A sentence is read without an error. -/
theorem readTokens_complete
    (hliteral : ∀ token ∈ tokens, token.kind = .int → literal token → Readable token)
    (h : Grammar.Statements literal tokens [] nodes) :
    ∃ finish, readTokens tokens = .ok nodes finish ∧ finish.errors = [] := by
  have hfits : Fits literal (tokens.length + 1) tokens := ⟨Nat.le_succ _, hliteral⟩
  obtain ⟨last, hrun⟩ :=
    programStatements_complete (nested_complete _) hfits (Nat.lt_succ_self _) h .eof []
  exact ⟨_, hrun, rfl⟩

/-- Tokens whose literals are not too long are read to the end. -/
theorem readTokens_total (h : Legible tokens) :
    ∃ nodes finish, readTokens tokens = .ok nodes finish :=
  programStatements_total (Nat.lt_succ_self tokens.length) (Nat.le_refl _) h (Nat.lt_succ_self _)

end Parser

variable {literal : Token → Prop} {source : String} {nodes : List Node}

/-- A text is read by reading its tokens to their end. -/
theorem parse_eq_ok_iff {parsed : Parsed} :
    parse source = .ok parsed ↔
      ∃ finish, readTokens (Token.ofText source) = .ok parsed.statements finish ∧
        finish.errors = parsed.errors := by
  obtain ⟨statements, errors⟩ := parsed
  unfold parse
  split
  · next hrun => simp [hrun, and_assoc]
  · next hrun => simp [hrun]

/-- The programs that are read without an error are the sentences of the grammar, whose literals
are those that can be read. -/
theorem parse_eq_iff :
    parse source = .ok ⟨nodes, []⟩ ↔
      Grammar.Statements Readable (Token.ofText source) [] nodes := by
  rw [parse_eq_ok_iff]
  constructor
  · intro hread
    obtain ⟨finish, hrun, herrors⟩ := hread
    exact readTokens_sound (fun _ h => h) (fun _ => Token.kind_ne_eof_of_mem_lex) hrun herrors
  · exact readTokens_complete fun _ _ _ h => h

/-- A text that gives a program was read. -/
theorem parse_of_toOption {source : String} {parsed : Parsed}
    (h : (parse source).toOption = some parsed) : parse source = .ok parsed := by
  cases hparse : parse source with
  | error stop =>
      rw [hparse] at h
      cases h
  | ok other =>
      rw [hparse] at h
      cases h
      rfl

/-- A text that is read without an error gives a program without one. -/
theorem exists_parsed {source : String}
    (h : (parse source).toOption.map Parsed.errors = some []) :
    ∃ parsed, parse source = .ok parsed ∧ parsed.errors = [] := by
  obtain ⟨parsed, hparsed, herrors⟩ := Option.map_eq_some_iff.1 h
  exact ⟨parsed, parse_of_toOption hparsed, herrors⟩

/-- A text whose integer literals are not too long is read to its end, and without an error exactly
when its tokens are a sentence of the grammar. -/
theorem parse_errors_eq_nil_iff (source : String) (h : Legible (Token.ofText source)) :
    ∃ parsed, parse source = .ok parsed ∧
      (parsed.errors = [] ↔ Grammar.Sentence (Token.ofText source)) := by
  obtain ⟨nodes, finish, hrun⟩ := readTokens_total h
  refine ⟨⟨nodes, finish.errors⟩, parse_eq_ok_iff.2 ⟨finish, hrun, rfl⟩, ?_, ?_⟩
  · intro herrors
    exact ⟨nodes, readTokens_sound (fun _ hreadable => hreadable.2)
      (fun _ => Token.kind_ne_eof_of_mem_lex) hrun herrors⟩
  · intro hwhole
    obtain ⟨sentence, hsentence⟩ := hwhole
    obtain ⟨clean, hclean, herrors⟩ := readTokens_complete
      (fun token htoken hint hrange => ⟨h token htoken hint, hrange⟩) hsentence
    cases hrun.symm.trans hclean
    exact herrors

/-- A text with a literal, an operator and a call, and no semicolon behind it. -/
theorem parse_errors_eq_nil_iff_call :
    Legible (Token.ofText "f(1 + 2)") ∧
      ∃ parsed, parse "f(1 + 2)" = .ok parsed ∧
        (parsed.errors = [] ↔ Grammar.Sentence (Token.ofText "f(1 + 2)")) := by
  have h : Legible (Token.ofText "f(1 + 2)") := by
    unfold Legible
    decide +kernel
  exact ⟨h, parse_errors_eq_nil_iff "f(1 + 2)" h⟩

end Scriptlet
