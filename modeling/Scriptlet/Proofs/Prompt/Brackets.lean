import Scriptlet.Prompt.Keys
import Scriptlet.Proofs.Parser.Acceptance

/-!
# A program leaves no bracket open

Every phrase of the grammar is matched: each bracket that it opens is closed inside it, behind a
phrase that is matched again (`Statements.matched`). Counting brackets through a matched run of
tokens ends where it began, whatever the depth before it, so a text that is read without an error
has depth zero and Enter submits it (`enter_submits`).
-/

namespace Scriptlet

/-- The kind opens or closes a bracket. -/
def Kind.isBracket (kind : Kind) : Bool :=
  kind.isOpening || kind.isClosing

/-- No binary operator is a bracket. -/
theorem Kind.not_isBracket_of_isBinary {kind : Kind} (h : kind.isBinary = true) :
    kind.isBracket = false := by
  revert h
  cases kind <;> decide

namespace Grammar

/-- The first list is the second one behind tokens whose brackets match. -/
inductive Matched : List Token → List Token → Prop where
  | refl {rest} : Matched rest rest
  | plain {token kind tokens rest} :
      token.kind = kind → kind.isBracket = false → Matched tokens rest →
      Matched (token :: tokens) rest
  | enclosed {first opening last closing tokens middle rest} :
      first.kind = opening → opening.isOpening = true → Matched tokens (last :: middle) →
      last.kind = closing → closing.isClosing = true → Matched middle rest →
      Matched (first :: tokens) rest

variable {literal : Token → Prop} {tokens middle rest : List Token}

/-- Matched tokens one behind the other are matched. -/
theorem Matched.trans (h : Matched tokens middle) (hrest : Matched middle rest) :
    Matched tokens rest := by
  induction h with
  | refl => exact hrest
  | plain hkind hbracket _ ih => exact .plain hkind hbracket (ih hrest)
  | enclosed hfirst hopening hinner hlast hclosing _ _ ih =>
      exact .enclosed hfirst hopening hinner hlast hclosing (ih hrest)

/-- One more token, of a kind that is no bracket. -/
theorem Matched.next {token : Token} {kind : Kind} (h : Matched tokens (token :: rest))
    (hkind : token.kind = kind) (hbracket : kind.isBracket = false) : Matched tokens rest :=
  h.trans (.plain hkind hbracket .refl)

theorem Parameter.matched :
    ∀ {tokens rest node}, Parameter tokens rest node → Matched tokens rest
  | _, _, _, .name h => .plain h rfl .refl

/-- A list is matched when its items are. -/
theorem Items.matched {α : Type} {item : List Token → List Token → α → Prop}
    (hitem : ∀ {tokens rest value}, item tokens rest value → Matched tokens rest) :
    ∀ {tokens rest values}, Items item tokens rest values → Matched tokens rest
  | _, _, _, .nil => .refl
  | _, _, _, .single hvalue => hitem hvalue
  | _, _, _, .comma hvalue hcomma hmore =>
      ((hitem hvalue).next hcomma rfl).trans (hmore.matched hitem)

mutual

/-- The brackets of an expression are matched. -/
theorem Expression.matched :
    ∀ {tokens rest node}, Expression literal tokens rest node → Matched tokens rest
  | _, _, _, .links hfirst hlinks => hfirst.matched.trans hlinks.matched

theorem Links.matched :
    ∀ {tokens rest links}, Links literal tokens rest links → Matched tokens rest
  | _, _, _, .nil => .refl
  | _, _, _, .cons hoperator hright hlinks =>
      .plain rfl (Kind.not_isBracket_of_isBinary hoperator) (hright.matched.trans hlinks.matched)

theorem Operand.matched :
    ∀ {tokens rest node}, Operand literal tokens rest node → Matched tokens rest
  | _, _, _, .unary (.inl hbang) hoperand => .plain hbang rfl hoperand.matched
  | _, _, _, .unary (.inr hminus) hoperand => .plain hminus rfl hoperand.matched
  | _, _, _, .primary htarget hpostfixes => htarget.matched.trans hpostfixes.matched

/-- Calls and indexes close the brackets that they open. -/
theorem Postfixes.matched :
    ∀ {target tokens rest node}, Postfixes literal target tokens rest node → Matched tokens rest
  | _, _, _, _, .nil => .refl
  | _, _, _, _, .call hparen harguments hclose hmore =>
      .enclosed hparen rfl harguments.expressions_matched hclose rfl hmore.matched
  | _, _, _, _, .index hbracket hposition hclose hmore =>
      .enclosed hbracket rfl hposition.matched hclose rfl hmore.matched
  | _, _, _, _, .member hdot hname hmore =>
      .plain hdot rfl (.plain hname rfl hmore.matched)

/-- The brackets of a list of expressions are matched. -/
theorem Items.expressions_matched :
    ∀ {tokens rest values}, Items (Expression literal) tokens rest values → Matched tokens rest
  | _, _, _, .nil => .refl
  | _, _, _, .single hvalue => hvalue.matched
  | _, _, _, .comma hvalue hcomma hmore =>
      (hvalue.matched.next hcomma rfl).trans hmore.expressions_matched

theorem Items.pairs_matched :
    ∀ {tokens rest values}, Items (Pair literal) tokens rest values → Matched tokens rest
  | _, _, _, .nil => .refl
  | _, _, _, .single hvalue => hvalue.matched
  | _, _, _, .comma hvalue hcomma hmore =>
      (hvalue.matched.next hcomma rfl).trans hmore.pairs_matched

/-- Groups, literals, choices and functions close the brackets that they open. -/
theorem Primary.matched :
    ∀ {tokens rest node}, Primary literal tokens rest node → Matched tokens rest
  | _, _, _, .identifier h => .plain h rfl .refl
  | _, _, _, .integer h _ => .plain h rfl .refl
  | _, _, _, .string h => .plain h rfl .refl
  | _, _, _, .yes h => .plain h rfl .refl
  | _, _, _, .no h => .plain h rfl .refl
  | _, _, _, .group hparen hnode hclose => .enclosed hparen rfl hnode.matched hclose rfl .refl
  | _, _, _, .array hbracket helements hclose =>
      .enclosed hbracket rfl helements.expressions_matched hclose rfl .refl
  | _, _, _, .map hbrace hpairs hclose =>
      .enclosed hbrace rfl hpairs.pairs_matched hclose rfl .refl
  | _, _, _, .choice hword hparen htest hclose hconsequence =>
      .plain hword rfl (.enclosed hparen rfl htest.matched hclose rfl hconsequence.matched)
  | _, _, _, .alternative hword hparen htest hclose hconsequence hother hno =>
      .plain hword rfl (.enclosed hparen rfl htest.matched hclose rfl
        ((hconsequence.matched.next hother rfl).trans hno.matched))
  | _, _, _, .function hword hparen hparameters hclose hbody =>
      .plain hword rfl (.enclosed hparen rfl (hparameters.matched Parameter.matched) hclose rfl
        hbody.matched)

theorem Pair.matched :
    ∀ {tokens rest pair}, Pair literal tokens rest pair → Matched tokens rest
  | _, _, _, .colon hkey hcolon hvalue => (hkey.matched.next hcolon rfl).trans hvalue.matched

/-- A block closes its brace. -/
theorem Block.matched :
    ∀ {tokens rest node}, Block literal tokens rest node → Matched tokens rest
  | _, _, _, .braces hbrace hstatements hclose =>
      .enclosed hbrace rfl hstatements.matched hclose rfl .refl

theorem Statements.matched :
    ∀ {tokens rest nodes}, Statements literal tokens rest nodes → Matched tokens rest
  | _, _, _, .nil => .refl
  | _, _, _, .closed hnode hnodes => hnode.matched.trans hnodes.matched
  | _, _, _, .unclosed hbody _ hnodes => hbody.matched.trans hnodes.matched

/-- The brackets of a statement are matched. -/
theorem Statement.matched :
    ∀ {tokens rest node}, Statement literal tokens rest node → Matched tokens rest
  | _, _, _, .declaration h => h.matched
  | _, _, _, .returning hword hsemicolon => .plain hword rfl (.plain hsemicolon rfl .refl)
  | _, _, _, .returningValue hword hvalue hsemicolon =>
      .plain hword rfl (hvalue.matched.next hsemicolon rfl)
  | _, _, _, .expression hbody hsemicolon => hbody.matched.next hsemicolon rfl
  -- The header's parenthesis is closed by its last clause.
  | _, _, _, .loop hword hparen hfirst htest hstep hbody => by
      obtain ⟨close, hclause, hclose⟩ := hstep.matched_close
      refine .plain hword rfl (.enclosed hparen rfl ?_ hclose rfl hbody.matched)
      exact hfirst.matched.trans (htest.matched.trans hclause)

theorem Declaration.matched :
    ∀ {tokens rest node}, Declaration literal tokens rest node → Matched tokens rest
  | _, _, _, .bare hword hname hsemicolon =>
      .plain hword rfl (.plain hname rfl (.plain hsemicolon rfl .refl))
  | _, _, _, .valued hword hname hequals hvalue hsemicolon =>
      .plain hword rfl (.plain hname rfl (.plain hequals rfl (hvalue.matched.next hsemicolon rfl)))

theorem FirstClause.matched :
    ∀ {tokens rest node}, FirstClause literal tokens rest node → Matched tokens rest
  | _, _, _, .none hsemicolon => .plain hsemicolon rfl .refl
  | _, _, _, .declaration h => h.matched
  | _, _, _, .expression hbody hsemicolon => hbody.matched.next hsemicolon rfl

theorem TestClause.matched :
    ∀ {tokens rest node}, TestClause literal tokens rest node → Matched tokens rest
  | _, _, _, .none hsemicolon => .plain hsemicolon rfl .refl
  | _, _, _, .expression hbody hsemicolon => hbody.matched.next hsemicolon rfl

/-- The last clause is matched up to the parenthesis that closes the header. -/
theorem StepClause.matched_close :
    ∀ {tokens rest node}, StepClause literal tokens rest node →
      ∃ close, Matched tokens (close :: rest) ∧ close.kind = .closeParen
  | _, _, _, .none hclose => ⟨_, .refl, hclose⟩
  | _, _, _, .declaration h hclose => ⟨_, h.matched, hclose⟩
  | _, _, _, .expression hbody hclose => ⟨_, hbody.matched, hclose⟩
  | _, _, _, .terminated hbody hsemicolon hclose =>
      ⟨_, hbody.matched.next hsemicolon rfl, hclose⟩

end

end Grammar

namespace Prompt

open Grammar

/-- Tokens whose brackets match leave the depth as it was. -/
theorem foldl_stepDepth_of_matched {tokens rest : List Token} (h : Matched tokens rest)
    (depth : Nat) : tokens.foldl stepDepth depth = rest.foldl stepDepth depth := by
  induction h generalizing depth with
  | refl => rfl
  | plain hkind hbracket _ ih =>
      rw [← hkind, Kind.isBracket, Bool.or_eq_false_iff] at hbracket
      rw [List.foldl_cons, stepDepth, hbracket.1, hbracket.2]
      exact ih depth
  | @enclosed first opening last closing tokens middle rest hfirst hopening _ hlast hclosing _
      ihinner ihrest =>
      have hopen : stepDepth depth first = depth + 1 := by
        rw [stepDepth, hfirst, if_pos hopening]
      -- A closing bracket finds at least the one it closes, so nothing is clipped.
      have hclose : stepDepth (depth + 1) last = depth := by
        have hkind : closing.isOpening = false := by
          revert hclosing
          cases closing <;> decide
        rw [stepDepth, hlast, hkind, hclosing]
        exact Nat.add_sub_cancel depth 1
      rw [List.foldl_cons, hopen, ihinner, List.foldl_cons, hclose, ihrest]

/-- A text that is read without an error has no open bracket, so Enter hands it to the session; a
text with an open bracket is not read without an error. -/
theorem enter_submits (text : String) :
    (∀ parsed, parse text = .ok parsed → parsed.errors = [] →
      depth text = 0 ∧
      ∀ dialogue : Dialogue, dialogue.ending = none → dialogue.buffer = text →
        let step := dialogue.session.dispatch (clean text)
        dialogue.press .enter = ⟨step.session, "", dialogue.transcript ++ step.transcript,
          step.broken.map Ending.broken⟩) ∧
    (0 < depth text → ∀ parsed, parse text = .ok parsed → parsed.errors ≠ []) := by
  have hdepth (parsed : Parsed) (hparse : parse text = .ok parsed) (herrors : parsed.errors = []) :
      depth text = 0 := by
    obtain ⟨statements, errors⟩ := parsed
    subst herrors
    exact foldl_stepDepth_of_matched (parse_eq_iff.1 hparse).matched 0
  refine ⟨fun parsed hparse herrors => ⟨hdepth parsed hparse herrors, ?_⟩, ?_⟩
  · intro dialogue hending hbuffer step
    have hbrackets : Dialogue.openBrackets text = 0 := by
      rw [Dialogue.openBrackets, hdepth parsed hparse herrors, ite_self]
    simp only [Dialogue.press, hending, hbuffer, hbrackets]
    rfl
  · intro hopen parsed hparse herrors
    rw [hdepth parsed hparse herrors] at hopen
    exact Nat.lt_irrefl 0 hopen

/-- Brackets of all three kinds, with one more in a string; and a block that is still open. -/
theorem enter_submits_nested :
    let text := "if (f([1, \"(\"])) \x7b g(\x7b\"k\": 2\x7d) \x7d"
    let dialogue : Dialogue := ⟨Session.start .recording false false, text, .empty, none⟩
    ((∃ parsed, parse text = .ok parsed ∧ parsed.errors = []) ∧ depth text = 0 ∧
      (dialogue.press .enter).buffer = "") ∧
    0 < depth "fn() \x7b [" ∧ ∀ parsed, parse "fn() \x7b [" = .ok parsed → parsed.errors ≠ [] := by
  intro text dialogue
  have hopen : 0 < depth "fn() \x7b [" := by decide +kernel
  obtain ⟨parsed, hparse, herrors⟩ : ∃ parsed, parse text = .ok parsed ∧ parsed.errors = [] :=
    exists_parsed (by decide +kernel)
  obtain ⟨hdepth, henter⟩ := (enter_submits text).1 parsed hparse herrors
  refine ⟨⟨⟨parsed, hparse, herrors⟩, hdepth, ?_⟩, hopen, (enter_submits _).2 hopen⟩
  rw [henter dialogue rfl rfl]

end Prompt

end Scriptlet
