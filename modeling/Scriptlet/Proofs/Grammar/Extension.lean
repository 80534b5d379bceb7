import Scriptlet.Proofs.Grammar.Tokens

/-!
# Phrases before more tokens

A phrase stays a phrase when more tokens follow, since it does not look behind its own end. The one
exception is an expression statement without its semicolon at the end of the text, which the next
token might extend. Statements that end otherwise show their own end (`Closed`), and so does what
comes behind the first of them (`Closed.tail`).
-/

namespace Scriptlet.Grammar

variable {literal : Token → Prop} (extra : List Token)

/-- A phrase that is ended by a token is ended by it whatever follows. -/
theorem Ended.extend {rest : List Token} (h : Ended rest) (hne : rest ≠ []) :
    Ended (rest ++ extra) := by
  cases rest with
  | nil => exact absurd rfl hne
  | cons token rest => exact h

/-- Before tokens that are left there were tokens. -/
theorem Passes.ne_nil {tokens rest : List Token} (h : Passes tokens rest) (hne : rest ≠ []) :
    tokens ≠ [] := by
  intro hnil
  have hlength := h.length_le
  have hpos := List.length_pos_iff.2 hne
  rw [hnil, List.length_nil] at hlength
  omega

/-- Tokens are passed whatever follows. -/
theorem Passes.extend {tokens rest : List Token} (h : Passes tokens rest) :
    Passes (tokens ++ extra) (rest ++ extra) := by
  induction h with
  | refl => exact .refl
  | token hkind hlegal _ ih => exact .token hkind hlegal ih

theorem Parameter.extend : ∀ {tokens rest node}, Parameter tokens rest node →
    Parameter (tokens ++ extra) (rest ++ extra) node
  | _, _, _, .name h => .name h

/-- A list stays a list if its items stay what they are. -/
theorem Items.extend {α : Type} {item : List Token → List Token → α → Prop}
    (hitem : ∀ {tokens rest value}, item tokens rest value →
      item (tokens ++ extra) (rest ++ extra) value) :
    ∀ {tokens rest values}, Items item tokens rest values →
      Items item (tokens ++ extra) (rest ++ extra) values
  | _, _, _, .nil => .nil
  | _, _, _, .single hvalue => .single (hitem hvalue)
  | _, _, _, .comma hvalue hcomma hmore => .comma (hitem hvalue) hcomma (hmore.extend hitem)

mutual

/-- An expression stays one, since it says where it ends. -/
theorem Expression.extend : ∀ {tokens rest node}, Expression literal tokens rest node →
    Expression literal (tokens ++ extra) (rest ++ extra) node
  | _, _, _, .links hfirst hlinks => .links hfirst.extend hlinks.extend

theorem Links.extend : ∀ {tokens rest links}, Links literal tokens rest links →
    Links literal (tokens ++ extra) (rest ++ extra) links
  | _, _, _, .nil => .nil
  | _, _, _, .cons hoperator hright hlinks => .cons hoperator hright.extend hlinks.extend

theorem Operand.extend : ∀ {tokens rest node}, Operand literal tokens rest node →
    Operand literal (tokens ++ extra) (rest ++ extra) node
  | _, _, _, .unary hsign hoperand => .unary hsign hoperand.extend
  | _, _, _, .primary htarget hpostfixes => .primary htarget.extend hpostfixes.extend

theorem Postfixes.extend : ∀ {target tokens rest node}, Postfixes literal target tokens rest node →
    Postfixes literal target (tokens ++ extra) (rest ++ extra) node
  | _, _, _, _, .nil => .nil
  | _, _, _, _, .call hparen harguments hclose hmore =>
      .call hparen harguments.expressions_extend hclose hmore.extend
  | _, _, _, _, .index hbracket hposition hclose hmore =>
      .index hbracket hposition.extend hclose hmore.extend
  | _, _, _, _, .member hdot hname hmore => .member hdot hname hmore.extend

theorem Items.expressions_extend :
    ∀ {tokens rest values}, Items (Expression literal) tokens rest values →
      Items (Expression literal) (tokens ++ extra) (rest ++ extra) values
  | _, _, _, .nil => .nil
  | _, _, _, .single hvalue => .single hvalue.extend
  | _, _, _, .comma hvalue hcomma hmore => .comma hvalue.extend hcomma hmore.expressions_extend

theorem Items.pairs_extend : ∀ {tokens rest values}, Items (Pair literal) tokens rest values →
    Items (Pair literal) (tokens ++ extra) (rest ++ extra) values
  | _, _, _, .nil => .nil
  | _, _, _, .single hvalue => .single hvalue.extend
  | _, _, _, .comma hvalue hcomma hmore => .comma hvalue.extend hcomma hmore.pairs_extend

theorem Primary.extend : ∀ {tokens rest node}, Primary literal tokens rest node →
    Primary literal (tokens ++ extra) (rest ++ extra) node
  | _, _, _, .identifier h => .identifier h
  | _, _, _, .integer h hliteral => .integer h hliteral
  | _, _, _, .string h => .string h
  | _, _, _, .yes h => .yes h
  | _, _, _, .no h => .no h
  | _, _, _, .group hparen hnode hclose => .group hparen hnode.extend hclose
  | _, _, _, .array hbracket helements hclose =>
      .array hbracket helements.expressions_extend hclose
  | _, _, _, .map hbrace hpairs hclose => .map hbrace hpairs.pairs_extend hclose
  | _, _, _, .choice hword hparen htest hclose hconsequence =>
      .choice hword hparen htest.extend hclose hconsequence.extend
  | _, _, _, .alternative hword hparen htest hclose hconsequence hother hno =>
      .alternative hword hparen htest.extend hclose hconsequence.extend hother hno.extend
  | _, _, _, .function hword hparen hparameters hclose hbody =>
      .function hword hparen (hparameters.extend extra (Parameter.extend extra)) hclose hbody.extend

theorem Pair.extend : ∀ {tokens rest pair}, Pair literal tokens rest pair →
    Pair literal (tokens ++ extra) (rest ++ extra) pair
  | _, _, _, .colon hkey hcolon hvalue => .colon hkey.extend hcolon hvalue.extend

/-- A block is closed by its own brace. -/
theorem Block.extend : ∀ {tokens rest node}, Block literal tokens rest node →
    Block literal (tokens ++ extra) (rest ++ extra) node
  | _, _, _, .braces hbrace hstatements hclose =>
      .braces hbrace (hstatements.extend nofun) hclose

/-- Statements before a token stay statements. -/
theorem Statements.extend : ∀ {tokens rest nodes}, Statements literal tokens rest nodes →
    rest ≠ [] → Statements literal (tokens ++ extra) (rest ++ extra) nodes
  | _, _, _, .nil, _ => .nil
  | _, _, _, .closed hnode hnodes, hne => .closed hnode.extend (hnodes.extend hne)
  | _, _, _, .unclosed hbody hended hnodes, hne =>
      .unclosed hbody.extend (hended.extend extra (hnodes.passes.ne_nil hne)) (hnodes.extend hne)

/-- A statement that ends with a semicolon or a block stays one. -/
theorem Statement.extend : ∀ {tokens rest node}, Statement literal tokens rest node →
    Statement literal (tokens ++ extra) (rest ++ extra) node
  | _, _, _, .declaration h => .declaration h.extend
  | _, _, _, .returning hword hsemicolon => .returning hword hsemicolon
  | _, _, _, .returningValue hword hvalue hsemicolon =>
      .returningValue hword hvalue.extend hsemicolon
  | _, _, _, .expression hbody hsemicolon => .expression hbody.extend hsemicolon
  | _, _, _, .loop hword hparen hfirst htest hstep hbody =>
      .loop hword hparen hfirst.extend htest.extend hstep.extend hbody.extend

/-- A declaration ends with its semicolon. -/
theorem Declaration.extend : ∀ {tokens rest node}, Declaration literal tokens rest node →
    Declaration literal (tokens ++ extra) (rest ++ extra) node
  | _, _, _, .bare hword hname hsemicolon => .bare hword hname hsemicolon
  | _, _, _, .valued hword hname hequals hvalue hsemicolon =>
      .valued hword hname hequals hvalue.extend hsemicolon

theorem FirstClause.extend : ∀ {tokens rest node}, FirstClause literal tokens rest node →
    FirstClause literal (tokens ++ extra) (rest ++ extra) node
  | _, _, _, .none hsemicolon => .none hsemicolon
  | _, _, _, .declaration h => .declaration h.extend
  | _, _, _, .expression hbody hsemicolon => .expression hbody.extend hsemicolon

theorem TestClause.extend : ∀ {tokens rest node}, TestClause literal tokens rest node →
    TestClause literal (tokens ++ extra) (rest ++ extra) node
  | _, _, _, .none hsemicolon => .none hsemicolon
  | _, _, _, .expression hbody hsemicolon => .expression hbody.extend hsemicolon

theorem StepClause.extend : ∀ {tokens rest node}, StepClause literal tokens rest node →
    StepClause literal (tokens ++ extra) (rest ++ extra) node
  | _, _, _, .none hclose => .none hclose
  | _, _, _, .declaration h hclose => .declaration h.extend hclose
  | _, _, _, .expression hbody hclose => .expression hbody.extend hclose
  | _, _, _, .terminated hbody hsemicolon hclose => .terminated hbody.extend hsemicolon hclose

end

/-- The statements show their own end: there are none, the last token is a semicolon, or the last
statement is a loop. -/
def Closed (tokens : List Token) (nodes : List Node) : Prop :=
  tokens = [] ∨ (∃ token, tokens.getLast? = some token ∧ token.kind = .semicolon) ∨
    ∃ origin first test step body, nodes.getLast? = some (.loop origin first test step body)

section Ending

variable {tokens middle rest : List Token} {node : Node} {nodes : List Node}

/-- Without tokens there are no statements. -/
theorem Statements.eq_nil_of_tokens (h : Statements literal [] rest nodes) : nodes = [] := by
  cases h with
  | nil => rfl
  | closed hnode => exact absurd hnode.advances.length_lt (Nat.not_lt_zero _)

theorem Statements.eq_of_nodes (h : Statements literal tokens rest []) : tokens = rest := by
  cases h with
  | nil => rfl

/-- What comes behind the first of some statements shows its own end if they do. -/
theorem Closed.tail (hclosed : Closed tokens (node :: nodes)) (hpasses : Passes tokens middle)
    (h : Statements literal middle [] nodes) : Closed middle nodes := by
  by_cases hmiddle : middle = []
  · exact .inl hmiddle
  · obtain ⟨read, rfl, -⟩ := hpasses.read
    rcases hclosed with hnil | ⟨token, hlast, hkind⟩ | ⟨origin, first, test, step, body, hlast⟩
    · exact absurd (List.append_eq_nil_iff.1 hnil).2 hmiddle
    · refine .inr (.inl ⟨token, ?_, hkind⟩)
      rw [List.getLast?_append, List.getLast?_eq_some_getLast hmiddle, Option.some_or] at hlast
      rw [List.getLast?_eq_some_getLast hmiddle]
      exact hlast
    · refine .inr (.inr ⟨origin, first, test, step, body, ?_⟩)
      cases nodes with
      | nil => exact absurd h.eq_of_nodes hmiddle
      | cons next nodes =>
          rw [List.getLast?_cons_cons] at hlast
          exact hlast

/-- An expression statement without its semicolon does not show its own end. -/
theorem not_closed_of_expression {first : Token} {body : Node}
    (h : Expression literal (first :: tokens) [] body) :
    ¬ Closed (first :: tokens) [.expression (some first) body] := by
  intro hclosed
  rcases hclosed with hnil | ⟨token, hlast, hkind⟩ | ⟨origin, start, test, step, inner, hlast⟩
  · cases hnil
  · obtain ⟨read, final, htokens, hfinal⟩ := h.ends
    rw [htokens, List.getLast?_concat] at hlast
    cases hlast
    exact hfinal hkind
  · cases hlast

/-- Behind an expression statement without its semicolon there is more, if the end is shown. -/
theorem Closed.ne_nil {first : Token} {body : Node}
    (hclosed : Closed (first :: tokens) (.expression (some first) body :: nodes))
    (hbody : Expression literal (first :: tokens) middle body)
    (hnodes : Statements literal middle [] nodes) : middle ≠ [] := by
  intro hnil
  subst hnil
  rw [hnodes.eq_nil_of_tokens] at hclosed
  exact not_closed_of_expression hbody hclosed

end Ending

end Scriptlet.Grammar
