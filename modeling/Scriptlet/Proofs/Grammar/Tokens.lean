import Scriptlet.Proofs.Grammar.Rules

/-!
# The tokens of a phrase

What a phrase of the grammar says about the tokens it is made of: it takes them from the front of
the list, at least one for most phrases, and none of them is illegal. An expression begins with one
of a few kinds and never ends with a semicolon.
-/

namespace Scriptlet

namespace Kind

/-- The kinds an expression can begin with. -/
def isInitial : Kind → Bool
  | ident | int | string | wordTrue | wordFalse | bang | minus => true
  | openParen | openBracket | openBrace | wordIf | wordFn => true
  | _ => false

/-- The kinds a statement can begin with. -/
def isLeading : Kind → Bool
  | wordLet | wordReturn | wordFor => true
  | kind => kind.isInitial

/-- What begins an expression begins a statement. -/
theorem isLeading_of_isInitial {kind : Kind} (h : kind.isInitial = true) :
    kind.isLeading = true := by
  revert h
  cases kind <;> decide

theorem ne_illegal_of_isLeading {kind : Kind} (h : kind.isLeading = true) : kind ≠ illegal := by
  intro heq
  subst heq
  cases h

theorem ne_illegal_of_isBinary {kind : Kind} (h : kind.isBinary = true) : kind ≠ illegal := by
  intro heq
  subst heq
  cases h

theorem ne_illegal_of_isPostfix {kind : Kind} (h : kind.isPostfix = true) : kind ≠ illegal := by
  intro heq
  subst heq
  cases h

/-- Binary operators bind looser than unary ones. -/
theorem power_lt_of_isBinary {kind : Kind} (h : kind.isBinary = true) :
    0 < kind.power ∧ kind.power < Parser.unaryPower := by
  revert h
  cases kind <;> decide

/-- Calls, indices and members bind tighter than unary operators. -/
theorem power_gt_of_isPostfix {kind : Kind} (h : kind.isPostfix = true) :
    Parser.unaryPower < kind.power := by
  revert h
  cases kind <;> decide

/-- Only the tokens that extend an expression have a power. -/
theorem isBinary_or_isPostfix {kind : Kind} (h : 0 < kind.power) :
    kind.isBinary = true ∨ kind.isPostfix = true := by
  revert h
  cases kind <;> decide

/-- A token that continues no expression has no power. -/
theorem power_eq_zero_of_not_isContinuing {kind : Kind} (h : kind.isContinuing = false) :
    kind.power = 0 := by
  revert h
  cases kind <;> decide

end Kind

namespace Grammar

/-- The first list is the second one behind tokens that are not illegal. -/
inductive Passes : List Token → List Token → Prop where
  | refl {rest} : Passes rest rest
  | token {token kind tokens rest} :
      token.kind = kind → kind ≠ .illegal → Passes tokens rest → Passes (token :: tokens) rest

/-- The first list is the second one behind at least one token, and none is illegal. -/
inductive Advances : List Token → List Token → Prop where
  | token {token kind tokens rest} :
      token.kind = kind → kind ≠ .illegal → Passes tokens rest → Advances (token :: tokens) rest

section Reading

variable {tokens middle rest : List Token} {token : Token}

theorem Passes.trans (h : Passes tokens middle) (hrest : Passes middle rest) :
    Passes tokens rest := by
  induction h with
  | refl => exact hrest
  | token hkind hlegal _ ih => exact .token hkind hlegal (ih hrest)

/-- One more token, of a kind that is known. -/
theorem Passes.next {kind : Kind} (h : Passes tokens (token :: rest)) (hkind : token.kind = kind)
    (hlegal : kind ≠ .illegal) : Passes tokens rest :=
  h.trans (.token hkind hlegal .refl)

/-- The tokens that were passed. -/
theorem Passes.read (h : Passes tokens rest) :
    ∃ read, tokens = read ++ rest ∧ ∀ token ∈ read, token.kind ≠ .illegal := by
  induction h with
  | refl => exact ⟨[], rfl, nofun⟩
  | token hkind hlegal _ ih =>
      obtain ⟨read, rfl, hread⟩ := ih
      exact ⟨_ :: read, rfl, List.forall_mem_cons.2 ⟨hkind ▸ hlegal, hread⟩⟩

/-- Passing tokens leaves no more of them. -/
theorem Passes.length_le (h : Passes tokens rest) : rest.length ≤ tokens.length := by
  obtain ⟨read, rfl, -⟩ := h.read
  simp

/-- What is left was there before. -/
theorem Passes.mem (h : Passes tokens rest) (hmem : token ∈ rest) : token ∈ tokens := by
  obtain ⟨read, rfl, -⟩ := h.read
  exact List.mem_append_right _ hmem

theorem Advances.passes (h : Advances tokens rest) : Passes tokens rest := by
  cases h with
  | token hkind hlegal h => exact .token hkind hlegal h

/-- Advancing and then passing more is advancing. -/
theorem Advances.trans (h : Advances tokens middle) (hrest : Passes middle rest) :
    Advances tokens rest := by
  cases h with
  | token hkind hlegal h => exact .token hkind hlegal (h.trans hrest)

/-- Advancing to a token of a known kind, and by it. -/
theorem Advances.next {kind : Kind} (h : Advances tokens (token :: rest))
    (hkind : token.kind = kind) (hlegal : kind ≠ .illegal) : Advances tokens rest :=
  h.trans (.token hkind hlegal .refl)

/-- Advancing leaves fewer tokens. -/
theorem Advances.length_lt (h : Advances tokens rest) : rest.length < tokens.length := by
  cases h with
  | token _ _ h => exact Nat.lt_succ_of_le h.length_le

end Reading

theorem Parameter.advances :
    ∀ {tokens rest node}, Parameter tokens rest node → Advances tokens rest
  | _, _, _, .name h => .token h nofun .refl

/-- A list passes its tokens when its items do. -/
theorem Items.passes {α : Type} {item : List Token → List Token → α → Prop}
    (hitem : ∀ {tokens rest value}, item tokens rest value → Advances tokens rest) :
    ∀ {tokens rest values}, Items item tokens rest values → Passes tokens rest
  | _, _, _, .nil => .refl
  | _, _, _, .single hvalue => (hitem hvalue).passes
  | _, _, _, .comma hvalue hcomma hmore =>
      ((hitem hvalue).passes.next hcomma nofun).trans (hmore.passes hitem)

variable {literal : Token → Prop}

mutual

/-- An expression has at least the tokens of its first operand. -/
theorem Expression.advances :
    ∀ {tokens rest node}, Expression literal tokens rest node → Advances tokens rest
  | _, _, _, .links hfirst hlinks => hfirst.advances.trans hlinks.passes

/-- There may be no operators behind an operand. -/
theorem Links.passes :
    ∀ {tokens rest links}, Links literal tokens rest links → Passes tokens rest
  | _, _, _, .nil => .refl
  | _, _, _, .cons hoperator hright hlinks =>
      .token rfl (Kind.ne_illegal_of_isBinary hoperator)
        (hright.advances.passes.trans hlinks.passes)

/-- An operand has at least one token. -/
theorem Operand.advances :
    ∀ {tokens rest node}, Operand literal tokens rest node → Advances tokens rest
  | _, _, _, .unary (.inl hbang) hoperand => .token hbang nofun hoperand.advances.passes
  | _, _, _, .unary (.inr hminus) hoperand => .token hminus nofun hoperand.advances.passes
  | _, _, _, .primary htarget hpostfixes => htarget.advances.trans hpostfixes.passes

/-- There may be no calls or accesses behind an operand. -/
theorem Postfixes.passes :
    ∀ {target tokens rest node}, Postfixes literal target tokens rest node → Passes tokens rest
  | _, _, _, _, .nil => .refl
  | _, _, _, _, .call hparen harguments hclose hmore =>
      .token hparen nofun ((harguments.expressions_pass.next hclose nofun).trans
        hmore.passes)
  | _, _, _, _, .index hbracket hposition hclose hmore =>
      .token hbracket nofun ((hposition.advances.passes.next hclose nofun).trans
        hmore.passes)
  | _, _, _, _, .member hdot hname hmore =>
      .token hdot nofun (.token hname nofun hmore.passes)

/-- A list of expressions may be empty. -/
theorem Items.expressions_pass :
    ∀ {tokens rest values}, Items (Expression literal) tokens rest values → Passes tokens rest
  | _, _, _, .nil => .refl
  | _, _, _, .single hvalue => hvalue.advances.passes
  | _, _, _, .comma hvalue hcomma hmore =>
      (hvalue.advances.passes.next hcomma nofun).trans hmore.expressions_pass

theorem Items.pairs_pass :
    ∀ {tokens rest values}, Items (Pair literal) tokens rest values → Passes tokens rest
  | _, _, _, .nil => .refl
  | _, _, _, .single hvalue => hvalue.advances.passes
  | _, _, _, .comma hvalue hcomma hmore =>
      (hvalue.advances.passes.next hcomma nofun).trans hmore.pairs_pass

/-- A primary expression has at least one token. -/
theorem Primary.advances :
    ∀ {tokens rest node}, Primary literal tokens rest node → Advances tokens rest
  | _, _, _, .identifier h => .token h nofun .refl
  | _, _, _, .integer h _ => .token h nofun .refl
  | _, _, _, .string h => .token h nofun .refl
  | _, _, _, .yes h => .token h nofun .refl
  | _, _, _, .no h => .token h nofun .refl
  | _, _, _, .group hparen hnode hclose =>
      .token hparen nofun (hnode.advances.passes.next hclose nofun)
  | _, _, _, .array hbracket helements hclose =>
      .token hbracket nofun (helements.expressions_pass.next hclose nofun)
  | _, _, _, .map hbrace hpairs hclose =>
      .token hbrace nofun (hpairs.pairs_pass.next hclose nofun)
  | _, _, _, .choice hword hparen htest hclose hconsequence =>
      .token hword nofun (.token hparen nofun
        ((htest.advances.passes.next hclose nofun).trans hconsequence.advances.passes))
  | _, _, _, .alternative hword hparen htest hclose hconsequence hother hno =>
      .token hword nofun (.token hparen nofun
        ((htest.advances.passes.next hclose nofun).trans
          ((hconsequence.advances.passes.next hother nofun).trans hno.advances.passes)))
  | _, _, _, .function hword hparen hparameters hclose hbody =>
      .token hword nofun (.token hparen nofun
        (((hparameters.passes Parameter.advances).next hclose nofun).trans hbody.advances.passes))

theorem Pair.advances :
    ∀ {tokens rest pair}, Pair literal tokens rest pair → Advances tokens rest
  | _, _, _, .colon hkey hcolon hvalue =>
      (hkey.advances.next hcolon nofun).trans hvalue.advances.passes

theorem Block.advances :
    ∀ {tokens rest node}, Block literal tokens rest node → Advances tokens rest
  | _, _, _, .braces hbrace hstatements hclose =>
      .token hbrace nofun (hstatements.passes.next hclose nofun)

/-- There may be no statements. -/
theorem Statements.passes :
    ∀ {tokens rest nodes}, Statements literal tokens rest nodes → Passes tokens rest
  | _, _, _, .nil => .refl
  | _, _, _, .closed hnode hnodes => hnode.advances.passes.trans hnodes.passes
  | _, _, _, .unclosed hbody _ hnodes => hbody.advances.passes.trans hnodes.passes

theorem Statement.advances :
    ∀ {tokens rest node}, Statement literal tokens rest node → Advances tokens rest
  | _, _, _, .declaration h => h.advances
  | _, _, _, .returning hword hsemicolon =>
      .token hword nofun (.token hsemicolon nofun .refl)
  | _, _, _, .returningValue hword hvalue hsemicolon =>
      .token hword nofun (hvalue.advances.passes.next hsemicolon nofun)
  | _, _, _, .expression hbody hsemicolon => hbody.advances.next hsemicolon nofun
  | _, _, _, .loop hword hparen hfirst htest hstep hbody =>
      .token hword nofun (.token hparen nofun
        (hfirst.advances.passes.trans (htest.advances.passes.trans
          (hstep.advances.passes.trans hbody.advances.passes))))

theorem Declaration.advances :
    ∀ {tokens rest node}, Declaration literal tokens rest node → Advances tokens rest
  | _, _, _, .bare hword hname hsemicolon =>
      .token hword nofun (.token hname nofun
        (.token hsemicolon nofun .refl))
  | _, _, _, .valued hword hname hequals hvalue hsemicolon =>
      .token hword nofun (.token hname nofun
        (.token hequals nofun (hvalue.advances.passes.next hsemicolon nofun)))

/-- The first clause has at least its semicolon. -/
theorem FirstClause.advances :
    ∀ {tokens rest node}, FirstClause literal tokens rest node → Advances tokens rest
  | _, _, _, .none hsemicolon => .token hsemicolon nofun .refl
  | _, _, _, .declaration h => h.advances
  | _, _, _, .expression hbody hsemicolon => hbody.advances.next hsemicolon nofun

theorem TestClause.advances :
    ∀ {tokens rest node}, TestClause literal tokens rest node → Advances tokens rest
  | _, _, _, .none hsemicolon => .token hsemicolon nofun .refl
  | _, _, _, .expression hbody hsemicolon => hbody.advances.next hsemicolon nofun

theorem StepClause.advances :
    ∀ {tokens rest node}, StepClause literal tokens rest node → Advances tokens rest
  | _, _, _, .none hclose => .token hclose nofun .refl
  | _, _, _, .declaration h hclose => h.advances.next hclose nofun
  | _, _, _, .expression hbody hclose => hbody.advances.next hclose nofun
  | _, _, _, .terminated hbody hsemicolon hclose =>
      (hbody.advances.next hsemicolon nofun).next hclose nofun

end

/-- Between operands stand binary operators. -/
theorem Links.isBinary : ∀ {tokens rest links}, Links literal tokens rest links →
    ∀ link ∈ links, link.1.kind.isBinary = true
  | _, _, _, .nil => nofun
  | _, _, _, .cons hoperator _ hlinks => List.forall_mem_cons.2 ⟨hoperator, hlinks.isBinary⟩

section Beginnings

/-- A primary expression begins with a token that can begin an expression. -/
theorem Primary.initial : ∀ {tokens rest node}, Primary literal tokens rest node →
    ∃ first more, tokens = first :: more ∧ first.kind.isInitial = true
  | _, _, _, .identifier h => ⟨_, _, rfl, by rw [h]; rfl⟩
  | _, _, _, .integer h _ => ⟨_, _, rfl, by rw [h]; rfl⟩
  | _, _, _, .string h => ⟨_, _, rfl, by rw [h]; rfl⟩
  | _, _, _, .yes h => ⟨_, _, rfl, by rw [h]; rfl⟩
  | _, _, _, .no h => ⟨_, _, rfl, by rw [h]; rfl⟩
  | _, _, _, .group h _ _ => ⟨_, _, rfl, by rw [h]; rfl⟩
  | _, _, _, .array h _ _ => ⟨_, _, rfl, by rw [h]; rfl⟩
  | _, _, _, .map h _ _ => ⟨_, _, rfl, by rw [h]; rfl⟩
  | _, _, _, .choice h _ _ _ _ => ⟨_, _, rfl, by rw [h]; rfl⟩
  | _, _, _, .alternative h _ _ _ _ _ _ => ⟨_, _, rfl, by rw [h]; rfl⟩
  | _, _, _, .function h _ _ _ _ => ⟨_, _, rfl, by rw [h]; rfl⟩

theorem Operand.initial : ∀ {tokens rest node}, Operand literal tokens rest node →
    ∃ first more, tokens = first :: more ∧ first.kind.isInitial = true
  | _, _, _, .unary (.inl h) _ => ⟨_, _, rfl, by rw [h]; rfl⟩
  | _, _, _, .unary (.inr h) _ => ⟨_, _, rfl, by rw [h]; rfl⟩
  | _, _, _, .primary htarget _ => htarget.initial

/-- An expression begins with one of the initial kinds. -/
theorem Expression.initial {first : Token} {tokens rest : List Token} {node : Node}
    (h : Expression literal (first :: tokens) rest node) : first.kind.isInitial = true := by
  cases h with
  | links hfirst _ =>
      obtain ⟨_, _, heq, hinitial⟩ := hfirst.initial
      cases heq
      exact hinitial

/-- A declaration begins with its word. -/
theorem Declaration.leading : ∀ {tokens rest node}, Declaration literal tokens rest node →
    ∃ first more, tokens = first :: more ∧ first.kind = .wordLet
  | _, _, _, .bare h _ _ => ⟨_, _, rfl, h⟩
  | _, _, _, .valued h _ _ _ _ => ⟨_, _, rfl, h⟩

/-- A statement begins with a token that can begin one. -/
theorem Statement.leading : ∀ {tokens rest node}, Statement literal tokens rest node →
    ∃ first more, tokens = first :: more ∧ first.kind.isLeading = true
  | _, _, _, .declaration h => by
      obtain ⟨first, more, rfl, hfirst⟩ := h.leading
      exact ⟨first, more, rfl, by rw [hfirst]; rfl⟩
  | _, _, _, .returning h _ => ⟨_, _, rfl, by rw [h]; rfl⟩
  | _, _, _, .returningValue h _ _ => ⟨_, _, rfl, by rw [h]; rfl⟩
  | _, _, _, .expression h _ => ⟨_, _, rfl, Kind.isLeading_of_isInitial h.initial⟩
  | _, _, _, .loop h _ _ _ _ _ => ⟨_, _, rfl, by rw [h]; rfl⟩

/-- A kind that begins no statement comes next only behind the last one. -/
theorem Statements.head_ne {tokens rest : List Token} {nodes : List Node} {kind : Kind}
    (h : Statements literal tokens rest nodes) (hkind : kind.isLeading = false)
    (hrest : ∀ token ∈ rest.head?, token.kind ≠ kind) :
    ∀ token ∈ tokens.head?, token.kind ≠ kind := by
  have hne {first : Token} (hleading : first.kind.isLeading = true) : first.kind ≠ kind := by
    intro heq
    subst heq
    rw [hleading] at hkind
    cases hkind
  cases h with
  | nil => exact hrest
  | unclosed hbody =>
      intro token htoken
      cases htoken
      exact hne (Kind.isLeading_of_isInitial hbody.initial)
  | closed hnode _ =>
      obtain ⟨first, more, rfl, hleading⟩ := hnode.leading
      intro token htoken
      cases htoken
      exact hne hleading

end Beginnings

section Endings

/-- The token before the second list is no semicolon. -/
def Ends (tokens rest : List Token) : Prop :=
  ∃ read token, tokens = read ++ token :: rest ∧ token.kind ≠ .semicolon

variable {tokens middle rest : List Token} {token : Token}

/-- Tokens that were passed behind a token other than a semicolon do not end with one. -/
theorem Passes.ends {kind : Kind} (h : Passes tokens (token :: rest)) (hkind : token.kind = kind)
    (hne : kind ≠ .semicolon) : Ends tokens rest := by
  obtain ⟨read, rfl, -⟩ := h.read
  exact ⟨read, token, rfl, hkind ▸ hne⟩

/-- What was passed before does not matter for how tokens end. -/
theorem Ends.of_passes (h : Passes tokens middle) (hends : Ends middle rest) :
    Ends tokens rest := by
  obtain ⟨read, rfl, -⟩ := h.read
  obtain ⟨more, token, rfl, hne⟩ := hends
  exact ⟨read ++ more, token, by rw [List.append_assoc], hne⟩

/-- A block ends with a brace. -/
theorem Block.ends :
    ∀ {tokens rest node}, Block literal tokens rest node → Ends tokens rest
  | _, _, _, .braces hbrace hstatements hclose =>
      (Passes.token hbrace nofun hstatements.passes).ends hclose nofun

/-- A primary expression does not end with a semicolon. -/
theorem Primary.ends :
    ∀ {tokens rest node}, Primary literal tokens rest node → Ends tokens rest
  | _, _, _, .identifier h => Passes.refl.ends h nofun
  | _, _, _, .integer h _ => Passes.refl.ends h nofun
  | _, _, _, .string h => Passes.refl.ends h nofun
  | _, _, _, .yes h => Passes.refl.ends h nofun
  | _, _, _, .no h => Passes.refl.ends h nofun
  | _, _, _, .group hparen hnode hclose =>
      (Passes.token hparen nofun hnode.advances.passes).ends hclose nofun
  | _, _, _, .array hbracket helements hclose =>
      (Passes.token hbracket nofun helements.expressions_pass).ends hclose nofun
  | _, _, _, .map hbrace hpairs hclose =>
      (Passes.token hbrace nofun hpairs.pairs_pass).ends hclose nofun
  | _, _, _, .choice hword hparen htest hclose hconsequence =>
      .of_passes (.token hword nofun (.token hparen nofun
        (htest.advances.passes.next hclose nofun))) hconsequence.ends
  | _, _, _, .alternative hword hparen htest hclose hconsequence hother hno =>
      .of_passes (.token hword nofun (.token hparen nofun
        ((htest.advances.passes.next hclose nofun).trans
          (hconsequence.advances.passes.next hother nofun)))) hno.ends
  | _, _, _, .function hword hparen hparameters hclose hbody =>
      .of_passes (.token hword nofun (.token hparen nofun
        ((hparameters.passes Parameter.advances).next hclose nofun))) hbody.ends

/-- Phrases one behind the other end as the last one does. -/
theorem Ends.trans (h : Ends tokens middle) (hmiddle : Ends middle rest) : Ends tokens rest := by
  obtain ⟨read, first, rfl, -⟩ := h
  obtain ⟨more, token, rfl, hne⟩ := hmiddle
  exact ⟨read ++ first :: more, token, by rw [List.append_assoc, List.cons_append], hne⟩

/-- What is applied to an operand ends like it or by itself. -/
theorem Postfixes.ends : ∀ {target tokens rest node}, Postfixes literal target tokens rest node →
    ∀ {all}, Ends all tokens → Ends all rest
  | _, _, _, _, .nil, _, hall => hall
  | _, _, _, _, .call hparen harguments hclose hmore, _, hall =>
      hmore.ends (hall.trans ((Passes.token hparen nofun harguments.expressions_pass).ends
        hclose nofun))
  | _, _, _, _, .index hbracket hposition hclose hmore, _, hall =>
      hmore.ends (hall.trans ((Passes.token hbracket nofun hposition.advances.passes).ends
        hclose nofun))
  | _, _, _, _, .member hdot hname hmore, _, hall =>
      hmore.ends (hall.trans ((Passes.token hdot nofun .refl).ends hname nofun))

/-- An operand does not end with a semicolon. -/
theorem Operand.ends :
    ∀ {tokens rest node}, Operand literal tokens rest node → Ends tokens rest
  | _, _, _, .unary (.inl hbang) hoperand =>
      .of_passes (.token hbang nofun .refl) hoperand.ends
  | _, _, _, .unary (.inr hminus) hoperand =>
      .of_passes (.token hminus nofun .refl) hoperand.ends
  | _, _, _, .primary htarget hpostfixes => hpostfixes.ends htarget.ends

/-- Operators and their operands do not end with a semicolon, if what is before them does not. -/
theorem Links.ends : ∀ {tokens rest links}, Links literal tokens rest links →
    ∀ {all}, Ends all tokens → Ends all rest
  | _, _, _, .nil, _, hall => hall
  | _, _, _, .cons hoperator hright hlinks, _, hall =>
      hlinks.ends (hall.trans (.of_passes
        (.token rfl (Kind.ne_illegal_of_isBinary hoperator) .refl) hright.ends))

/-- An expression does not end with a semicolon. -/
theorem Expression.ends :
    ∀ {tokens rest node}, Expression literal tokens rest node → Ends tokens rest
  | _, _, _, .links hfirst hlinks => hlinks.ends hfirst.ends

/-- A declaration ends with a semicolon. -/
theorem Declaration.terminated :
    ∀ {tokens rest node}, Declaration literal tokens rest node →
      ∃ read semicolon, tokens = read ++ semicolon :: rest ∧ semicolon.kind = .semicolon
  | _, _, _, @Declaration.bare _ word name _ _ _ _ hsemicolon => ⟨[word, name], _, rfl, hsemicolon⟩
  | _, _, _, @Declaration.valued _ word name equals _ _ _ _ _ _ _ hvalue hsemicolon => by
      obtain ⟨read, rfl, -⟩ := hvalue.advances.passes.read
      exact ⟨word :: name :: equals :: read, _, rfl, hsemicolon⟩

end Endings

end Grammar

end Scriptlet
