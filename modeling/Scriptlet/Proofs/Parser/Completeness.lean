import Scriptlet.Proofs.Parser.Soundness

/-!
# What parsers do not refuse

The converse of soundness: on a phrase of the grammar a parser succeeds without an error, gives the
node of the phrase and stops where the phrase ends. `Reads` is such a run from every state before
the tokens. The bounds on nesting and on loops suffice when they are at least the number of tokens;
`nested_complete` is by induction on the bound, and every nested phrase begins behind a token.
-/

namespace Scriptlet.Parser

open Grammar

/-- The parser reads the tokens before `rest`, gives the value and reports nothing. -/
def Reads {α : Type} (parser : Parser α) (tokens : List Token) (value : α) (rest : List Token) :
    Prop :=
  ∀ last errors, ∃ finish, parser ⟨last, tokens, errors⟩ = .ok value ⟨finish, rest, errors⟩

namespace Reads

variable {α β : Type} {tokens middle rest : List Token} {token : Token} {kind : Kind}

theorem pure (value : α) : Reads (pure value) tokens value tokens :=
  fun last _ => ⟨last, rfl⟩

theorem bind {parser : Parser α} {next : α → Parser β} {first : α} {value : β}
    (h : Reads parser tokens first middle) (hnext : Reads (next first) middle value rest) :
    Reads (parser >>= next) tokens value rest := by
  intro last errors
  obtain ⟨between, hfirst⟩ := h last errors
  obtain ⟨finish, hsecond⟩ := hnext between errors
  exact ⟨finish, bind_eq_ok.2 ⟨_, _, hfirst, hsecond⟩⟩

theorem shift : Reads shift (token :: rest) (some token) rest :=
  fun _ _ => ⟨token.kind, rfl⟩

theorem peekToken : Reads peekToken tokens tokens.head? tokens :=
  fun last _ => ⟨last, rfl⟩

theorem peek : Reads peek (token :: rest) token.kind (token :: rest) :=
  fun last _ => ⟨last, rfl⟩

theorem accept (h : token.kind = kind) : Reads (accept kind) (token :: rest) true rest :=
  fun _ _ => ⟨token.kind, by simp [Parser.accept, h]⟩

/-- A token of another kind stays unread. -/
theorem reject (h : ∀ token ∈ tokens.head?, token.kind ≠ kind) :
    Reads (Parser.accept kind) tokens false tokens := by
  intro last errors
  refine ⟨last, ?_⟩
  cases tokens with
  | nil => rfl
  | cons token rest => simp [Parser.accept, h token rfl]

theorem expect (h : token.kind = kind) : Reads (expect kind) (token :: rest) token rest :=
  fun _ _ => ⟨token.kind, by simp [Parser.expect, h]⟩

theorem attempt {parser : Parser α} {value : α} (h : Reads parser tokens value rest) :
    Reads (attempt parser) tokens (some value) rest := by
  intro last errors
  obtain ⟨finish, hrun⟩ := h last errors
  exact ⟨finish, by simp [Parser.attempt, hrun]⟩

/-- A header clause that was read with its semicolon. -/
theorem headerClause {parser : Parser Node} [Forward parser] {node : Node} {semicolon : Token}
    {read : List Token} (h : Reads parser tokens node rest)
    (hne : ∀ token ∈ tokens.head?, token.kind ≠ .semicolon)
    (htokens : tokens = read ++ semicolon :: rest) (hkind : semicolon.kind = .semicolon) :
    Reads (headerClause parser) tokens (some node) rest := by
  refine (reject hne).bind fun last errors => ?_
  obtain ⟨finish, hrun⟩ := h last errors
  have hclean : Clean parser ⟨last, tokens, errors⟩ node ⟨finish, rest, errors⟩ := ⟨hrun, rfl⟩
  obtain rfl : finish = semicolon.kind := hclean.last_eq htokens
  refine ⟨semicolon.kind, bind_eq_ok.2 ⟨node, _, hrun, bind_eq_ok.2 ⟨(), _, ?_, rfl⟩⟩⟩
  simp only [expectRead, hkind, if_true]

end Reads

/-- At most `bound` tokens, whose integer literals can be read. -/
structure Fits (literal : Token → Prop) (bound : Nat) (tokens : List Token) : Prop where
  length : tokens.length ≤ bound
  readable : ∀ token ∈ tokens, token.kind = .int → literal token → Readable token

namespace Fits

variable {literal : Token → Prop} {bound : Nat} {tokens rest : List Token} {token : Token}

/-- Behind tokens that were passed, the rest still fits. -/
theorem passes (h : Fits literal bound tokens) (hpasses : Passes tokens rest) :
    Fits literal bound rest :=
  ⟨Nat.le_trans hpasses.length_le h.length,
    fun token htoken => h.readable token (hpasses.mem htoken)⟩

/-- Behind one token, the rest fits into less. -/
theorem tail (h : Fits literal (bound + 1) (token :: rest)) : Fits literal bound rest :=
  ⟨Nat.le_of_succ_le_succ h.length,
    fun token htoken => h.readable token (List.mem_cons_of_mem _ htoken)⟩

/-- Behind a phrase, the rest fits into less. -/
theorem advances (h : Fits literal (bound + 1) tokens) (hadvances : Advances tokens rest) :
    Fits literal bound rest :=
  ⟨Nat.le_of_lt_succ (Nat.lt_of_lt_of_le hadvances.length_lt h.length),
    fun token htoken => h.readable token (hadvances.passes.mem htoken)⟩

end Fits

/-- No token that binds tighter than `power` comes next, and no alternative. -/
def Settles (power : Nat) (rest : List Token) : Prop :=
  ∀ token ∈ rest.head?, token.kind.power ≤ power ∧ token.kind ≠ .wordElse

/-- The parser of nested phrases reads the expressions and blocks of at most `bound` tokens. -/
structure CompletePhrase (literal : Token → Prop) (bound : Nat) (phrase : Phrase → Parser Node) :
    Prop where
  climbs {power : Nat} {tokens rest : List Token} {node : Node} :
    power ≤ unaryPower → Fits literal bound tokens → Climbs literal power tokens rest node →
    Settles power rest → Reads (phrase (.expression power)) tokens node rest
  block {tokens rest : List Token} {node : Node} :
    Fits literal bound tokens → Block literal tokens rest node →
    Reads (phrase .block) tokens node rest

section Grouping

variable {literal : Token → Prop} {power : Nat} {tokens middle rest : List Token}

/-- What ends an expression ends its operands. -/
theorem Settles.of_ended (h : Ended rest) : Settles power rest := by
  intro token htoken
  have hcontinuing := h token htoken
  refine ⟨by simp [Kind.power_eq_zero_of_not_isContinuing hcontinuing], ?_⟩
  intro hkind
  rw [hkind] at hcontinuing
  cases hcontinuing

/-- What is settled for one power is settled for every greater one. -/
theorem Settles.mono {more : Nat} (h : Settles power rest) (hle : power ≤ more) :
    Settles more rest :=
  fun token htoken => ⟨Nat.le_trans (h token htoken).1 hle, (h token htoken).2⟩

/-- A token that continues no expression ends it. -/
theorem ended_of_kind {token : Token} {kind : Kind} (h : token.kind = kind)
    (hkind : kind.isContinuing = false) : Ended (token :: rest) := by
  intro token htoken
  cases htoken
  rw [h, hkind]

/-- Links are cut where they stop to bind tighter than a power. -/
theorem links_cut (hrest : Settles power rest) : ∀ {tokens links},
    Links literal tokens rest links →
    ∃ middle, Links literal tokens middle (links.takeWhile (binds power)) ∧
      Links literal middle rest (links.dropWhile (binds power)) ∧ Settles power middle
  | _, _, .nil => ⟨_, .nil, .nil, hrest⟩
  | _, _, @Links.cons _ operator tokens middle _ right links hoperator hright hlinks => by
      cases hbinds : binds power (operator, right) with
      | true =>
          obtain ⟨behind, htight, hloose, hbehind⟩ := links_cut hrest hlinks
          rw [List.takeWhile_cons_of_pos hbinds, List.dropWhile_cons_of_pos hbinds]
          exact ⟨behind, .cons hoperator hright htight, hloose, hbehind⟩
      | false =>
          have hloose : ¬ binds power (operator, right) = true := by
            rw [hbinds]
            exact Bool.false_ne_true
          rw [List.takeWhile_cons_of_neg hloose, List.dropWhile_cons_of_neg hloose]
          refine ⟨_, .nil, .cons hoperator hright hlinks, ?_⟩
          intro token htoken
          cases htoken
          refine ⟨Nat.le_of_not_lt (of_decide_eq_false hbinds), fun hkind => ?_⟩
          rw [hkind] at hoperator
          cases hoperator

/-- Nothing binds tighter than a unary operator where links begin. -/
theorem settles_of_links {links : List (Token × Node)} (h : Links literal tokens rest links)
    (hrest : Settles unaryPower rest) : Settles unaryPower tokens := by
  cases h with
  | nil => exact hrest
  | cons hoperator =>
      intro token htoken
      cases htoken
      refine ⟨Nat.le_of_lt (Kind.power_lt_of_isBinary hoperator).2, fun hkind => ?_⟩
      rw [hkind] at hoperator
      cases hoperator

/-- No second block stands behind an operand. -/
theorem postfixes_head_ne_else {target node : Node}
    (h : Postfixes literal target tokens rest node) (hrest : Settles power rest) :
    ∀ token ∈ tokens.head?, token.kind ≠ .wordElse := by
  cases h with
  | nil => exact fun token htoken => (hrest token htoken).2
  | call hkind | index hkind | member hkind =>
      intro token htoken
      cases htoken
      rw [hkind]
      nofun

/-- A whole expression is an operand and links that bind tighter than nothing. -/
theorem climbs_of_expression {node : Node} (h : Expression literal tokens rest node)
    (hrest : Ended rest) : Climbs literal 0 tokens rest node := by
  cases h with
  | @links _ middle _ first links hfirst hlinks =>
      refine ⟨middle, first, links, hfirst, hlinks, rfl, fun link hlink => ?_,
        fun token htoken => ?_⟩
      · simpa [binds] using (Kind.power_lt_of_isBinary (hlinks.isBinary link hlink)).1
      · exact (Settles.of_ended hrest token htoken).1

end Grouping

section Lists

variable {α : Type} {parser : Parser α} {item : List Token → List Token → α → Prop} {close : Kind}
  {literal : Token → Prop} {bound : Nat}

/-- The parser reads the items of at most `bound` tokens, and none of them begins with the closing
token. -/
structure CompleteItem (literal : Token → Prop) (bound : Nat) (close : Kind)
    (item : List Token → List Token → α → Prop) (parser : Parser α) : Prop where
  closing : close ≠ .comma ∧ close.isContinuing = false
  advances {tokens rest : List Token} {value : α} : item tokens rest value → Advances tokens rest
  opening {tokens rest : List Token} {value : α} :
    item tokens rest value → ∀ token ∈ tokens.head?, token.kind ≠ close
  reads {tokens rest : List Token} {value : α} :
    Fits literal bound tokens → item tokens rest value → Ended rest → Reads parser tokens value rest

/-- A first item and those behind it, up to the closing token. -/
theorem moreItems_complete (hitem : CompleteItem literal bound close item parser) {turns : Nat}
    {tokens rest : List Token} {token : Token} {first : α} {values : List α}
    (hfits : Fits literal bound tokens) (hturns : tokens.length ≤ turns)
    (h : Items item tokens (token :: rest) (first :: values)) (hclose : token.kind = close) :
    ∃ middle, Reads parser tokens first middle ∧
      Reads (moreItems close parser turns) middle values rest := by
  induction turns generalizing tokens first values with
  | zero =>
      cases h with
      | single hvalue => exact absurd (hitem.advances hvalue).length_lt (by omega)
      | comma hvalue => exact absurd (hitem.advances hvalue).length_lt (by omega)
  | succ turns ih =>
      cases h with
      | single hvalue =>
          refine ⟨_, hitem.reads hfits hvalue (ended_of_kind hclose hitem.closing.2), ?_⟩
          refine (Reads.reject ?_).bind ((Reads.expect hclose).bind (.pure []))
          intro token htoken
          cases htoken
          rw [hclose]
          exact hitem.closing.1
      | @comma comma _ middle _ _ next values hvalue hcomma hmore =>
          have hpassed := (hitem.advances hvalue).next hcomma (by decide)
          obtain ⟨behind, hnext, hrest⟩ := ih (hfits.passes hpassed.passes)
            (Nat.le_of_lt_succ (Nat.lt_of_lt_of_le hpassed.length_lt hturns)) hmore
          refine ⟨_, hitem.reads hfits hvalue (ended_of_kind hcomma rfl), ?_⟩
          exact (Reads.accept hcomma).bind (hnext.bind (hrest.bind (.pure (next :: values))))

/-- A list of items with its closing token. -/
theorem items_complete (hitem : CompleteItem literal bound close item parser)
    {tokens rest : List Token} {token : Token} {values : List α}
    (hfits : Fits literal bound tokens) {turns : Nat} (hturns : tokens.length ≤ turns)
    (h : Items item tokens (token :: rest) values) (hclose : token.kind = close) :
    Reads (items close parser turns) tokens values rest := by
  have hopening {value : α} {middle : List Token} (hvalue : item tokens middle value) :
      Reads (accept close) tokens false tokens :=
    .reject (hitem.opening hvalue)
  cases h with
  | nil => exact (Reads.accept hclose).bind (.pure [])
  | single hvalue =>
      obtain ⟨_, hfirst, hmore⟩ := moreItems_complete hitem hfits hturns (.single hvalue) hclose
      exact (hopening hvalue).bind (hfirst.bind (hmore.bind (.pure _)))
  | comma hvalue hcomma hmore =>
      obtain ⟨_, hfirst, hmore⟩ :=
        moreItems_complete hitem hfits hturns (.comma hvalue hcomma hmore) hclose
      exact (hopening hvalue).bind (hfirst.bind (hmore.bind (.pure _)))

end Lists

variable {literal : Token → Prop} {phrase : Phrase → Parser Node} {bound : Nat}
  {tokens middle rest : List Token} {token : Token} {node : Node}

/-- A whole expression is read up to its end. -/
theorem CompletePhrase.expression (hphrase : CompletePhrase literal bound phrase)
    (hfits : Fits literal bound tokens) (h : Expression literal tokens rest node)
    (hrest : Ended rest) : Reads (phrase (.expression 0)) tokens node rest :=
  hphrase.climbs (Nat.zero_le _) hfits (climbs_of_expression h hrest) (.of_ended hrest)

section Operands

variable {close : Kind}

/-- An expression does not begin with what closes a list. -/
theorem opening_ne (hclose : close.isInitial = false) (h : Expression literal tokens rest node) :
    ∀ token ∈ tokens.head?, token.kind ≠ close := by
  intro first hfirst hkind
  cases tokens with
  | nil => cases hfirst
  | cons token tokens =>
      cases hfirst
      rw [← hkind, h.initial] at hclose
      cases hclose

/-- Parameters are read between their commas. -/
theorem parameter_complete (bound : Nat) :
    CompleteItem literal bound .closeParen Parameter parameter where
  closing := ⟨(by decide), rfl⟩
  advances := Parameter.advances
  opening h := by
    cases h with
    | name hkind =>
        intro token htoken
        cases htoken
        rw [hkind]
        nofun
  reads _ h _ := by
    cases h with
    | name hkind =>
        refine Reads.shift.bind ?_
        simp only [hkind, if_true]
        exact .pure _

theorem expressionItem_complete (hphrase : CompletePhrase literal bound phrase)
    (hcomma : close ≠ .comma) (hclose : close.isContinuing = false)
    (hinitial : close.isInitial = false) :
    CompleteItem literal bound close (Expression literal) (phrase (.expression 0)) where
  closing := ⟨hcomma, hclose⟩
  advances := Expression.advances
  opening := opening_ne hinitial
  reads := hphrase.expression

theorem mapPair_complete (hphrase : CompletePhrase literal bound phrase) :
    CompleteItem literal bound .closeBrace (Pair literal) (mapPair phrase) where
  closing := ⟨(by decide), rfl⟩
  advances := Pair.advances
  opening h := by
    cases h with
    | colon hkey => exact opening_ne rfl hkey
  reads hfits h hrest := by
    cases h with
    | colon hkey hcolon hvalue =>
        have hbehind := hfits.passes (hkey.advances.next hcolon (by decide)).passes
        exact (hphrase.expression hfits hkey (ended_of_kind hcolon rfl)).bind
          ((Reads.expect hcolon).bind ((hphrase.expression hbehind hvalue hrest).bind (.pure _)))

/-- Digits that can be read are read as their number. -/
theorem integerLiteral_complete (h : Readable token) :
    Reads (integerLiteral token) rest (.integer (some token) (decimal token.text.toList)) rest := by
  unfold integerLiteral
  rw [if_neg (Nat.not_lt_of_ge h.1), if_neg (Nat.not_lt_of_ge h.2)]
  exact .pure _

/-- A choice without a second block. -/
theorem choice_complete (hphrase : CompletePhrase literal bound phrase) {paren close : Token}
    {test yes : Node} (hfits : Fits literal bound (paren :: tokens))
    (hparen : paren.kind = .openParen) (htest : Expression literal tokens (close :: middle) test)
    (hclose : close.kind = .closeParen) (hyes : Block literal middle rest yes)
    (hrest : ∀ token ∈ rest.head?, token.kind ≠ .wordElse) :
    Reads (choice phrase token) (paren :: tokens) (.choice (some token) test yes none) rest := by
  have htokens := hfits.passes (.token hparen (by decide) .refl)
  have hmiddle := htokens.passes (htest.advances.next hclose (by decide)).passes
  exact (Reads.expect hparen).bind
    ((hphrase.expression htokens htest (ended_of_kind hclose rfl)).bind
      ((Reads.expect hclose).bind ((hphrase.block hmiddle hyes).bind
        ((Reads.reject hrest).bind (.pure _)))))

/-- A choice with a second block. -/
theorem alternative_complete (hphrase : CompletePhrase literal bound phrase)
    {paren close other : Token} {behind : List Token} {test yes no : Node}
    (hfits : Fits literal bound (paren :: tokens)) (hparen : paren.kind = .openParen)
    (htest : Expression literal tokens (close :: middle) test)
    (hclose : close.kind = .closeParen) (hyes : Block literal middle (other :: behind) yes)
    (hother : other.kind = .wordElse) (hno : Block literal behind rest no) :
    Reads (choice phrase token) (paren :: tokens) (.choice (some token) test yes (some no))
      rest := by
  have htokens := hfits.passes (.token hparen (by decide) .refl)
  have hmiddle := htokens.passes (htest.advances.next hclose (by decide)).passes
  have hbehind := hmiddle.passes (hyes.advances.next hother (by decide)).passes
  exact (Reads.expect hparen).bind
    ((hphrase.expression htokens htest (ended_of_kind hclose rfl)).bind
      ((Reads.expect hclose).bind ((hphrase.block hmiddle hyes).bind
        ((Reads.accept hother).bind ((hphrase.block hbehind hno).bind (.pure _))))))

/-- The parameters and the body of a function. -/
theorem function_complete (hphrase : CompletePhrase literal bound phrase) {paren close : Token}
    {parameters : List Node} {body : Node} {turns : Nat} (hturns : bound ≤ turns)
    (hfits : Fits literal bound (paren :: tokens)) (hparen : paren.kind = .openParen)
    (hparameters : Items Parameter tokens (close :: middle) parameters)
    (hclose : close.kind = .closeParen) (hbody : Block literal middle rest body) :
    Reads (function phrase turns token) (paren :: tokens)
      (.function (some token) parameters body) rest := by
  have htokens := hfits.passes (.token hparen (by decide) .refl)
  have hmiddle := htokens.passes ((hparameters.passes Parameter.advances).next hclose (by decide))
  have hitems := items_complete (parameter_complete bound) htokens
    (Nat.le_trans htokens.length hturns) hparameters hclose
  exact (Reads.expect hparen).bind (hitems.bind ((hphrase.block hmiddle hbody).bind (.pure _)))

/-- The first token of a primary expression leads to the parser of its form. -/
theorem primary_complete (hphrase : CompletePhrase literal bound phrase)
    (hfits : Fits literal (bound + 1) tokens) (h : Primary literal tokens rest node)
    (hrest : ∀ token ∈ rest.head?, token.kind ≠ .wordElse) :
    Reads (operand phrase (bound + 1)) tokens node rest := by
  have hlong := Nat.le_succ bound
  cases h with
  | identifier hkind | string hkind | yes hkind | no hkind =>
      refine Reads.shift.bind ?_
      simp only [operandAt, hkind]
      exact .pure _
  | integer hkind hliteral =>
      refine Reads.shift.bind ?_
      simp only [operandAt, hkind]
      exact integerLiteral_complete (hfits.readable _ (List.mem_cons_self ..) hkind hliteral)
  | group hparen hinner hclose =>
      refine Reads.shift.bind ?_
      simp only [operandAt, hparen]
      exact (hphrase.expression hfits.tail hinner (ended_of_kind hclose rfl)).bind
        ((Reads.expect hclose).bind (.pure _))
  | array hbracket helements hclose =>
      refine Reads.shift.bind ?_
      simp only [operandAt, hbracket]
      have hitem :=
        expressionItem_complete hphrase (show Kind.closeBracket ≠ .comma by decide) rfl rfl
      exact (items_complete hitem hfits.tail (Nat.le_trans hfits.tail.length hlong) helements
        hclose).bind (.pure _)
  | map hbrace hpairs hclose =>
      refine Reads.shift.bind ?_
      simp only [operandAt, hbrace]
      exact (items_complete (mapPair_complete hphrase) hfits.tail
        (Nat.le_trans hfits.tail.length hlong) hpairs hclose).bind (.pure _)
  | choice hword hparen htest hclose hyes =>
      refine Reads.shift.bind ?_
      simp only [operandAt, hword]
      exact choice_complete hphrase hfits.tail hparen htest hclose hyes hrest
  | alternative hword hparen htest hclose hyes hother hno =>
      refine Reads.shift.bind ?_
      simp only [operandAt, hword]
      exact alternative_complete hphrase hfits.tail hparen htest hclose hyes hother hno
  | function hword hparen hparameters hclose hbody =>
      refine Reads.shift.bind ?_
      simp only [operandAt, hword]
      exact function_complete hphrase hlong hfits.tail hparen hparameters hclose hbody

/-- The application of a binary operator to the stretch behind it. -/
theorem application_binary_complete (hphrase : CompletePhrase literal bound phrase) {turns : Nat}
    {left right : Node} (hbinary : token.kind.isBinary = true) (hfits : Fits literal bound tokens)
    (h : Climbs literal token.kind.power tokens rest right)
    (hrest : Settles token.kind.power rest) :
    Reads (application phrase turns token left) tokens (applied token left right) rest := by
  have hright := hphrase.climbs (Nat.le_of_lt (Kind.power_lt_of_isBinary hbinary).2) hfits h hrest
  unfold application applied
  split
  case h_1 hkind | h_2 hkind | h_3 hkind =>
      rw [hkind] at hbinary
      cases hbinary
  case h_4 hkind =>
      rw [if_pos hkind]
      exact hright.bind (.pure _)
  case h_5 hassign =>
      rw [if_neg hassign]
      exact hright.bind (.pure _)

/-- What is applied to an operand is nothing, or a first application and what is applied to it. -/
theorem application_postfix_complete (hphrase : CompletePhrase literal bound phrase) {left : Node}
    (hfits : Fits literal bound tokens) (h : Postfixes literal left tokens rest node) :
    (rest = tokens ∧ node = left) ∨
      ∃ token behind middle extended, tokens = token :: behind ∧ token.kind.isPostfix = true ∧
        Passes behind middle ∧
        Reads (application phrase (bound + 1) token left) behind extended middle ∧
        Postfixes literal extended middle rest node := by
  cases h with
  | nil => exact .inl ⟨rfl, rfl⟩
  | call hparen harguments hclose hmore =>
      have hitem :=
        expressionItem_complete hphrase (show Kind.closeParen ≠ .comma by decide) rfl rfl
      have hbehind := hfits.passes (.token hparen (by decide) .refl)
      refine .inr ⟨_, _, _, _, rfl, by rw [hparen]; rfl,
        harguments.expressions_pass.next hclose (by decide), ?_, hmore⟩
      simp only [application, hparen]
      exact (items_complete hitem hbehind (Nat.le_succ_of_le hbehind.length) harguments
        hclose).bind (.pure _)
  | index hbracket hposition hclose hmore =>
      have hbehind := hfits.passes (.token hbracket (by decide) .refl)
      refine .inr ⟨_, _, _, _, rfl, by rw [hbracket]; rfl,
        hposition.advances.passes.next hclose (by decide), ?_, hmore⟩
      simp only [application, hbracket]
      exact (hphrase.expression hbehind hposition (ended_of_kind hclose rfl)).bind
        ((Reads.expect hclose).bind (.pure _))
  | member hdot hname hmore =>
      refine .inr ⟨_, _, _, _, rfl, by rw [hdot]; rfl, .token hname (by decide) .refl, ?_, hmore⟩
      simp only [application, hdot]
      exact (Reads.expect hname).bind (.pure _)

/-- A turn of the loop over operators. -/
theorem climb_turn {power turns : Nat} {left extended : Node} (htight : power < token.kind.power)
    (happlication : Reads (application phrase bound token left) tokens extended middle)
    (h : Reads (climb phrase bound power turns extended) middle node rest) :
    Reads (climb phrase bound power (turns + 1) left) (token :: tokens) node rest := by
  refine Reads.peekToken.bind ?_
  simp only [List.head?_cons, htight, if_true]
  exact Reads.shift.bind (happlication.bind h)

/-- The loop over operators ends before a token that does not bind tightly enough. -/
theorem climb_end {power turns : Nat} {left : Node} (h : Settles power tokens) :
    Reads (climb phrase bound power (turns + 1) left) tokens left tokens := by
  refine Reads.peekToken.bind ?_
  cases tokens with
  | nil => exact .pure _
  | cons token rest =>
      have hloose := Nat.not_lt_of_ge (h token rfl).1
      simp only [List.head?_cons, hloose, if_false]
      exact .pure _

/-- The loop over operators reads what is applied to an operand, then the links behind it. -/
theorem climb_complete (hphrase : CompletePhrase literal bound phrase) {power turns : Nat}
    {left first : Node} {links : List (Token × Node)} (hpower : power ≤ unaryPower)
    (hfits : Fits literal bound tokens) (hturns : tokens.length < turns)
    (hpostfixes : Postfixes literal left tokens middle first)
    (hlinks : Links literal middle rest links) (hbinds : ∀ link ∈ links, binds power link = true)
    (hrest : Settles power rest) :
    Reads (climb phrase (bound + 1) power turns left) tokens (grouped first links) rest := by
  induction turns generalizing left tokens middle first links with
  | zero => exact absurd hturns (Nat.not_lt_zero _)
  | succ turns ih =>
      rcases application_postfix_complete hphrase hfits hpostfixes with ⟨rfl, rfl⟩ |
        ⟨token, behind, _, extended, rfl, happlies, hpassed, happlication, hmore⟩
      · cases hlinks with
        | nil =>
            rw [grouped]
            exact climb_end hrest
        | @cons operator behind _ _ right more hoperator hright hmore =>
            have htight : power < operator.kind.power := by
              simpa [binds] using hbinds (operator, right) (List.mem_cons_self ..)
            -- the links that bind tighter than the operator belong to its right side
            obtain ⟨cut, hinner, houter, hcut⟩ :=
              links_cut (hrest.mono (Nat.le_of_lt htight)) hmore
            have hclimbs : Climbs literal operator.kind.power behind cut
                (grouped right (more.takeWhile (binds operator.kind.power))) :=
              ⟨_, right, _, hright, hinner, rfl, List.all_eq_true.1 List.all_takeWhile,
                fun token htoken => (hcut token htoken).1⟩
            have hbehind := hfits.passes (.token rfl (Kind.ne_illegal_of_isBinary hoperator) .refl)
            have hpassed := hright.advances.passes.trans hinner.passes
            have hlength := hpassed.length_le
            simp only [List.length_cons] at hturns
            rw [grouped]
            refine climb_turn htight
              (application_binary_complete hphrase hoperator hbehind hclimbs hcut) ?_
            refine ih (hbehind.passes hpassed) (by omega) .nil houter fun link hlink => ?_
            exact hbinds link (List.mem_cons_of_mem _ ((List.dropWhile_sublist _).mem hlink))
      · have htight := Nat.lt_of_le_of_lt hpower (Kind.power_gt_of_isPostfix happlies)
        have hbehind := hfits.passes (.token rfl (Kind.ne_illegal_of_isPostfix happlies) .refl)
        have hlength := hpassed.length_le
        simp only [List.length_cons] at hturns
        exact climb_turn htight happlication
          (ih (hbehind.passes hpassed) (by omega) hmore hlinks hbinds)

/-- An expression of the grammar is read up to the token that ends it. -/
theorem expression_complete (hphrase : CompletePhrase literal bound phrase) {power : Nat}
    (hpower : power ≤ unaryPower) (hfits : Fits literal (bound + 1) tokens)
    (h : Climbs literal power tokens rest node) (hrest : Settles power rest) :
    Reads (expression phrase (bound + 1) power) tokens node rest := by
  obtain ⟨middle, first, links, hfirst, hlinks, rfl, hbinds, -⟩ := h
  have hmiddle := settles_of_links hlinks (hrest.mono hpower)
  cases hfirst with
  | primary htarget hpostfixes =>
      have hbehind := hfits.advances htarget.advances
      refine (primary_complete hphrase hfits htarget
        (postfixes_head_ne_else hpostfixes hmiddle)).bind
        (climb_complete hphrase hpower hbehind (Nat.lt_succ_of_le hbehind.length) hpostfixes hlinks
          hbinds hrest)
  | unary hsign hoperand =>
      have hbehind := hfits.tail.passes hoperand.advances.passes
      have hclimbs : Climbs literal unaryPower _ middle _ :=
        ⟨_, _, [], hoperand, .nil, by rw [grouped], nofun,
          fun token htoken => (hmiddle token htoken).1⟩
      have hread := hphrase.climbs (Nat.le_refl _) hfits.tail hclimbs hmiddle
      refine (Reads.shift.bind ?_).bind (climb_complete hphrase hpower hbehind
        (Nat.lt_succ_of_le hbehind.length) .nil hlinks hbinds hrest)
      rcases hsign with hkind | hkind
      all_goals
        simp only [operandAt, hkind]
        exact hread.bind (.pure _)

end Operands

section Statements

variable {first semicolon : Token} {body : Node}

/-- The next token is of its own kind and no other. -/
theorem head_ne_of_kind {kind : Kind} (h : token.kind = kind) {other : Kind} (hne : kind ≠ other) :
    ∀ first ∈ (token :: rest).head?, first.kind ≠ other := by
  intro token htoken
  cases htoken
  rwa [h]

/-- A declaration with its first value or without one. -/
theorem declaration_complete (hphrase : CompletePhrase literal bound phrase)
    (hfits : Fits literal bound tokens) (h : Declaration literal tokens rest node) :
    Reads (declaration phrase) tokens node rest := by
  cases h with
  | bare hword hname hsemicolon =>
      exact Reads.shift.bind ((Reads.expect hname).bind ((Reads.accept hsemicolon).bind (.pure _)))
  | valued hword hname hequals hvalue hsemicolon =>
      have hbehind := hfits.passes (.token hword (by decide) (.token hname (by decide)
        (.token hequals (by decide) .refl)))
      have hne : Kind.assign ≠ .semicolon := by decide
      exact Reads.shift.bind ((Reads.expect hname).bind
        ((Reads.reject (head_ne_of_kind hequals hne)).bind ((Reads.expect hequals).bind
          ((hphrase.expression hbehind hvalue (ended_of_kind hsemicolon rfl)).bind
            ((Reads.expect hsemicolon).bind (.pure _))))))

/-- A return with a value. -/
theorem returning_complete (hphrase : CompletePhrase literal bound phrase)
    (hfits : Fits literal bound (token :: tokens)) (hword : token.kind = .wordReturn)
    (h : Expression literal tokens (semicolon :: rest) body)
    (hsemicolon : semicolon.kind = .semicolon) :
    Reads (returning phrase) (token :: tokens) (.returning (some token) (some body)) rest := by
  have hbehind := hfits.passes (.token hword (by decide) .refl)
  exact Reads.shift.bind ((Reads.reject (opening_ne rfl h)).bind
    ((hphrase.expression hbehind h (ended_of_kind hsemicolon rfl)).bind
      ((Reads.expect hsemicolon).bind (.pure _))))

/-- An expression statement with its semicolon. -/
theorem expressionStatement_complete (hphrase : CompletePhrase literal bound phrase)
    (hfits : Fits literal bound (first :: tokens))
    (h : Expression literal (first :: tokens) (semicolon :: rest) body)
    (hsemicolon : semicolon.kind = .semicolon) :
    Reads (expressionStatement phrase) (first :: tokens) (.expression (some first) body) rest :=
  Reads.peekToken.bind ((hphrase.expression hfits h (ended_of_kind hsemicolon rfl)).bind
    ((Reads.accept hsemicolon).bind (.pure _)))

/-- Without its semicolon an expression statement ends before a token that does not extend it. -/
theorem expressionStatement_unclosed_complete (hphrase : CompletePhrase literal bound phrase)
    (hfits : Fits literal bound (first :: tokens))
    (h : Expression literal (first :: tokens) rest body) (hrest : Ended rest)
    (hne : ∀ token ∈ rest.head?, token.kind ≠ .semicolon) :
    Reads (expressionStatement phrase) (first :: tokens) (.expression (some first) body) rest :=
  Reads.peekToken.bind ((hphrase.expression hfits h hrest).bind ((Reads.reject hne).bind (.pure _)))

theorem clause_declaration_complete (hphrase : CompletePhrase literal bound phrase)
    (hfits : Fits literal bound tokens) (h : Declaration literal tokens rest node) :
    Reads (clause phrase) tokens node rest := by
  have hread := declaration_complete hphrase hfits h
  obtain ⟨first, more, rfl, hfirst⟩ := h.leading
  refine Reads.peek.bind ?_
  rw [if_pos hfirst]
  exact hread

theorem clause_expression_complete {middle : List Token}
    (h : Expression literal (first :: tokens) middle body)
    (hread : Reads (expressionStatement phrase) (first :: tokens) node rest) :
    Reads (clause phrase) (first :: tokens) node rest := by
  refine Reads.peek.bind ?_
  rw [if_neg (opening_ne rfl h first rfl)]
  exact hread

theorem statement_expression_complete {middle : List Token}
    (h : Expression literal (first :: tokens) middle body)
    (hread : Reads (expressionStatement phrase) (first :: tokens) node rest) :
    Reads (statement phrase) (first :: tokens) node rest := by
  refine Reads.peek.bind ?_
  have hinitial := h.initial
  split
  case h_1 hkind | h_2 hkind | h_3 hkind =>
      rw [hkind] at hinitial
      cases hinitial
  case h_4 => exact hread

variable [∀ phrased, Forward (phrase phrased)]

/-- The first clause of a loop, if it is there. -/
theorem firstClause_complete (hphrase : CompletePhrase literal bound phrase) {clause : Option Node}
    (hfits : Fits literal bound tokens) (h : FirstClause literal tokens rest clause) :
    Reads (headerClause (Parser.clause phrase)) tokens clause rest := by
  cases h with
  | none hsemicolon => exact (Reads.accept hsemicolon).bind (.pure _)
  | declaration hnode =>
      obtain ⟨read, semicolon, htokens, hsemicolon⟩ := hnode.terminated
      obtain ⟨first, more, rfl, hfirst⟩ := hnode.leading
      exact (clause_declaration_complete hphrase hfits hnode).headerClause
        (head_ne_of_kind hfirst (by decide)) htokens hsemicolon
  | expression hbody hsemicolon =>
      obtain ⟨read, htokens, -⟩ := hbody.advances.passes.read
      exact (clause_expression_complete hbody
        (expressionStatement_complete hphrase hfits hbody hsemicolon)).headerClause
        (opening_ne rfl hbody) htokens hsemicolon

theorem testClause_complete (hphrase : CompletePhrase literal bound phrase) {clause : Option Node}
    (hfits : Fits literal bound tokens) (h : TestClause literal tokens rest clause) :
    Reads (headerClause (expressionStatement phrase)) tokens clause rest := by
  cases h with
  | none hsemicolon => exact (Reads.accept hsemicolon).bind (.pure _)
  | expression hbody hsemicolon =>
      obtain ⟨read, htokens, -⟩ := hbody.advances.passes.read
      exact (expressionStatement_complete hphrase hfits hbody hsemicolon).headerClause
        (opening_ne rfl hbody) htokens hsemicolon

omit [∀ phrased, Forward (phrase phrased)] in
theorem stepClause_complete (hphrase : CompletePhrase literal bound phrase) {clause : Option Node}
    (hfits : Fits literal bound tokens) (h : StepClause literal tokens rest clause) :
    Reads (lastClause phrase) tokens clause rest := by
  cases h with
  | none hclose => exact (Reads.accept hclose).bind (.pure _)
  | declaration hnode hclose =>
      have hread := clause_declaration_complete hphrase hfits hnode
      obtain ⟨first, more, rfl, hfirst⟩ := hnode.leading
      have hne : Kind.wordLet ≠ .closeParen := by decide
      exact (Reads.reject (head_ne_of_kind hfirst hne)).bind
        (hread.bind ((Reads.expect hclose).bind (.pure _)))
  | expression hbody hclose =>
      have hread := expressionStatement_unclosed_complete hphrase hfits hbody
        (ended_of_kind hclose rfl) (head_ne_of_kind hclose (by decide))
      exact (Reads.reject (opening_ne rfl hbody)).bind
        ((clause_expression_complete hbody hread).bind ((Reads.expect hclose).bind (.pure _)))
  | terminated hbody hsemicolon hclose =>
      have hread := expressionStatement_complete hphrase hfits hbody hsemicolon
      exact (Reads.reject (opening_ne rfl hbody)).bind
        ((clause_expression_complete hbody hread).bind ((Reads.expect hclose).bind (.pure _)))

/-- A statement that shows its own end is read up to it. -/
theorem statement_complete (hphrase : CompletePhrase literal bound phrase)
    (hfits : Fits literal bound tokens) (h : Statement literal tokens rest node) :
    Reads (statement phrase) tokens node rest := by
  cases h with
  | declaration hnode =>
      have hread := declaration_complete hphrase hfits hnode
      obtain ⟨first, more, rfl, hfirst⟩ := hnode.leading
      refine Reads.peek.bind ?_
      simp only [hfirst]
      exact hread
  | returning hword hsemicolon =>
      refine Reads.peek.bind ?_
      simp only [hword]
      exact Reads.shift.bind ((Reads.accept hsemicolon).bind (.pure _))
  | returningValue hword hvalue hsemicolon =>
      refine Reads.peek.bind ?_
      simp only [hword]
      exact returning_complete hphrase hfits hword hvalue hsemicolon
  | expression hbody hsemicolon =>
      exact statement_expression_complete hbody
        (expressionStatement_complete hphrase hfits hbody hsemicolon)
  | loop hword hparen hfirst htest hstep hbody =>
      refine Reads.peek.bind ?_
      simp only [hword]
      have hinside := hfits.passes (.token hword (by decide) (.token hparen (by decide) .refl))
      have hsecond := hinside.passes hfirst.advances.passes
      have hthird := hsecond.passes htest.advances.passes
      have hbehind := hthird.passes hstep.advances.passes
      exact Reads.shift.bind ((Reads.expect hparen).bind
        ((firstClause_complete hphrase hinside hfirst).bind
          ((testClause_complete hphrase hsecond htest).bind
            ((stepClause_complete hphrase hthird hstep).bind
              ((hphrase.block hbehind hbody).bind (.pure _))))))

/-- The first statement of a list is read up to the statements behind it. -/
theorem statements_complete (hphrase : CompletePhrase literal bound phrase) {nodes : List Node}
    (hfits : Fits literal bound tokens) (h : Statements literal tokens rest nodes)
    (hrest : ∀ token ∈ rest.head?, token.kind ≠ .semicolon) :
    (tokens = rest ∧ nodes = []) ∨
      ∃ first behind middle node more, tokens = first :: behind ∧
        first.kind.isLeading = true ∧ nodes = node :: more ∧ Passes behind middle ∧
        Statements literal middle rest more ∧ Reads (statement phrase) tokens node middle := by
  cases h with
  | nil => exact .inl ⟨rfl, rfl⟩
  | closed hnode hnodes =>
      have hread := statement_complete hphrase hfits hnode
      have hadvances := hnode.advances
      obtain ⟨first, behind, rfl, hfirst⟩ := hnode.leading
      cases hadvances with
      | token _ _ hpassed =>
          exact .inr ⟨first, behind, _, _, _, rfl, hfirst, rfl, hpassed, hnodes, hread⟩
  | unclosed hbody hended hnodes =>
      have hread := expressionStatement_unclosed_complete hphrase hfits hbody hended
        (hnodes.head_ne rfl hrest)
      cases hbody.advances with
      | token _ _ hpassed =>
          exact .inr ⟨_, _, _, _, _, rfl, Kind.isLeading_of_isInitial hbody.initial, rfl, hpassed,
            hnodes, statement_expression_complete hbody hread⟩

/-- The statements of a block are read up to its brace. -/
theorem blockStatements_complete (hphrase : CompletePhrase literal bound phrase) {turns : Nat}
    {nodes : List Node} {close : Token} (hfits : Fits literal bound tokens)
    (hturns : tokens.length ≤ turns) (h : Statements literal tokens (close :: rest) nodes)
    (hclose : close.kind = .closeBrace) :
    Reads (blockStatements phrase turns) tokens nodes rest := by
  induction turns generalizing tokens nodes with
  | zero =>
      have hlength := h.passes.length_le
      simp only [List.length_cons] at hlength
      omega
  | succ turns ih =>
      rcases statements_complete hphrase hfits h (head_ne_of_kind hclose (by decide)) with
        ⟨rfl, rfl⟩ |
        ⟨first, behind, middle, node, more, rfl, hfirst, rfl, hpassed, hnodes, hread⟩
      · refine Reads.peek.bind ?_
        simp only [hclose]
        exact Reads.shift.bind (.pure _)
      · have hlength := hpassed.length_le
        simp only [List.length_cons] at hturns
        have hmore := ih (hfits.passes (.token rfl (Kind.ne_illegal_of_isLeading hfirst) hpassed))
          (by omega) hnodes
        refine Reads.peek.bind ?_
        split
        case h_1 hkind | h_2 hkind =>
            rw [hkind] at hfirst
            cases hfirst
        case h_3 => exact hread.attempt.bind (hmore.bind (.pure (node :: more)))

theorem block_complete (hphrase : CompletePhrase literal bound phrase)
    (hfits : Fits literal (bound + 1) tokens) (h : Block literal tokens rest node) :
    Reads (block phrase (bound + 1)) tokens node rest := by
  cases h with
  | braces hbrace hnodes hclose =>
      exact (Reads.expect hbrace).bind ((blockStatements_complete hphrase hfits.tail
        (Nat.le_succ_of_le hfits.tail.length) hnodes hclose).bind (.pure _))

/-- The statements up to the end of the text. -/
theorem programStatements_complete (hphrase : CompletePhrase literal bound phrase) {turns : Nat}
    {nodes : List Node} (hfits : Fits literal bound tokens) (hturns : tokens.length < turns)
    (h : Statements literal tokens [] nodes) :
    Reads (programStatements phrase turns) tokens nodes [] := by
  induction turns generalizing tokens nodes with
  | zero => exact absurd hturns (Nat.not_lt_zero _)
  | succ turns ih =>
      rcases statements_complete hphrase hfits h nofun with ⟨rfl, rfl⟩ |
        ⟨first, behind, middle, node, more, rfl, hfirst, rfl, hpassed, hnodes, hread⟩
      · exact fun last errors => ⟨last, rfl⟩
      · have hlength := hpassed.length_le
        simp only [List.length_cons] at hturns
        have hmore := ih (hfits.passes (.token rfl (Kind.ne_illegal_of_isLeading hfirst) hpassed))
          (by omega) hnodes
        refine Reads.peek.bind ?_
        split
        case h_1 hkind =>
            rw [hkind] at hfirst
            cases hfirst
        case h_2 => exact hread.attempt.bind (hmore.bind (.pure (node :: more)))

end Statements

/-- Phrases of the grammar are read when the bound is at least the number of tokens. -/
theorem nested_complete (bound : Nat) : CompletePhrase literal bound (nested bound) := by
  induction bound with
  | zero =>
      refine ⟨fun _ hfits h _ => ?_, fun hfits h => ?_⟩
      · have hlength := h.expression.advances.length_lt
        exact absurd hfits.length (by omega)
      · have hlength := h.advances.length_lt
        exact absurd hfits.length (by omega)
  | succ bound ih => exact ⟨expression_complete ih, block_complete ih⟩

end Scriptlet.Parser
