import Scriptlet.Proofs.Grammar.Tokens
import Scriptlet.Proofs.Parser.Runs

/-!
# What parsers accept

A run without an error has read a phrase of the grammar and gives its node. The parser of an
expression stops before the first operator that does not bind tighter than its power, so what it
read is an operand and a stretch of links; `SoundPhrase` says this of the parser of nested phrases,
and `nested_sound` ties the knot.
-/

namespace Scriptlet.Parser

open Grammar

/-- The number of a token that is read as an integer literal. -/
def Readable (token : Token) : Prop :=
  token.text.toList.length ≤ maxDigits ∧ decimal token.text.toList ≤ maxLiteral

/-- No token that binds tighter than `power` comes next. -/
def Stops (power : Nat) (rest : List Token) : Prop :=
  ∀ token ∈ rest.head?, token.kind.power ≤ power

/-- An operand and links behind it that bind tighter than `power`, up to a token that does not. -/
def Climbs (literal : Token → Prop) (power : Nat) (tokens rest : List Token) (node : Node) : Prop :=
  ∃ middle first links, Operand literal tokens middle first ∧ Links literal middle rest links ∧
    node = grouped first links ∧ (∀ link ∈ links, binds power link = true) ∧ Stops power rest

/-- The parser of nested phrases reads expressions and blocks of the grammar. -/
structure SoundPhrase (literal : Token → Prop) (phrase : Phrase → Parser Node) : Prop where
  climbs {power : Nat} {start finish : State} {node : Node} :
    Clean (phrase (.expression power)) start node finish →
    Climbs literal power start.rest finish.rest node
  block {start finish : State} {node : Node} :
    Clean (phrase .block) start node finish → Block literal start.rest finish.rest node

section Grouping

variable {literal : Token → Prop} {power : Nat} {tokens rest : List Token}
  {links more : List (Token × Node)}

/-- Links behind a token that ends a stretch are no part of it. -/
theorem takeWhile_links (h : Links literal tokens rest links) (hstops : Stops power tokens) :
    links.takeWhile (binds power) = [] ∧ links.dropWhile (binds power) = links := by
  cases h with
  | nil => exact ⟨rfl, rfl⟩
  | @cons operator _ _ _ right =>
      have hloose : ¬ binds power (operator, right) = true := by
        simpa [binds] using hstops operator rfl
      exact ⟨List.takeWhile_cons_of_neg hloose, List.dropWhile_cons_of_neg hloose⟩

/-- The right side of an operator is the stretch of links that bind tighter. -/
theorem grouped_cons_append {operator : Token} {first right : Node}
    (htight : ∀ link ∈ links, binds operator.kind.power link = true)
    (hmore : Links literal tokens rest more) (hstops : Stops operator.kind.power tokens) :
    grouped first ((operator, right) :: (links ++ more)) =
      grouped (applied operator first (grouped right links)) more := by
  obtain ⟨htake, hdrop⟩ := takeWhile_links hmore hstops
  rw [grouped, List.takeWhile_append_of_pos htight, List.dropWhile_append_of_pos htight, htake,
    hdrop, List.append_nil]

/-- Operators and operands behind others go on from them. -/
theorem links_append {middle : List Token} : ∀ {tokens links},
    Links literal tokens middle links → Links literal middle rest more →
    Links literal tokens rest (links ++ more)
  | _, _, .nil, hmore => hmore
  | _, _, .cons hoperator hright hlinks, hmore => .cons hoperator hright (links_append hlinks hmore)

/-- Nothing is applied to an operand when no token for it comes next. -/
theorem postfixes_eq_of_stops {target node : Node}
    (h : Postfixes literal target tokens rest node) (hstops : Stops unaryPower tokens) :
    rest = tokens ∧ node = target := by
  have hnone {token : Token} {rest : List Token} (hkind : token.kind.isPostfix = true)
      (hstops : Stops unaryPower (token :: rest)) : False :=
    Nat.not_le_of_gt (Kind.power_gt_of_isPostfix hkind) (hstops _ rfl)
  cases h with
  | nil => exact ⟨rfl, rfl⟩
  | call hparen => exact (hnone (by rw [hparen]; rfl) hstops).elim
  | index hbracket => exact (hnone (by rw [hbracket]; rfl) hstops).elim
  | member hdot => exact (hnone (by rw [hdot]; rfl) hstops).elim

theorem Climbs.expression {node : Node} (h : Climbs literal power tokens rest node) :
    Expression literal tokens rest node := by
  obtain ⟨middle, first, links, hfirst, hlinks, rfl, -, -⟩ := h
  exact .links hfirst hlinks

/-- Behind what was climbed over, no stronger operator stands. -/
theorem Climbs.stops {node : Node} (h : Climbs literal power tokens rest node) :
    Stops power rest := by
  obtain ⟨-, -, -, -, -, -, -, hstops⟩ := h
  exact hstops

/-- No link binds tighter than a unary operator. -/
theorem Climbs.operand {node : Node} (h : Climbs literal unaryPower tokens rest node) :
    Operand literal tokens rest node := by
  obtain ⟨middle, first, links, hfirst, hlinks, rfl, htight, -⟩ := h
  cases hlinks with
  | nil =>
      rw [grouped]
      exact hfirst
  | cons hoperator =>
      have hpower := htight _ (List.mem_cons_self ..)
      have hloose := (Kind.power_lt_of_isBinary hoperator).2
      simp only [binds, decide_eq_true_eq] at hpower
      omega

end Grouping

section Lists

variable {α : Type} {parser : Parser α} [Forward parser]
  {item : List Token → List Token → α → Prop} {close : Kind} {start finish : State}
  {values : List α}

/-- The items behind a first one, up to the closing token. -/
theorem moreItems_sound {tokens : List Token} {first : α} {bound : Nat}
    (hitem : ∀ {start value finish}, Clean parser start value finish →
      item start.rest finish.rest value)
    (hfirst : item tokens start.rest first)
    (h : Clean (moreItems close parser bound) start values finish) :
    ∃ token, token.kind = close ∧ Items item tokens (token :: finish.rest) (first :: values) := by
  induction bound generalizing tokens first start values with
  | zero => exact (not_clean_throw h).elim
  | succ bound ih =>
      simp only [moreItems, clean_bind_iff] at h
      obtain ⟨found, middle, haccept, h⟩ := h
      cases found with
      | true =>
          obtain ⟨comma, hcomma, hrest⟩ := haccept.accept_true
          simp only [if_true, clean_bind_iff, clean_pure_iff] at h
          obtain ⟨value, _, hvalue, more, _, hmore, rfl, rfl⟩ := h
          obtain ⟨token, htoken, hitems⟩ := ih (hitem hvalue) hmore
          rw [hrest] at hfirst
          exact ⟨token, htoken, .comma hfirst hcomma hitems⟩
      | false =>
          obtain rfl := haccept.accept_false
          simp only [Bool.false_eq_true, if_false, clean_bind_iff, clean_pure_iff] at h
          obtain ⟨token, _, hclose, rfl, rfl⟩ := h
          obtain ⟨htoken, hrest⟩ := hclose.expect
          rw [hrest] at hfirst
          exact ⟨token, htoken, .single hfirst⟩

/-- A list of items and its closing token. -/
theorem items_sound {bound : Nat}
    (hitem : ∀ {start value finish}, Clean parser start value finish →
      item start.rest finish.rest value)
    (h : Clean (items close parser bound) start values finish) :
    ∃ token, token.kind = close ∧ Items item start.rest (token :: finish.rest) values := by
  simp only [items, clean_bind_iff] at h
  obtain ⟨found, middle, haccept, h⟩ := h
  cases found with
  | true =>
      obtain ⟨token, htoken, hrest⟩ := haccept.accept_true
      simp only [if_true, clean_pure_iff] at h
      obtain ⟨rfl, rfl⟩ := h
      rw [hrest]
      exact ⟨token, htoken, .nil⟩
  | false =>
      obtain rfl := haccept.accept_false
      simp only [Bool.false_eq_true, if_false, clean_bind_iff, clean_pure_iff] at h
      obtain ⟨value, _, hvalue, more, _, hmore, rfl, rfl⟩ := h
      exact moreItems_sound hitem (hitem hvalue) hmore

end Lists

/-- A parameter that is read without an error is one. -/
theorem parameter_sound {start finish : State} {node : Node}
    (h : Clean parameter start node finish) : Parameter start.rest finish.rest node := by
  unfold parameter at h
  obtain ⟨last, _ | ⟨token, rest⟩, errors⟩ := start
  · rw [clean_shift_bind_nil_iff] at h
    exact (not_clean_fail h).elim
  · rw [clean_shift_bind_iff] at h
    dsimp only at h
    split at h
    · next hkind =>
        obtain ⟨rfl, rfl⟩ := clean_pure_iff.1 h
        exact .name hkind
    · exact (not_clean_fail h).elim

variable {literal : Token → Prop} {phrase : Phrase → Parser Node} {start finish : State}
  {node : Node}

/-- An expression that is read without an error is one. -/
theorem SoundPhrase.expression (hphrase : SoundPhrase literal phrase)
    (h : Clean (phrase (.expression 0)) start node finish) :
    Expression literal start.rest finish.rest node :=
  (hphrase.climbs h).expression

variable [∀ phrased, Forward (phrase phrased)]

section Operands

variable {bound : Nat} {token : Token}

/-- A pair that is read without an error is one. -/
theorem mapPair_sound (hphrase : SoundPhrase literal phrase) {pair : Node × Node}
    (h : Clean (mapPair phrase) start pair finish) : Pair literal start.rest finish.rest pair := by
  simp only [mapPair, clean_bind_iff, clean_pure_iff] at h
  obtain ⟨key, _, hkey, colon, _, hcolon, value, _, hvalue, rfl, rfl⟩ := h
  obtain ⟨hkind, hrest⟩ := hcolon.expect
  have hkey := hphrase.expression hkey
  rw [hrest] at hkey
  exact .colon hkey hkind (hphrase.expression hvalue)

/-- A literal that is read without an error can be read. -/
theorem integerLiteral_sound (hliteral : ∀ token, Readable token → literal token)
    (hkind : token.kind = .int) (h : Clean (integerLiteral token) start node finish) :
    Primary literal (token :: start.rest) finish.rest node := by
  simp only [integerLiteral] at h
  split at h
  · exact (not_clean_throw h).elim
  · next hdigits =>
      split at h
      · exact (not_clean_fail h).elim
      · next hvalue =>
          obtain ⟨rfl, rfl⟩ := clean_pure_iff.1 h
          exact .integer hkind (hliteral token ⟨Nat.le_of_not_gt hdigits, Nat.le_of_not_gt hvalue⟩)

theorem choice_sound (hphrase : SoundPhrase literal phrase) (hkind : token.kind = .wordIf)
    (h : Clean (choice phrase token) start node finish) :
    Primary literal (token :: start.rest) finish.rest node := by
  simp only [choice, clean_bind_iff] at h
  obtain ⟨paren, _, hparen, test, _, htest, close, _, hclose, yes, _, hyes, found, _, hfound, h⟩ :=
    h
  obtain ⟨hparenKind, hparenRest⟩ := hparen.expect
  obtain ⟨hcloseKind, hcloseRest⟩ := hclose.expect
  have htest := hphrase.expression htest
  rw [hcloseRest] at htest
  have hyes := hphrase.block hyes
  rw [hparenRest]
  cases found with
  | true =>
      obtain ⟨other, hother, hotherRest⟩ := hfound.accept_true
      simp only [if_true, clean_bind_iff, clean_pure_iff] at h
      obtain ⟨no, _, hno, rfl, rfl⟩ := h
      rw [hotherRest] at hyes
      exact .alternative hkind hparenKind htest hcloseKind hyes hother (hphrase.block hno)
  | false =>
      obtain rfl := hfound.accept_false
      simp only [Bool.false_eq_true, if_false, clean_pure_iff] at h
      obtain ⟨rfl, rfl⟩ := h
      exact .choice hkind hparenKind htest hcloseKind hyes

/-- A function, from its parameters and its body. -/
theorem function_sound (hphrase : SoundPhrase literal phrase) (hkind : token.kind = .wordFn)
    (h : Clean (function phrase bound token) start node finish) :
    Primary literal (token :: start.rest) finish.rest node := by
  simp only [function, clean_bind_iff, clean_pure_iff] at h
  obtain ⟨paren, _, hparen, parameters, _, hparameters, body, _, hbody, rfl, rfl⟩ := h
  obtain ⟨hparenKind, hparenRest⟩ := hparen.expect
  obtain ⟨close, hclose, hparameters⟩ := items_sound parameter_sound hparameters
  rw [hparenRest]
  exact .function hkind hparenKind hparameters hclose (hphrase.block hbody)

/-- The operand at a token is primary, or it is a unary operator before a complete operand. -/
theorem operandAt_sound (hliteral : ∀ token, Readable token → literal token)
    (hphrase : SoundPhrase literal phrase)
    (h : Clean (operandAt phrase bound token) start node finish) :
    Primary literal (token :: start.rest) finish.rest node ∨
      Operand literal (token :: start.rest) finish.rest node ∧ Stops unaryPower finish.rest := by
  unfold operandAt at h
  split at h
  case h_1 hkind =>
      obtain ⟨rfl, rfl⟩ := clean_pure_iff.1 h
      exact .inl (.identifier hkind)
  case h_2 hkind => exact .inl (integerLiteral_sound hliteral hkind h)
  case h_3 hkind =>
      obtain ⟨rfl, rfl⟩ := clean_pure_iff.1 h
      exact .inl (.string hkind)
  case h_4 hkind =>
      obtain ⟨rfl, rfl⟩ := clean_pure_iff.1 h
      exact .inl (.yes hkind)
  case h_5 hkind =>
      obtain ⟨rfl, rfl⟩ := clean_pure_iff.1 h
      exact .inl (.no hkind)
  case h_6 hkind | h_7 hkind =>
      simp only [clean_bind_iff, clean_pure_iff] at h
      obtain ⟨operand, _, hoperand, rfl, rfl⟩ := h
      have hclimbs := hphrase.climbs hoperand
      exact .inr ⟨.unary (by simp [hkind]) hclimbs.operand, hclimbs.stops⟩
  case h_8 hkind =>
      simp only [clean_bind_iff, clean_pure_iff] at h
      obtain ⟨inner, _, hinner, close, _, hclose, rfl, rfl⟩ := h
      obtain ⟨hcloseKind, hrest⟩ := hclose.expect
      have hinner := hphrase.expression hinner
      rw [hrest] at hinner
      exact .inl (.group hkind hinner hcloseKind)
  case h_9 hkind =>
      simp only [clean_bind_iff, clean_pure_iff] at h
      obtain ⟨elements, _, helements, rfl, rfl⟩ := h
      obtain ⟨close, hclose, helements⟩ := items_sound hphrase.expression helements
      exact .inl (.array hkind helements hclose)
  case h_10 hkind =>
      simp only [clean_bind_iff, clean_pure_iff] at h
      obtain ⟨pairs, _, hpairs, rfl, rfl⟩ := h
      obtain ⟨close, hclose, hpairs⟩ := items_sound (mapPair_sound hphrase) hpairs
      exact .inl (.map hkind hpairs hclose)
  case h_11 hkind => exact .inl (choice_sound hphrase hkind h)
  case h_12 hkind => exact .inl (function_sound hphrase hkind h)
  case h_13 => exact (not_clean_fail h).elim

/-- An operand that is read without an error is a primary expression or begins with a sign. -/
theorem operand_sound (hliteral : ∀ token, Readable token → literal token)
    (hphrase : SoundPhrase literal phrase) (h : Clean (operand phrase bound) start node finish) :
    Primary literal start.rest finish.rest node ∨
      Operand literal start.rest finish.rest node ∧ Stops unaryPower finish.rest := by
  unfold operand at h
  obtain ⟨last, _ | ⟨token, rest⟩, errors⟩ := start
  · rw [clean_shift_bind_nil_iff] at h
    exact (not_clean_fail h).elim
  · rw [clean_shift_bind_iff] at h
    exact operandAt_sound hliteral hphrase h

/-- A call, an index or a member is applied to what stands before it. -/
theorem application_postfix_sound (hphrase : SoundPhrase literal phrase) {left : Node}
    (happlies : token.kind.isPostfix = true)
    (h : Clean (application phrase bound token left) start node finish) {rest : List Token}
    {result : Node} (hmore : Postfixes literal node finish.rest rest result) :
    Postfixes literal left (token :: start.rest) rest result := by
  unfold application at h
  split at h
  case h_1 hkind =>
      simp only [clean_bind_iff, clean_pure_iff] at h
      obtain ⟨arguments, _, harguments, rfl, rfl⟩ := h
      obtain ⟨close, hclose, harguments⟩ := items_sound hphrase.expression harguments
      exact .call hkind harguments hclose hmore
  case h_2 hkind =>
      simp only [clean_bind_iff, clean_pure_iff] at h
      obtain ⟨position, _, hposition, close, _, hclose, rfl, rfl⟩ := h
      obtain ⟨hcloseKind, hrest⟩ := hclose.expect
      have hposition := hphrase.expression hposition
      rw [hrest] at hposition
      exact .index hkind hposition hcloseKind hmore
  case h_3 hkind =>
      simp only [clean_bind_iff, clean_pure_iff] at h
      obtain ⟨name, _, hname, rfl, rfl⟩ := h
      obtain ⟨hnameKind, hrest⟩ := hname.expect
      rw [hrest]
      exact .member hkind hnameKind hmore
  case h_4 hkind =>
      rw [hkind] at happlies
      cases happlies
  case h_5 hcall hindex hmember _ =>
      revert happlies
      cases hkind : token.kind <;> simp_all [Kind.isPostfix]

/-- The right side of a binary operator is a stretch of operands that bind tighter. -/
theorem application_binary_sound (hphrase : SoundPhrase literal phrase) {left : Node}
    (hbinary : token.kind.isBinary = true)
    (h : Clean (application phrase bound token left) start node finish) :
    ∃ right, node = applied token left right ∧
      Climbs literal token.kind.power start.rest finish.rest right := by
  unfold application at h
  split at h
  case h_1 hkind | h_2 hkind | h_3 hkind =>
      rw [hkind] at hbinary
      cases hbinary
  case h_4 hkind =>
      simp only [clean_bind_iff, clean_pure_iff] at h
      obtain ⟨value, _, hvalue, rfl, rfl⟩ := h
      exact ⟨value, (if_pos hkind).symm, hphrase.climbs hvalue⟩
  case h_5 hassign =>
      simp only [clean_bind_iff, clean_pure_iff] at h
      obtain ⟨right, _, hright, rfl, rfl⟩ := h
      exact ⟨right, (if_neg hassign).symm, hphrase.climbs hright⟩

/-- The loop over operators applies what stands directly behind an operand, then takes links. -/
theorem climb_sound (hphrase : SoundPhrase literal phrase) {power turns : Nat} {left : Node}
    (h : Clean (climb phrase bound power turns left) start node finish) :
    ∃ middle first links, Postfixes literal left start.rest middle first ∧
      Links literal middle finish.rest links ∧ node = grouped first links ∧
      (∀ link ∈ links, binds power link = true) ∧ Stops power finish.rest := by
  induction turns generalizing left start with
  | zero => exact (not_clean_throw h).elim
  | succ turns ih =>
      rw [climb, clean_peekToken_bind_iff] at h
      obtain ⟨last, _ | ⟨token, rest⟩, errors⟩ := start
      · obtain ⟨rfl, rfl⟩ := clean_pure_iff.1 h
        refine ⟨[], _, [], .nil, .nil, by rw [grouped], List.forall_mem_nil _, ?_⟩
        intro token htoken
        cases htoken
      · dsimp only [List.head?_cons] at h
        split at h
        · next htight =>
            rw [clean_shift_bind_iff, clean_bind_iff] at h
            obtain ⟨extended, middle, happlication, h⟩ := h
            obtain ⟨_, first, links, hpostfixes, hlinks, rfl, hbinds, hstops⟩ := ih h
            rcases Kind.isBinary_or_isPostfix (Nat.zero_lt_of_lt htight) with hbinary | happlies
            -- The links that the right side took come before those that the loop takes later.
            · obtain ⟨right, rfl, _, operand, inner, hoperand, hinner, rfl, hinnerBinds,
                hinnerStops⟩ := application_binary_sound hphrase hbinary happlication
              have hloose := Nat.le_of_lt (Kind.power_lt_of_isBinary hbinary).2
              obtain ⟨rfl, rfl⟩ := postfixes_eq_of_stops hpostfixes
                fun next hnext => Nat.le_trans (hinnerStops next hnext) hloose
              refine ⟨_, left, (token, operand) :: (inner ++ links), .nil,
                .cons hbinary hoperand (links_append hinner hlinks),
                (grouped_cons_append hinnerBinds hlinks hinnerStops).symm, ?_, hstops⟩
              simp only [List.forall_mem_cons, List.forall_mem_append]
              refine ⟨by simpa [binds] using htight, fun link hlink => ?_, hbinds⟩
              have hlink := hinnerBinds link hlink
              simp only [binds, decide_eq_true_eq] at hlink ⊢
              omega
            · exact ⟨_, first, links,
                application_postfix_sound hphrase happlies happlication hpostfixes, hlinks, rfl,
                hbinds, hstops⟩
        · next hloose =>
            obtain ⟨rfl, rfl⟩ := clean_pure_iff.1 h
            refine ⟨_, _, [], .nil, .nil, by rw [grouped], List.forall_mem_nil _, ?_⟩
            intro token htoken
            cases htoken
            exact Nat.le_of_not_gt hloose

/-- An expression that is read without an error, by what it climbs over. -/
theorem expression_sound (hliteral : ∀ token, Readable token → literal token)
    (hphrase : SoundPhrase literal phrase) {power : Nat}
    (h : Clean (expression phrase bound power) start node finish) :
    Climbs literal power start.rest finish.rest node := by
  simp only [expression, clean_bind_iff] at h
  obtain ⟨left, middle, hleft, h⟩ := h
  obtain ⟨_, first, links, hpostfixes, hlinks, rfl, hbinds, hstops⟩ := climb_sound hphrase h
  rcases operand_sound hliteral hphrase hleft with hprimary | ⟨hoperand, hcomplete⟩
  · exact ⟨_, first, links, .primary hprimary hpostfixes, hlinks, rfl, hbinds, hstops⟩
  · obtain ⟨rfl, rfl⟩ := postfixes_eq_of_stops hpostfixes hcomplete
    exact ⟨_, _, links, hoperand, hlinks, rfl, hbinds, hstops⟩

end Operands

section Statements

/-- A declaration, with its first value or without one. -/
theorem declaration_sound (hphrase : SoundPhrase literal phrase) (hnext : start.next = .wordLet)
    (h : Clean (declaration phrase) start node finish) :
    Declaration literal start.rest finish.rest node := by
  unfold declaration at h
  obtain ⟨last, _ | ⟨word, rest⟩, errors⟩ := start
  · cases hnext
  · rw [clean_shift_bind_iff] at h
    simp only [clean_bind_iff] at h
    obtain ⟨name, _, hname, found, _, hfound, h⟩ := h
    obtain ⟨hnameKind, rfl⟩ := hname.expect
    cases found with
    | true =>
        obtain ⟨semicolon, hsemicolon, hrest⟩ := hfound.accept_true
        simp only [if_true, clean_pure_iff] at h
        obtain ⟨rfl, rfl⟩ := h
        rw [hrest]
        exact .bare hnext hnameKind hsemicolon
    | false =>
        obtain rfl := hfound.accept_false
        simp only [Bool.false_eq_true, if_false, clean_bind_iff, clean_pure_iff] at h
        obtain ⟨equals, _, hequals, value, _, hvalue, semicolon, _, hsemicolon, rfl, rfl⟩ := h
        obtain ⟨hequalsKind, hequalsRest⟩ := hequals.expect
        obtain ⟨hsemicolonKind, hsemicolonRest⟩ := hsemicolon.expect
        have hvalue := hphrase.expression hvalue
        rw [hsemicolonRest] at hvalue
        rw [hequalsRest]
        exact .valued hnext hnameKind hequalsKind hvalue hsemicolonKind

/-- A return, with its value or without one. -/
theorem returning_sound (hphrase : SoundPhrase literal phrase) (hnext : start.next = .wordReturn)
    (h : Clean (returning phrase) start node finish) :
    Statement literal start.rest finish.rest node := by
  unfold returning at h
  obtain ⟨last, _ | ⟨word, rest⟩, errors⟩ := start
  · cases hnext
  · rw [clean_shift_bind_iff] at h
    simp only [clean_bind_iff] at h
    obtain ⟨found, middle, hfound, h⟩ := h
    cases found with
    | true =>
        obtain ⟨semicolon, hsemicolon, rfl⟩ := hfound.accept_true
        simp only [if_true, clean_pure_iff] at h
        obtain ⟨rfl, rfl⟩ := h
        exact .returning hnext hsemicolon
    | false =>
        obtain rfl := hfound.accept_false
        simp only [Bool.false_eq_true, if_false, clean_bind_iff, clean_pure_iff] at h
        obtain ⟨value, _, hvalue, semicolon, _, hsemicolon, rfl, rfl⟩ := h
        obtain ⟨hsemicolonKind, hsemicolonRest⟩ := hsemicolon.expect
        have hvalue := hphrase.expression hvalue
        rw [hsemicolonRest] at hvalue
        exact .returningValue hnext hvalue hsemicolonKind

/-- An expression statement has its semicolon, or it ends before a token that does not extend it
and was not the last thing read before a semicolon. -/
theorem expressionStatement_sound (hphrase : SoundPhrase literal phrase)
    (h : Clean (expressionStatement phrase) start node finish) :
    ∃ first tokens body, start.rest = first :: tokens ∧ node = .expression (some first) body ∧
      ((∃ semicolon, semicolon.kind = .semicolon ∧
          Expression literal (first :: tokens) (semicolon :: finish.rest) body) ∨
        Expression literal (first :: tokens) finish.rest body ∧ Stops 0 finish.rest ∧
          finish.last ≠ .semicolon) := by
  rw [expressionStatement, clean_peekToken_bind_iff] at h
  simp only [clean_bind_iff, clean_pure_iff] at h
  obtain ⟨body, middle, hbody, found, _, hfound, rfl, rfl⟩ := h
  have hclimbs := hphrase.climbs hbody
  have hexpression := hclimbs.expression
  obtain ⟨last, tokens, errors⟩ := start
  cases hadvances : hexpression.advances with
  | @token first _ tokens =>
      refine ⟨first, tokens, body, rfl, rfl, ?_⟩
      cases found with
      | true =>
          obtain ⟨semicolon, hsemicolon, hrest⟩ := hfound.accept_true
          rw [hrest] at hexpression
          exact .inl ⟨semicolon, hsemicolon, hexpression⟩
      | false =>
          obtain rfl := hfound.accept_false
          obtain ⟨read, token, hread, hne⟩ := hexpression.ends
          have hlast := hbody.last_eq hread
          exact .inr ⟨hexpression, hclimbs.stops, hlast ▸ hne⟩

omit [∀ phrased, Forward (phrase phrased)] in
/-- A clause that is no declaration is an expression. -/
theorem clause_sound (h : Clean (clause phrase) start node finish) :
    start.next = .wordLet ∧ Clean (declaration phrase) start node finish ∨
      Clean (expressionStatement phrase) start node finish := by
  rw [clause, clean_peek_bind_iff] at h
  split at h
  · next hnext => exact .inl ⟨hnext, h⟩
  · exact .inr h

/-- A header clause is empty, or the parser's construct with its semicolon. -/
theorem headerClause_sound {parser : Parser Node} [Forward parser] {clause : Option Node}
    (h : Clean (headerClause parser) start clause finish) :
    (∃ semicolon, semicolon.kind = .semicolon ∧ start.rest = semicolon :: finish.rest ∧
        clause = none) ∨
      ∃ node, clause = some node ∧ Clean parser start node finish ∧ finish.last = .semicolon := by
  simp only [headerClause, clean_bind_iff] at h
  obtain ⟨found, middle, hfound, h⟩ := h
  cases found with
  | true =>
      obtain ⟨semicolon, hsemicolon, hrest⟩ := hfound.accept_true
      simp only [if_true, clean_pure_iff] at h
      obtain ⟨rfl, rfl⟩ := h
      exact .inl ⟨semicolon, hsemicolon, hrest, rfl⟩
  | false =>
      obtain rfl := hfound.accept_false
      simp only [Bool.false_eq_true, if_false, clean_bind_iff, clean_pure_iff] at h
      obtain ⟨node, _, hnode, _, _, hread, rfl, rfl⟩ := h
      obtain ⟨hlast, rfl⟩ := hread.expectRead
      exact .inr ⟨node, rfl, hnode, hlast⟩

/-- An expression statement whose last token is a semicolon has its own. -/
theorem expressionStatement_terminated (hphrase : SoundPhrase literal phrase)
    (h : Clean (expressionStatement phrase) start node finish) (hlast : finish.last = .semicolon) :
    ∃ first tokens body semicolon, start.rest = first :: tokens ∧
      node = .expression (some first) body ∧ semicolon.kind = .semicolon ∧
      Expression literal (first :: tokens) (semicolon :: finish.rest) body := by
  obtain ⟨first, tokens, body, hrest, rfl, ⟨semicolon, hsemicolon, hbody⟩ | ⟨-, -, hne⟩⟩ :=
    expressionStatement_sound hphrase h
  · exact ⟨first, tokens, body, semicolon, hrest, rfl, hsemicolon, hbody⟩
  · exact absurd hlast hne

theorem firstClause_sound (hphrase : SoundPhrase literal phrase) {first : Option Node}
    (h : Clean (headerClause (clause phrase)) start first finish) :
    FirstClause literal start.rest finish.rest first := by
  rcases headerClause_sound h with ⟨semicolon, hsemicolon, hrest, rfl⟩ | ⟨node, rfl, hnode, hlast⟩
  · rw [hrest]
    exact .none hsemicolon
  · rcases clause_sound hnode with ⟨hnext, hnode⟩ | hnode
    · exact .declaration (declaration_sound hphrase hnext hnode)
    · obtain ⟨first, tokens, body, semicolon, hrest, rfl, hsemicolon, hbody⟩ :=
        expressionStatement_terminated hphrase hnode hlast
      rw [hrest]
      exact .expression hbody hsemicolon

theorem testClause_sound (hphrase : SoundPhrase literal phrase) {test : Option Node}
    (h : Clean (headerClause (expressionStatement phrase)) start test finish) :
    TestClause literal start.rest finish.rest test := by
  rcases headerClause_sound h with ⟨semicolon, hsemicolon, hrest, rfl⟩ | ⟨node, rfl, hnode, hlast⟩
  · rw [hrest]
    exact .none hsemicolon
  · obtain ⟨first, tokens, body, semicolon, hrest, rfl, hsemicolon, hbody⟩ :=
      expressionStatement_terminated hphrase hnode hlast
    rw [hrest]
    exact .expression hbody hsemicolon

theorem stepClause_sound (hphrase : SoundPhrase literal phrase) {step : Option Node}
    (h : Clean (lastClause phrase) start step finish) :
    StepClause literal start.rest finish.rest step := by
  simp only [lastClause, clean_bind_iff] at h
  obtain ⟨found, middle, hfound, h⟩ := h
  cases found with
  | true =>
      obtain ⟨close, hclose, hrest⟩ := hfound.accept_true
      simp only [if_true, clean_pure_iff] at h
      obtain ⟨rfl, rfl⟩ := h
      rw [hrest]
      exact .none hclose
  | false =>
      obtain rfl := hfound.accept_false
      simp only [Bool.false_eq_true, if_false, clean_bind_iff, clean_pure_iff] at h
      obtain ⟨node, _, hnode, close, _, hclose, rfl, rfl⟩ := h
      obtain ⟨hcloseKind, hcloseRest⟩ := hclose.expect
      rcases clause_sound hnode with ⟨hnext, hnode⟩ | hnode
      · have hnode := declaration_sound hphrase hnext hnode
        rw [hcloseRest] at hnode
        exact .declaration hnode hcloseKind
      · obtain ⟨first, tokens, body, hrest, rfl, hbody⟩ := expressionStatement_sound hphrase hnode
        rw [hcloseRest] at hbody
        rw [hrest]
        rcases hbody with ⟨semicolon, hsemicolon, hbody⟩ | ⟨hbody, -, -⟩
        · exact .terminated hbody hsemicolon hcloseKind
        · exact .expression hbody hcloseKind

/-- A loop, from its clauses and its body. -/
theorem loop_sound (hphrase : SoundPhrase literal phrase) (hnext : start.next = .wordFor)
    (h : Clean (loop phrase) start node finish) :
    Statement literal start.rest finish.rest node := by
  unfold loop at h
  obtain ⟨last, _ | ⟨word, rest⟩, errors⟩ := start
  · cases hnext
  · rw [clean_shift_bind_iff] at h
    simp only [clean_bind_iff, clean_pure_iff] at h
    obtain ⟨paren, _, hparen, first, _, hfirst, test, _, htest, step, _, hstep, body, _, hbody,
      rfl, rfl⟩ := h
    obtain ⟨hparenKind, rfl⟩ := hparen.expect
    exact .loop hnext hparenKind (firstClause_sound hphrase hfirst)
      (testClause_sound hphrase htest) (stepClause_sound hphrase hstep) (hphrase.block hbody)

/-- A statement goes before the statements behind it. -/
theorem statement_sound (hphrase : SoundPhrase literal phrase)
    (h : Clean (statement phrase) start node finish) {rest : List Token} {nodes : List Node}
    (hnodes : Statements literal finish.rest rest nodes)
    (hrest : ∀ token ∈ rest.head?, token.kind ≠ .wordElse) :
    Statements literal start.rest rest (node :: nodes) := by
  rw [statement, clean_peek_bind_iff] at h
  split at h
  · next hnext => exact .closed (.declaration (declaration_sound hphrase hnext h)) hnodes
  · next hnext => exact .closed (returning_sound hphrase hnext h) hnodes
  · next hnext => exact .closed (loop_sound hphrase hnext h) hnodes
  · obtain ⟨first, tokens, body, hstart, rfl, ⟨semicolon, hsemicolon, hbody⟩ |
      ⟨hbody, hstops, -⟩⟩ := expressionStatement_sound hphrase h
    · rw [hstart]
      exact .closed (.expression hbody hsemicolon) hnodes
    · rw [hstart]
      refine .unclosed hbody (fun token htoken => ?_) hnodes
      have hpower := Nat.le_zero.1 (hstops token htoken)
      have helse := hnodes.head_ne rfl hrest token htoken
      revert hpower helse
      cases token.kind <;> decide

/-- The statements of a block up to its brace. -/
theorem blockStatements_sound (hphrase : SoundPhrase literal phrase) {turns : Nat}
    {nodes : List Node} (h : Clean (blockStatements phrase turns) start nodes finish) :
    ∃ close, close.kind = .closeBrace ∧
      Statements literal start.rest (close :: finish.rest) nodes := by
  induction turns generalizing start nodes with
  | zero => exact (not_clean_throw h).elim
  | succ turns ih =>
      rw [blockStatements, clean_peek_bind_iff] at h
      split at h
      · next hnext =>
          obtain ⟨last, _ | ⟨close, rest⟩, errors⟩ := start
          · cases hnext
          · rw [clean_shift_bind_iff, clean_pure_iff] at h
            obtain ⟨rfl, rfl⟩ := h
            exact ⟨close, hnext, .nil⟩
      · exact (not_clean_fail h).elim
      · simp only [clean_bind_iff, clean_pure_iff] at h
        obtain ⟨_, _, hnode, more, _, hmore, rfl, rfl⟩ := h
        obtain ⟨node, rfl, hrun⟩ := hnode.attempt
        obtain ⟨close, hclose, hnodes⟩ := ih hmore
        refine ⟨close, hclose, statement_sound hphrase hrun hnodes ?_⟩
        intro token htoken
        cases htoken
        rw [hclose]
        decide

theorem block_sound (hphrase : SoundPhrase literal phrase) {bound : Nat}
    (h : Clean (block phrase bound) start node finish) :
    Block literal start.rest finish.rest node := by
  simp only [block, clean_bind_iff, clean_pure_iff] at h
  obtain ⟨brace, _, hbrace, nodes, _, hnodes, rfl, rfl⟩ := h
  obtain ⟨hbraceKind, hrest⟩ := hbrace.expect
  obtain ⟨close, hclose, hnodes⟩ := blockStatements_sound hphrase hnodes
  rw [hrest]
  exact .braces hbraceKind hnodes hclose

end Statements

omit [∀ phrased, Forward (phrase phrased)] in
/-- Phrases of every nesting depth are phrases of the grammar. -/
theorem nested_sound (hliteral : ∀ token, Readable token → literal token) (bound : Nat) :
    SoundPhrase literal (nested bound) := by
  induction bound with
  | zero => exact ⟨fun h => (not_clean_throw h).elim, fun h => (not_clean_throw h).elim⟩
  | succ bound ih => exact ⟨expression_sound hliteral ih, block_sound ih⟩

/-- A program that is read without an error is a sentence. -/
theorem programStatements_sound (hphrase : SoundPhrase literal phrase) {turns : Nat}
    {nodes : List Node} (hend : ∀ token ∈ start.rest, token.kind ≠ .eof)
    (h : Clean (programStatements phrase turns) start nodes finish) :
    Statements literal start.rest [] nodes := by
  induction turns generalizing start nodes with
  | zero => exact (not_clean_throw h).elim
  | succ turns ih =>
      rw [programStatements, clean_peek_bind_iff] at h
      split at h
      · next hnext =>
          obtain ⟨rfl, -⟩ := clean_pure_iff.1 h
          obtain ⟨last, _ | ⟨token, rest⟩, errors⟩ := start
          · exact .nil
          · exact absurd hnext (hend token (List.mem_cons_self ..))
      · simp only [clean_bind_iff, clean_pure_iff] at h
        obtain ⟨_, middle, hnode, more, _, hmore, rfl, rfl⟩ := h
        obtain ⟨node, rfl, hrun⟩ := hnode.attempt
        obtain ⟨read, hread, -⟩ := (Forward.ok hrun.1).read
        refine statement_sound hphrase hrun (ih (fun token htoken => hend token ?_) hmore) ?_
        · rw [hread]
          exact List.mem_append_right _ htoken
        · intro token htoken
          cases htoken

end Scriptlet.Parser
