import Scriptlet.Proofs.Parser.Soundness
import Scriptlet.Proofs.Parser.Totality
import Scriptlet.Proofs.Parts

/-!
# What the parser builds

`Node.Formed` says what a node looks like that was read from tokens: its origin is one of the tokens
and of the right kind, its data come from that token, and its children are formed for the places
they stand in. An expression statement has no token of its own: its origin is the first token that
was read for it (`Parser.Opens`). Whatever the parser gives is formed, also where it reports errors
(`formed_of_parse`).
-/

namespace Scriptlet

/-- The places of a program that a node can stand in. -/
inductive Place where
  /-- A declared name, a parameter or a member. -/
  | name
  | expression
  /-- An expression used as a statement, as the test of a loop is one. -/
  | test
  /-- The first or last clause of a loop header. -/
  | clause
  | statement
  | block

/-- The expression was read as a statement from some of the tokens, of which this is the first. -/
def Parser.Opens (tokens : List Token) (first : Token) (body : Node) : Prop :=
  ∃ bound last read errors finish, first :: (read ++ finish.rest) <:+ tokens ∧
    expressionStatement (nested bound) ⟨last, first :: (read ++ finish.rest), errors⟩ =
      .ok (.expression (some first) body) finish

/-- The token that opens an expression is one of the tokens. -/
theorem Parser.Opens.mem {tokens : List Token} {first : Token} {body : Node}
    (h : Opens tokens first body) : first ∈ tokens := by
  obtain ⟨_, _, _, _, _, hsuffix, -⟩ := h
  exact hsuffix.mem List.mem_cons_self

open Scriptlet.Parser in
/-- A node that was read from some of the tokens and may stand in the place. -/
inductive Node.Formed (tokens : List Token) : Place → Node → Prop where
  | name {token} : token ∈ tokens → token.kind = .ident →
      Formed tokens .name (.identifier (some token) token.text)
  | identifier {node} : Formed tokens .name node → Formed tokens .expression node
  | integer {token} : token ∈ tokens → token.kind = .int → Readable token →
      Formed tokens .expression (.integer (some token) (decimal token.text.toList))
  | string {token} : token ∈ tokens → token.kind = .string →
      Formed tokens .expression (.string (some token) token.text)
  | yes {token} : token ∈ tokens → token.kind = .wordTrue →
      Formed tokens .expression (.boolean (some token) true)
  | no {token} : token ∈ tokens → token.kind = .wordFalse →
      Formed tokens .expression (.boolean (some token) false)
  | unary {sign operand} : sign ∈ tokens → sign.kind = .bang ∨ sign.kind = .minus →
      Formed tokens .expression operand →
      Formed tokens .expression (.unary (some sign) sign.text operand)
  | binary {operator left right} : operator ∈ tokens → operator.kind.isBinary = true →
      operator.kind ≠ .assign → Formed tokens .expression left → Formed tokens .expression right →
      Formed tokens .expression (.binary (some operator) left operator.text right)
  | assign {equals target value} : equals ∈ tokens → equals.kind = .assign →
      Formed tokens .expression target → Formed tokens .expression value →
      Formed tokens .expression (.assign (some equals) target value)
  | call {paren callee arguments} : paren ∈ tokens → paren.kind = .openParen →
      Formed tokens .expression callee → (∀ node ∈ arguments, Formed tokens .expression node) →
      Formed tokens .expression (.call (some paren) callee arguments)
  | index {bracket target position} : bracket ∈ tokens → bracket.kind = .openBracket →
      Formed tokens .expression target → Formed tokens .expression position →
      Formed tokens .expression (.index (some bracket) target position)
  | member {dot target name} : dot ∈ tokens → dot.kind = .dot →
      Formed tokens .expression target → Formed tokens .name name →
      Formed tokens .expression (.member (some dot) target name)
  | array {bracket elements} : bracket ∈ tokens → bracket.kind = .openBracket →
      (∀ node ∈ elements, Formed tokens .expression node) →
      Formed tokens .expression (.array (some bracket) elements)
  | map {brace pairs} : brace ∈ tokens → brace.kind = .openBrace →
      (∀ pair ∈ pairs, Formed tokens .expression pair.1) →
      (∀ pair ∈ pairs, Formed tokens .expression pair.2) →
      Formed tokens .expression (.map (some brace) pairs)
  | choice {word test consequence alternative} : word ∈ tokens → word.kind = .wordIf →
      Formed tokens .expression test → Formed tokens .block consequence →
      (∀ node ∈ alternative, Formed tokens .block node) →
      Formed tokens .expression (.choice (some word) test consequence alternative)
  | function {word parameters body} : word ∈ tokens → word.kind = .wordFn →
      (∀ node ∈ parameters, Formed tokens .name node) → Formed tokens .block body →
      Formed tokens .expression (.function (some word) parameters body)
  | test {first body} : Opens tokens first body → Formed tokens .expression body →
      Formed tokens .test (.expression (some first) body)
  | testClause {node} : Formed tokens .test node → Formed tokens .clause node
  | declaration {word name value} : word ∈ tokens → word.kind = .wordLet →
      Formed tokens .name name → (∀ node ∈ value, Formed tokens .expression node) →
      Formed tokens .clause (.declaration (some word) name value)
  | clauseStatement {node} : Formed tokens .clause node → Formed tokens .statement node
  | returning {word value} : word ∈ tokens → word.kind = .wordReturn →
      (∀ node ∈ value, Formed tokens .expression node) →
      Formed tokens .statement (.returning (some word) value)
  | loop {word first test step body} : word ∈ tokens → word.kind = .wordFor →
      (∀ node ∈ first, Formed tokens .clause node) → (∀ node ∈ test, Formed tokens .test node) →
      (∀ node ∈ step, Formed tokens .clause node) → Formed tokens .block body →
      Formed tokens .statement (.loop (some word) first test step body)
  | block {brace statements} : brace ∈ tokens → brace.kind = .openBrace →
      (∀ node ∈ statements, Formed tokens .statement node) →
      Formed tokens .block (.block (some brace) statements)

/-- The token is one that introduces such a node, and the data of the node are those of the
token. -/
def Node.Begins (token : Token) : Node → Prop
  | .hole => False
  | .program _ => False
  | .expression _ _ => True
  | .declaration _ _ _ => token.kind = .wordLet
  | .returning _ _ => token.kind = .wordReturn
  | .block _ _ => token.kind = .openBrace
  | .loop _ _ _ _ _ => token.kind = .wordFor
  | .integer _ value => token.kind = .int ∧ value = Parser.decimal token.text.toList
  | .boolean _ value => token.kind = if value then .wordTrue else .wordFalse
  | .string _ value => token.kind = .string ∧ value = token.text
  | .identifier _ name => token.kind = .ident ∧ name = token.text
  | .array _ _ => token.kind = .openBracket
  | .map _ _ => token.kind = .openBrace
  | .function _ _ _ => token.kind = .wordFn
  | .choice _ _ _ _ => token.kind = .wordIf
  | .unary _ operator _ =>
      (token.kind = .bang ∨ token.kind = .minus) ∧ operator = token.text
  | .binary _ _ operator _ =>
      token.kind.isBinary = true ∧ token.kind ≠ .assign ∧ operator = token.text
  | .call _ _ _ => token.kind = .openParen
  | .index _ _ _ => token.kind = .openBracket
  | .member _ _ _ => token.kind = .dot
  | .assign _ _ _ => token.kind = .assign

/-- A formed node is introduced by one of the tokens. -/
theorem Node.Formed.begins {tokens : List Token} {place : Place} {node : Node}
    (h : node.Formed tokens place) :
    ∃ token ∈ tokens, node.origin = some token ∧ node.Begins token := by
  induction h with
  | identifier _ ih | testClause _ ih | clauseStatement _ ih => exact ih
  | name htoken hkind | string htoken hkind => exact ⟨_, htoken, rfl, hkind, rfl⟩
  | integer htoken hkind => exact ⟨_, htoken, rfl, hkind, rfl⟩
  | yes htoken hkind | no htoken hkind => exact ⟨_, htoken, rfl, hkind⟩
  | unary htoken hkind => exact ⟨_, htoken, rfl, hkind, rfl⟩
  | binary htoken hbinary hassign => exact ⟨_, htoken, rfl, hbinary, hassign, rfl⟩
  | test hopens => exact ⟨_, hopens.mem, rfl, trivial⟩
  | assign htoken hkind | call htoken hkind | index htoken hkind | member htoken hkind
  | array htoken hkind | map htoken hkind | choice htoken hkind | function htoken hkind
  | declaration htoken hkind | returning htoken hkind | loop htoken hkind | block htoken hkind =>
      exact ⟨_, htoken, rfl, hkind⟩

/-- The children of a formed node are formed. -/
theorem Node.Formed.child {tokens : List Token} {place : Place} {node inner : Node}
    (h : node.Formed tokens place) (hinner : inner ∈ node.children) :
    ∃ place, inner.Formed tokens place := by
  induction h with
  | name | integer | string | yes | no => cases hinner
  | identifier _ ih | testClause _ ih | clauseStatement _ ih => exact ih hinner
  | unary _ _ hbody | test _ hbody =>
      rw [List.mem_singleton.1 hinner]
      exact ⟨_, hbody⟩
  | binary _ _ _ hleft hright | assign _ _ hleft hright | index _ _ hleft hright
  | member _ _ hleft hright =>
      rcases List.mem_cons.1 hinner with rfl | hmem
      · exact ⟨_, hleft⟩
      · rw [List.mem_singleton.1 hmem]
        exact ⟨_, hright⟩
  | call _ _ hcallee harguments =>
      rcases List.mem_cons.1 hinner with rfl | hmem
      · exact ⟨_, hcallee⟩
      · exact ⟨_, harguments inner hmem⟩
  | array _ _ hnodes | block _ _ hnodes => exact ⟨_, hnodes inner hinner⟩
  | returning _ _ hvalue => exact ⟨_, hvalue inner (Option.mem_toList.1 hinner)⟩
  | map _ _ hkeys hvalues =>
      obtain ⟨pair, hpair, hmem⟩ := List.mem_flatMap.1 hinner
      rcases List.mem_cons.1 hmem with rfl | hmem
      · exact ⟨_, hkeys pair hpair⟩
      · rw [List.mem_singleton.1 hmem]
        exact ⟨_, hvalues pair hpair⟩
  | choice _ _ htest hconsequence halternative =>
      rcases List.mem_cons.1 hinner with rfl | hmem
      · exact ⟨_, htest⟩
      · rcases List.mem_cons.1 hmem with rfl | hmem
        · exact ⟨_, hconsequence⟩
        · exact ⟨_, halternative inner (Option.mem_toList.1 hmem)⟩
  | function _ _ hparameters hbody =>
      rcases List.mem_append.1 hinner with hmem | hmem
      · exact ⟨_, hparameters inner hmem⟩
      · rw [List.mem_singleton.1 hmem]
        exact ⟨_, hbody⟩
  | declaration _ _ hname hvalue =>
      rcases List.mem_cons.1 hinner with rfl | hmem
      · exact ⟨_, hname⟩
      · exact ⟨_, hvalue inner (Option.mem_toList.1 hmem)⟩
  | loop _ _ hfirst htest hstep hbody =>
      simp only [children, List.mem_append, Option.mem_toList, List.mem_singleton, or_assoc]
        at hinner
      rcases hinner with hmem | hmem | hmem | rfl
      · exact ⟨_, hfirst inner hmem⟩
      · exact ⟨_, htest inner hmem⟩
      · exact ⟨_, hstep inner hmem⟩
      · exact ⟨_, hbody⟩

/-- Where a name should stand in a formed node, there stands one. -/
theorem Node.Formed.nameChild {tokens : List Token} {place : Place} {node inner : Node}
    (h : node.Formed tokens place) (hinner : inner ∈ node.nameChildren) :
    inner.Formed tokens .name := by
  induction h with
  | identifier _ ih | testClause _ ih | clauseStatement _ ih => exact ih hinner
  | function _ _ hparameters _ => exact hparameters inner hinner
  | declaration _ _ hname _ | member _ _ _ hname =>
      rw [List.mem_singleton.1 hinner]
      exact hname
  | _ => cases hinner

/-- A formed name is an identifier. -/
theorem Node.Formed.isIdentifier {tokens : List Token} {node : Node}
    (h : node.Formed tokens .name) : node.IsIdentifier := by
  cases h
  exact ⟨_, _, rfl⟩

/-- What a formed node contains is formed. -/
theorem Node.Formed.part {tokens : List Token} {place : Place} {node part : Node}
    (h : node.Formed tokens place) (hpart : node.Contains part) :
    ∃ place, part.Formed tokens place := by
  induction hpart generalizing place with
  | self => exact ⟨place, h⟩
  | child hmem _ ih =>
      obtain ⟨inner, hinner⟩ := h.child hmem
      exact ih hinner

namespace Parser

variable {α β : Type} {tokens : List Token} {start finish : State}

/-- A run that gives a value, begun where the last of the tokens are unread. -/
structure Made (tokens : List Token) (parser : Parser α) (start : State) (value : α)
    (finish : State) : Prop where
  run : parser start = .ok value finish
  unread : start.rest <:+ tokens

/-- What parsers one behind the other make is made by the second one, from what the first makes. -/
theorem made_bind_iff {parser : Parser α} {next : α → Parser β} {value : β}
    [hparser : Forward parser] :
    Made tokens (parser >>= next) start value finish ↔
      ∃ first middle, Made tokens parser start first middle ∧
        Made tokens (next first) middle value finish := by
  constructor
  · intro h
    obtain ⟨first, middle, hfirst, hsecond⟩ := bind_eq_ok.1 h.run
    exact ⟨first, middle, ⟨hfirst, h.unread⟩, hsecond, (hparser.ok hfirst).suffix.trans h.unread⟩
  · intro h
    obtain ⟨first, middle, hfirst, hsecond⟩ := h
    exact ⟨bind_eq_ok.2 ⟨first, middle, hfirst.run, hsecond.run⟩, hfirst.unread⟩

/-- A result that is known is made as it is. -/
theorem Made.eq_of_pure {value result : α} (h : Made tokens (pure value) start result finish) :
    result = value := by
  cases h.run
  rfl

/-- An error makes nothing. -/
theorem not_made_fail {error : SyntaxError} {value : α} :
    ¬ Made tokens (fail error) start value finish :=
  fun h => nomatch h.run

theorem not_made_throw {stop : Stop} {value : α} : ¬ Made tokens (throw stop) start value finish :=
  fun h => nomatch h.run

/-- A token that is asked for is one of the tokens, and of that kind. -/
theorem Made.expect {kind : Kind} {token : Token}
    (h : Made tokens (expect kind) start token finish) :
    token.kind = kind ∧ token ∈ tokens := by
  obtain ⟨hrun, hunread⟩ := h
  obtain ⟨last, _ | ⟨first, rest⟩, errors⟩ := start
  · cases hrun
  · simp only [Parser.expect] at hrun
    split at hrun <;> cases hrun
    exact ⟨‹_›, hunread.mem List.mem_cons_self⟩

/-- A token that is read is one of the tokens. -/
theorem Made.mem_of_shift {token : Token} (h : Made tokens shift start (some token) finish) :
    token ∈ tokens := by
  obtain ⟨hrun, hunread⟩ := h
  obtain ⟨last, _ | ⟨first, rest⟩, errors⟩ := start
  · cases hrun
  · cases hrun
    exact hunread.mem List.mem_cons_self

theorem Made.mem_of_peekToken {token : Token}
    (h : Made tokens peekToken start (some token) finish) : token ∈ tokens := by
  obtain ⟨hrun, hunread⟩ := h
  obtain ⟨last, _ | ⟨first, rest⟩, errors⟩ := start
  · cases hrun
  · cases hrun
    exact hunread.mem List.mem_cons_self

/-- A word that comes next is the origin that is read. -/
theorem Made.word_of_shift {kind : Kind} {origin : Origin}
    (h : Made tokens shift start origin finish) (hnext : start.next = kind) (hkind : kind ≠ .eof) :
    ∃ token ∈ tokens, origin = some token ∧ token.kind = kind := by
  obtain ⟨hrun, hunread⟩ := h
  obtain ⟨last, _ | ⟨first, rest⟩, errors⟩ := start
  · exact absurd hnext.symm hkind
  · cases hrun
    exact ⟨first, hunread.mem List.mem_cons_self, rfl, hnext⟩

section Lists

variable {close : Kind} {item : Parser α} {made : α → Prop} [Forward item]

theorem moreItems_made
    (hitem : ∀ {start value finish}, Made tokens item start value finish → made value) :
    ∀ (bound : Nat) {start finish : State} {values : List α},
      Made tokens (moreItems close item bound) start values finish → ∀ value ∈ values, made value
  | 0, _, _, _, h => (not_made_throw h).elim
  | bound + 1, start, finish, values, h => by
      simp only [moreItems, made_bind_iff] at h
      obtain ⟨found, _, _, h⟩ := h
      cases found with
      | true =>
          simp only [if_true, made_bind_iff] at h
          obtain ⟨value, _, hvalue, others, _, hothers, h⟩ := h
          rw [h.eq_of_pure]
          exact List.forall_mem_cons.2 ⟨hitem hvalue, moreItems_made hitem bound hothers⟩
      | false =>
          simp only [Bool.false_eq_true, if_false, made_bind_iff] at h
          obtain ⟨_, _, _, h⟩ := h
          rw [h.eq_of_pure]
          exact List.forall_mem_nil _

/-- The items of a list are what a single item is. -/
theorem items_made
    (hitem : ∀ {start value finish}, Made tokens item start value finish → made value)
    {bound : Nat} {values : List α} (h : Made tokens (items close item bound) start values finish) :
    ∀ value ∈ values, made value := by
  simp only [items, made_bind_iff] at h
  obtain ⟨found, _, _, h⟩ := h
  cases found with
  | true =>
      simp only [if_true] at h
      rw [h.eq_of_pure]
      exact List.forall_mem_nil _
  | false =>
      simp only [Bool.false_eq_true, if_false, made_bind_iff] at h
      obtain ⟨value, _, hvalue, others, _, hothers, h⟩ := h
      rw [h.eq_of_pure]
      exact List.forall_mem_cons.2 ⟨hitem hvalue, moreItems_made hitem bound hothers⟩

end Lists

/-- The phrases inside a phrase, nested up to some bound, are formed, and no expression is found
where no token is left. -/
structure FormedPhrase (tokens : List Token) (phrase : Phrase → Parser Node) : Prop where
  nested : ∃ bound, phrase = nested bound
  expression : ∀ {power start node finish},
    Made tokens (phrase (.expression power)) start node finish → node.Formed tokens .expression
  begun : ∀ {power start node finish}, Made tokens (phrase (.expression power)) start node finish →
    start.rest ≠ []
  block : ∀ {start node finish}, Made tokens (phrase .block) start node finish →
    node.Formed tokens .block

section Expressions

variable {phrase : Phrase → Parser Node} [∀ phrased, Forward (phrase phrased)] {bound : Nat}
  {token : Token} {node : Node}

/-- A parameter is formed for the place of a name. -/
theorem parameter_made (h : Made tokens parameter start node finish) :
    node.Formed tokens .name := by
  simp only [parameter, made_bind_iff] at h
  obtain ⟨origin, _, horigin, h⟩ := h
  cases origin with
  | none => exact (not_made_fail h).elim
  | some token =>
      simp only at h
      split at h
      · next hkind =>
          rw [h.eq_of_pure]
          exact .name horigin.mem_of_shift hkind
      · exact (not_made_fail h).elim

theorem mapPair_made (hphrase : FormedPhrase tokens phrase) {pair : Node × Node}
    (h : Made tokens (mapPair phrase) start pair finish) :
    pair.1.Formed tokens .expression ∧ pair.2.Formed tokens .expression := by
  simp only [mapPair, made_bind_iff] at h
  obtain ⟨key, _, hkey, _, _, _, value, _, hvalue, h⟩ := h
  rw [h.eq_of_pure]
  exact ⟨hphrase.expression hkey, hphrase.expression hvalue⟩

theorem integerLiteral_made (htoken : token ∈ tokens) (hkind : token.kind = .int)
    (h : Made tokens (integerLiteral token) start node finish) :
    node.Formed tokens .expression := by
  simp only [integerLiteral] at h
  split at h
  · exact (not_made_throw h).elim
  · next hdigits =>
      split at h
      · exact (not_made_fail h).elim
      · next hvalue =>
          rw [h.eq_of_pure]
          exact .integer htoken hkind ⟨Nat.le_of_not_gt hdigits, Nat.le_of_not_gt hvalue⟩

/-- A choice is formed of its test and its blocks. -/
theorem choice_made (hphrase : FormedPhrase tokens phrase) (htoken : token ∈ tokens)
    (hkind : token.kind = .wordIf) (h : Made tokens (choice phrase token) start node finish) :
    node.Formed tokens .expression := by
  simp only [choice, made_bind_iff] at h
  obtain ⟨_, _, _, test, _, htest, _, _, _, yes, _, hyes, found, _, _, h⟩ := h
  cases found with
  | true =>
      simp only [if_true, made_bind_iff] at h
      obtain ⟨no, _, hno, h⟩ := h
      rw [h.eq_of_pure]
      refine .choice htoken hkind (hphrase.expression htest) (hphrase.block hyes) ?_
      rintro _ ⟨⟩
      exact hphrase.block hno
  | false =>
      simp only [Bool.false_eq_true, if_false] at h
      rw [h.eq_of_pure]
      refine .choice htoken hkind (hphrase.expression htest) (hphrase.block hyes) ?_
      intro node hnode
      cases hnode

/-- A function is formed of its parameters and its body. -/
theorem function_made (hphrase : FormedPhrase tokens phrase) (htoken : token ∈ tokens)
    (hkind : token.kind = .wordFn)
    (h : Made tokens (function phrase bound token) start node finish) :
    node.Formed tokens .expression := by
  simp only [function, made_bind_iff] at h
  obtain ⟨_, _, _, parameters, _, hparameters, body, _, hbody, h⟩ := h
  rw [h.eq_of_pure]
  exact .function htoken hkind (items_made parameter_made hparameters) (hphrase.block hbody)

/-- An operand is formed, by the kind of the token that begins it. -/
theorem operandAt_made (hphrase : FormedPhrase tokens phrase) (htoken : token ∈ tokens)
    (h : Made tokens (operandAt phrase bound token) start node finish) :
    node.Formed tokens .expression := by
  unfold operandAt at h
  split at h
  case h_1 hkind =>
      rw [h.eq_of_pure]
      exact .identifier (.name htoken hkind)
  case h_2 hkind => exact integerLiteral_made htoken hkind h
  case h_3 hkind =>
      rw [h.eq_of_pure]
      exact .string htoken hkind
  case h_4 hkind =>
      rw [h.eq_of_pure]
      exact .yes htoken hkind
  case h_5 hkind =>
      rw [h.eq_of_pure]
      exact .no htoken hkind
  case h_6 hkind | h_7 hkind =>
      simp only [made_bind_iff] at h
      obtain ⟨operand, _, hoperand, h⟩ := h
      rw [h.eq_of_pure]
      exact .unary htoken (by simp [hkind]) (hphrase.expression hoperand)
  case h_8 hkind =>
      simp only [made_bind_iff] at h
      obtain ⟨inner, _, hinner, _, _, _, h⟩ := h
      rw [h.eq_of_pure]
      exact hphrase.expression hinner
  case h_9 hkind =>
      simp only [made_bind_iff] at h
      obtain ⟨elements, _, helements, h⟩ := h
      rw [h.eq_of_pure]
      exact .array htoken hkind (items_made hphrase.expression helements)
  case h_10 hkind =>
      simp only [made_bind_iff] at h
      obtain ⟨pairs, _, hpairs, h⟩ := h
      rw [h.eq_of_pure]
      have hmade := items_made (mapPair_made hphrase) hpairs
      exact .map htoken hkind (fun pair hpair => (hmade pair hpair).1)
        fun pair hpair => (hmade pair hpair).2
  case h_11 hkind => exact choice_made hphrase htoken hkind h
  case h_12 hkind => exact function_made hphrase htoken hkind h
  case h_13 => exact (not_made_fail h).elim

theorem operand_made (hphrase : FormedPhrase tokens phrase)
    (h : Made tokens (operand phrase bound) start node finish) :
    node.Formed tokens .expression := by
  simp only [operand, made_bind_iff] at h
  obtain ⟨origin, _, horigin, h⟩ := h
  cases origin with
  | none => exact (not_made_fail h).elim
  | some token => exact operandAt_made hphrase horigin.mem_of_shift h

/-- What is made of a formed left side is formed. -/
theorem application_made (hphrase : FormedPhrase tokens phrase) (htoken : token ∈ tokens)
    {left : Node} (hleft : left.Formed tokens .expression) (hpower : 0 < token.kind.power)
    (h : Made tokens (application phrase bound token left) start node finish) :
    node.Formed tokens .expression := by
  unfold application at h
  split at h
  case h_1 hkind =>
      simp only [made_bind_iff] at h
      obtain ⟨arguments, _, harguments, h⟩ := h
      rw [h.eq_of_pure]
      exact .call htoken hkind hleft (items_made hphrase.expression harguments)
  case h_2 hkind =>
      simp only [made_bind_iff] at h
      obtain ⟨position, _, hposition, _, _, _, h⟩ := h
      rw [h.eq_of_pure]
      exact .index htoken hkind hleft (hphrase.expression hposition)
  case h_3 hkind =>
      simp only [made_bind_iff] at h
      obtain ⟨name, _, hname, h⟩ := h
      rw [h.eq_of_pure]
      exact .member htoken hkind hleft (.name hname.expect.2 hname.expect.1)
  case h_4 hkind =>
      simp only [made_bind_iff] at h
      obtain ⟨value, _, hvalue, h⟩ := h
      rw [h.eq_of_pure]
      exact .assign htoken hkind hleft (hphrase.expression hvalue)
  case h_5 hparen hbracket hdot hassign =>
      simp only [made_bind_iff] at h
      obtain ⟨right, _, hright, h⟩ := h
      rw [h.eq_of_pure]
      have hbinary : token.kind.isBinary = true := by
        rcases Kind.isBinary_or_isPostfix hpower with hbinary | hpostfix
        · exact hbinary
        · revert hpostfix hparen hbracket hdot
          cases token.kind <;> decide
      exact .binary htoken hbinary hassign hleft (hphrase.expression hright)

/-- What climbs from a formed left side is formed, by induction on the turns. -/
theorem climb_made (hphrase : FormedPhrase tokens phrase) {power : Nat} :
    ∀ (turns : Nat) {left : Node} {start : State}, left.Formed tokens .expression →
      Made tokens (climb phrase bound power turns left) start node finish →
      node.Formed tokens .expression
  | 0, _, _, _, h => (not_made_throw h).elim
  | turns + 1, left, start, hleft, h => by
      simp only [climb, made_bind_iff] at h
      obtain ⟨origin, middle, hseen, h⟩ := h
      cases origin with
      | none =>
          rw [h.eq_of_pure]
          exact hleft
      | some token =>
          simp only at h
          split at h
          · next htight =>
              simp only [made_bind_iff] at h
              obtain ⟨_, _, _, extended, _, hextended, h⟩ := h
              have hpower : 0 < token.kind.power := Nat.zero_lt_of_lt htight
              exact climb_made hphrase turns
                (application_made hphrase hseen.mem_of_peekToken hleft hpower hextended) h
          · rw [h.eq_of_pure]
            exact hleft

/-- An expression is formed of its operands. -/
theorem expression_made (hphrase : FormedPhrase tokens phrase) {power : Nat}
    (h : Made tokens (expression phrase bound power) start node finish) :
    node.Formed tokens .expression := by
  simp only [expression, made_bind_iff] at h
  obtain ⟨left, _, hleft, h⟩ := h
  exact climb_made hphrase bound (operand_made hphrase hleft) h

/-- An expression begins with a token. -/
theorem expression_begun {power : Nat}
    (h : Made tokens (expression phrase bound power) start node finish) : start.rest ≠ [] := by
  intro hrest
  simp only [expression, made_bind_iff] at h
  obtain ⟨_, _, hleft, _⟩ := h
  simp only [operand, made_bind_iff] at hleft
  obtain ⟨origin, _, horigin, hoperand⟩ := hleft
  obtain ⟨last, rest, errors⟩ := start
  subst hrest
  cases horigin.run
  exact not_made_fail hoperand

end Expressions

section Statements

variable {phrase : Phrase → Parser Node} [∀ phrased, Forward (phrase phrased)] {node : Node}

/-- A declaration is formed of its name and its first value. -/
theorem declaration_made (hphrase : FormedPhrase tokens phrase) (hnext : start.next = .wordLet)
    (h : Made tokens (declaration phrase) start node finish) : node.Formed tokens .clause := by
  simp only [declaration, made_bind_iff] at h
  obtain ⟨origin, _, horigin, name, _, hname, found, _, _, h⟩ := h
  obtain ⟨word, hword, rfl, hkind⟩ := horigin.word_of_shift hnext nofun
  have hformed : (Node.identifier (some name) name.text).Formed tokens .name :=
    .name hname.expect.2 hname.expect.1
  cases found with
  | true =>
      simp only [if_true] at h
      rw [h.eq_of_pure]
      exact .declaration hword hkind hformed nofun
  | false =>
      simp only [Bool.false_eq_true, if_false, made_bind_iff] at h
      obtain ⟨_, _, _, value, _, hvalue, _, _, _, h⟩ := h
      rw [h.eq_of_pure]
      refine .declaration hword hkind hformed ?_
      rintro _ ⟨⟩
      exact hphrase.expression hvalue

theorem returning_made (hphrase : FormedPhrase tokens phrase) (hnext : start.next = .wordReturn)
    (h : Made tokens (returning phrase) start node finish) : node.Formed tokens .statement := by
  simp only [returning, made_bind_iff] at h
  obtain ⟨origin, _, horigin, found, _, _, h⟩ := h
  obtain ⟨word, hword, rfl, hkind⟩ := horigin.word_of_shift hnext nofun
  cases found with
  | true =>
      simp only [if_true] at h
      rw [h.eq_of_pure]
      exact .returning hword hkind nofun
  | false =>
      simp only [Bool.false_eq_true, if_false, made_bind_iff] at h
      obtain ⟨value, _, hvalue, _, _, _, h⟩ := h
      rw [h.eq_of_pure]
      refine .returning hword hkind ?_
      rintro _ ⟨⟩
      exact hphrase.expression hvalue

/-- An expression statement is formed of its expression. -/
theorem expressionStatement_made (hphrase : FormedPhrase tokens phrase)
    (h : Made tokens (expressionStatement phrase) start node finish) :
    node.Formed tokens .test := by
  obtain ⟨hrun, hunread⟩ := id h
  simp only [expressionStatement, made_bind_iff] at h
  obtain ⟨origin, _, hseen, body, _, hbody, _, _, _, h⟩ := h
  cases hseen.run
  obtain ⟨bound, rfl⟩ := hphrase.nested
  -- The statement reads at least one token, so the one it begins with is its own.
  obtain ⟨read, hread, -⟩ := (Forward.ok hrun).read
  have hshorter := Consuming.ok hrun (hphrase.begun hbody)
  obtain ⟨last, rest, errors⟩ := start
  simp only at hread
  subst hread
  cases read with
  | nil => exact absurd hshorter (Nat.lt_irrefl _)
  | cons first read =>
      cases h.eq_of_pure
      exact .test ⟨bound, last, read, errors, finish, hunread, hrun⟩ (hphrase.expression hbody)

theorem clause_made (hphrase : FormedPhrase tokens phrase)
    (h : Made tokens (clause phrase) start node finish) : node.Formed tokens .clause := by
  simp only [clause, made_bind_iff] at h
  obtain ⟨kind, _, hseen, h⟩ := h
  cases hseen.run
  split at h
  · next hnext => exact declaration_made hphrase hnext h
  · exact .testClause (expressionStatement_made hphrase h)

omit [∀ phrased, Forward (phrase phrased)] in
/-- A clause that may be left out is formed if it is there. -/
theorem headerClause_made {parser : Parser Node} [Forward parser] {place : Place}
    (hparser : ∀ {start node finish}, Made tokens parser start node finish →
      node.Formed tokens place)
    {result : Option Node} (h : Made tokens (headerClause parser) start result finish) :
    ∀ node ∈ result, node.Formed tokens place := by
  simp only [headerClause, made_bind_iff] at h
  obtain ⟨found, _, _, h⟩ := h
  cases found with
  | true =>
      simp only [if_true] at h
      rw [h.eq_of_pure]
      intro node hnode
      cases hnode
  | false =>
      simp only [Bool.false_eq_true, if_false, made_bind_iff] at h
      obtain ⟨node, _, hnode, _, _, _, h⟩ := h
      rw [h.eq_of_pure]
      rintro _ ⟨⟩
      exact hparser hnode

theorem lastClause_made (hphrase : FormedPhrase tokens phrase) {result : Option Node}
    (h : Made tokens (lastClause phrase) start result finish) :
    ∀ node ∈ result, node.Formed tokens .clause := by
  simp only [lastClause, made_bind_iff] at h
  obtain ⟨found, _, _, h⟩ := h
  cases found with
  | true =>
      simp only [if_true] at h
      rw [h.eq_of_pure]
      intro node hnode
      cases hnode
  | false =>
      simp only [Bool.false_eq_true, if_false, made_bind_iff] at h
      obtain ⟨node, _, hnode, _, _, _, h⟩ := h
      rw [h.eq_of_pure]
      rintro _ ⟨⟩
      exact clause_made hphrase hnode

/-- A loop is formed of its clauses and its body. -/
theorem loop_made (hphrase : FormedPhrase tokens phrase) (hnext : start.next = .wordFor)
    (h : Made tokens (loop phrase) start node finish) : node.Formed tokens .statement := by
  simp only [loop, made_bind_iff] at h
  obtain ⟨origin, _, horigin, _, _, _, first, _, hfirst, test, _, htest, step, _, hstep, body, _,
    hbody, h⟩ := h
  obtain ⟨word, hword, rfl, hkind⟩ := horigin.word_of_shift hnext nofun
  rw [h.eq_of_pure]
  exact .loop hword hkind (headerClause_made (clause_made hphrase) hfirst)
    (headerClause_made (expressionStatement_made hphrase) htest) (lastClause_made hphrase hstep)
    (hphrase.block hbody)

/-- A statement is formed, by the kind of the token that begins it. -/
theorem statement_made (hphrase : FormedPhrase tokens phrase)
    (h : Made tokens (statement phrase) start node finish) : node.Formed tokens .statement := by
  simp only [statement, made_bind_iff] at h
  obtain ⟨kind, _, hseen, h⟩ := h
  cases hseen.run
  split at h
  · next hnext => exact .clauseStatement (declaration_made hphrase hnext h)
  · next hnext => exact returning_made hphrase hnext h
  · next hnext => exact loop_made hphrase hnext h
  · exact .clauseStatement (.testClause (expressionStatement_made hphrase h))

/-- What is left of a statement that was attempted. -/
theorem attempt_made (hphrase : FormedPhrase tokens phrase) {result : Option Node}
    (h : Made tokens (attempt (statement phrase)) start result finish) :
    ∀ node ∈ result.toList, node.Formed tokens .statement := by
  obtain ⟨hrun, hunread⟩ := h
  simp only [attempt] at hrun
  split at hrun
  · next hok =>
      cases hrun
      intro node hnode
      rw [List.mem_singleton.1 hnode]
      exact statement_made hphrase ⟨hok, hunread⟩
  · cases hrun
    exact List.forall_mem_nil _
  · cases hrun

theorem blockStatements_made (hphrase : FormedPhrase tokens phrase) :
    ∀ (turns : Nat) {start finish : State} {nodes : List Node},
      Made tokens (blockStatements phrase turns) start nodes finish →
      ∀ node ∈ nodes, node.Formed tokens .statement
  | 0, _, _, _, h => (not_made_throw h).elim
  | turns + 1, start, finish, nodes, h => by
      simp only [blockStatements, made_bind_iff] at h
      obtain ⟨kind, _, _, h⟩ := h
      split at h
      · simp only [made_bind_iff] at h
        obtain ⟨_, _, _, h⟩ := h
        rw [h.eq_of_pure]
        exact List.forall_mem_nil _
      · exact (not_made_fail h).elim
      · simp only [made_bind_iff] at h
        obtain ⟨result, _, hresult, others, _, hothers, h⟩ := h
        rw [h.eq_of_pure]
        exact List.forall_mem_append.2
          ⟨attempt_made hphrase hresult, blockStatements_made hphrase turns hothers⟩

theorem block_made (hphrase : FormedPhrase tokens phrase) {bound : Nat}
    (h : Made tokens (block phrase bound) start node finish) : node.Formed tokens .block := by
  simp only [block, made_bind_iff] at h
  obtain ⟨brace, _, hbrace, statements, _, hstatements, h⟩ := h
  rw [h.eq_of_pure]
  exact .block hbrace.expect.2 hbrace.expect.1 (blockStatements_made hphrase bound hstatements)

theorem programStatements_made (hphrase : FormedPhrase tokens phrase) :
    ∀ (turns : Nat) {start finish : State} {nodes : List Node},
      Made tokens (programStatements phrase turns) start nodes finish →
      ∀ node ∈ nodes, node.Formed tokens .statement
  | 0, _, _, _, h => (not_made_throw h).elim
  | turns + 1, start, finish, nodes, h => by
      simp only [programStatements, made_bind_iff] at h
      obtain ⟨kind, _, _, h⟩ := h
      split at h
      · rw [h.eq_of_pure]
        exact List.forall_mem_nil _
      · simp only [made_bind_iff] at h
        obtain ⟨result, _, hresult, others, _, hothers, h⟩ := h
        rw [h.eq_of_pure]
        exact List.forall_mem_append.2
          ⟨attempt_made hphrase hresult, programStatements_made hphrase turns hothers⟩

end Statements

/-- Phrases nested to any depth are formed. -/
theorem nested_made : ∀ bound, FormedPhrase tokens (nested bound)
  | 0 => ⟨⟨0, rfl⟩, fun h => (not_made_throw h).elim, fun h => (not_made_throw h).elim,
      fun h => (not_made_throw h).elim⟩
  | bound + 1 => ⟨⟨bound + 1, rfl⟩, expression_made (nested_made bound), expression_begun,
      block_made (nested_made bound)⟩

end Parser

/-- Every statement that is read from a text is formed, also where the text has errors. -/
theorem formed_of_parse {source : String} {parsed : Parsed} (h : parse source = .ok parsed) :
    ∀ node ∈ parsed.statements, node.Formed (Token.ofText source) .statement := by
  rw [parse] at h
  split at h
  · next hrun =>
      cases h
      exact Parser.programStatements_made (Parser.nested_made _) _ ⟨hrun, List.suffix_refl _⟩
  · cases h

end Scriptlet
