import Scriptlet.Proofs.Parser.Acceptance
import Scriptlet.Proofs.Parser.Widening
import Scriptlet.Proofs.Parts

/-!
# Calls of parsers

Which calls a run makes can be told from outside: cut one call, so that it stops the whole run, and
see whether the run gets past it (`Asks`). Along the phrases inside phrases this reaches every call
of a program, at any depth (`Called`). In a run that reports nothing every call gives a node, and
that node stands in the program (`clean_of_called`): `Breaks` says that a run is stopped on the way
of another one that reports nothing, and for every construct the node of the phrase where it is
stopped stands in the node of the construct. The calls for statements of a list come one behind the
other, and `attempts` lists what they give.
-/

namespace Scriptlet.Parser

deriving instance DecidableEq for State

/-- The parser of phrases but for one call: asked for `phrase` at `state`, it stops the
whole run. -/
def cut (parser : Phrase → Parser Node) (phrase : Phrase) (state : State) :
    Phrase → Parser Node := fun other start =>
  if other = phrase ∧ start = state then
    .error .exhausted start
  else
    parser other start

/-- A construct asks for a phrase at a state: its run does not get past this call when it is cut. -/
def Asks {α : Type} (construct : (Phrase → Parser Node) → Parser α) (parser : Phrase → Parser Node)
    (start : State) (phrase : Phrase) (state : State) : Prop :=
  construct (cut parser phrase state) start = .error .exhausted state

/-- The construct of a phrase, over a parser for the phrases inside it. -/
def construct (bound : Nat) : Phrase → (Phrase → Parser Node) → Parser Node
  | .expression power => fun inner => expression inner (bound + 1) power
  | .block => fun inner => block inner (bound + 1)

/-- One more level of nesting is one turn of the construction. -/
theorem nested_succ (bound : Nat) (phrase : Phrase) :
    nested (bound + 1) phrase = construct bound phrase (nested bound) := by
  cases phrase <;> rfl

/-- The calls for phrases made in reading the statements of some tokens: those of the statements,
and those of the phrases called for. The number is the bound on what is nested in the phrase. -/
inductive Called (tokens : List Token) : Nat → Phrase → State → Prop where
  | program {phrase state} :
      Asks (programStatements · (tokens.length + 1)) (nested (tokens.length + 1))
        (State.initial tokens) phrase state →
      Called tokens (tokens.length + 1) phrase state
  | inside {bound outer start phrase state} :
      Called tokens (bound + 1) outer start →
      Asks (construct bound outer) (nested bound) start phrase state →
      Called tokens bound phrase state

/-- What the calls for statements of a list give, in turn: a node, or none for a statement that is
missing. The list goes on up to a token of one of the kinds in `ends`. -/
def attempts (parser : Phrase → Parser Node) (ends : List Kind) : Nat → State → List (Option Node)
  | 0, _ => []
  | turns + 1, state =>
      if state.next ∈ ends then
        []
      else
        match attempt (statement parser) state with
        | .ok node middle => node :: attempts parser ends turns middle
        | .error _ _ => []

/-- The first parser is stopped by its bound on the way of a run of the second one that reports
nothing. -/
def Breaks {α : Type} (narrow wide : Parser α) (start : State) (value : α) (finish : State) :
    Prop :=
  Clean wide start value finish ∧ ∃ stopped, narrow start = .error .exhausted stopped

section Combinators

variable {α β : Type} {start middle finish : State}

/-- A run that comes to its end does not stop on the way. -/
theorem not_breaks_self {parser : Parser α} {value : α} :
    ¬ Breaks parser parser start value finish := by
  intro h
  obtain ⟨⟨hrun, -⟩, stopped, hstopped⟩ := h
  rw [hrun] at hstopped
  cases hstopped

/-- A run in two parts is stopped in the first one or in the second. -/
theorem Breaks.split {narrow wide : Parser α} {other next : α → Parser β} {first : α} {value : β}
    [hwidens : Widens narrow wide] [Forward wide] [∀ value, Forward (next value)]
    (h : Breaks (narrow >>= other) (wide >>= next) start value finish)
    (hfirst : Clean wide start first middle) :
    Breaks narrow wide start first middle ∨
      Breaks (other first) (next first) middle value finish := by
  obtain ⟨hclean, stopped, hstopped⟩ := h
  obtain ⟨same, place, hsame, hsecond⟩ := clean_bind_iff.1 hclean
  cases hfirst.1.symm.trans hsame.1
  rcases bind_eq_error.1 hstopped with hstopped | ⟨same, place, hsame, hstopped⟩
  · exact .inl ⟨hfirst, stopped, hstopped⟩
  · cases hfirst.1.symm.trans (hwidens.ok hsame)
    exact .inr ⟨hsecond, stopped, hstopped⟩

/-- A run is stopped in its first part if the rest is common to both. -/
theorem Breaks.first {narrow wide : Parser α} {next : α → Parser β} {value : β}
    [Widens narrow wide] [Forward wide] [∀ value, Forward (next value)]
    (h : Breaks (narrow >>= next) (wide >>= next) start value finish) :
    ∃ first middle, Breaks narrow wide start first middle ∧
      Clean (next first) middle value finish := by
  obtain ⟨first, middle, hfirst, hsecond⟩ := clean_bind_iff.1 h.1
  exact ⟨first, middle, (h.split hfirst).resolve_right not_breaks_self, hsecond⟩

/-- A run whose first part is common to both is stopped behind it. -/
theorem Breaks.behind {parser : Parser α} {other next : α → Parser β} {value : β}
    [Forward parser] [∀ value, Forward (next value)]
    (h : Breaks (parser >>= other) (parser >>= next) start value finish) :
    ∃ first middle, Clean parser start first middle ∧
      Breaks (other first) (next first) middle value finish := by
  obtain ⟨first, middle, hfirst, -⟩ := clean_bind_iff.1 h.1
  exact ⟨first, middle, hfirst, (h.split hfirst).resolve_left not_breaks_self⟩

/-- A look at the next kind stops no run. -/
theorem Breaks.peek {other next : Kind → Parser α} {value : α}
    (h : Breaks (peek >>= other) (peek >>= next) start value finish) :
    Breaks (other start.next) (next start.next) start value finish :=
  h

/-- A run is stopped in an attempt only where it is stopped in what is attempted. -/
theorem Breaks.attempt {narrow wide : Parser α} [Forward wide] {value : Option α}
    (h : Breaks (attempt narrow) (attempt wide) start value finish) :
    ∃ node, value = some node ∧ Breaks narrow wide start node finish := by
  obtain ⟨hclean, stopped, hstopped⟩ := h
  obtain ⟨node, rfl, hnode⟩ := hclean.attempt
  exact ⟨node, rfl, hnode, stopped, (attempt_eq_error hstopped).2⟩

/-- A first item and those behind it are stopped in one or the other. -/
theorem cons_breaks {narrow wide : Parser α} {others more : Parser (List α)}
    [Widens narrow wide] [Forward wide] [Widens others more] [Forward more] {values : List α}
    (h : Breaks (do let value ← narrow; let values ← others; return value :: values)
      (do let value ← wide; let values ← more; return value :: values) start values finish) :
    ∃ value rest, values = value :: rest ∧
      ((∃ before behind, Breaks narrow wide before value behind) ∨
        ∃ before behind, Breaks others more before rest behind) := by
  obtain ⟨value, place, hvalue, hclean⟩ := clean_bind_iff.1 h.1
  obtain ⟨rest, last, hrest, hclean⟩ := clean_bind_iff.1 hclean
  obtain ⟨rfl, rfl⟩ := clean_pure_iff.1 hclean
  refine ⟨value, rest, rfl, ?_⟩
  rcases h.split hvalue with hbreak | h
  · exact .inl ⟨_, _, hbreak⟩
  · exact .inr ⟨_, _, (h.split hrest).resolve_right not_breaks_self⟩

/-- A list of items is stopped in one of them. -/
theorem moreItems_breaks {close : Kind} {narrow wide : Parser α} [Widens narrow wide]
    [Forward wide] {turns : Nat} {values : List α}
    (h : Breaks (moreItems close narrow turns) (moreItems close wide turns) start values finish) :
    ∃ value ∈ values, ∃ before behind, Breaks narrow wide before value behind := by
  induction turns generalizing start finish values with
  | zero => exact absurd h not_breaks_self
  | succ turns ih =>
      have hwiden := widens_moreItems close narrow wide (Nat.le_refl turns)
      obtain ⟨found, _, -, h⟩ := h.behind
      cases found with
      | false => exact absurd h not_breaks_self
      | true =>
          obtain ⟨value, rest, rfl, hbreak | ⟨_, _, hbreak⟩⟩ := cons_breaks h
          · exact ⟨value, List.mem_cons_self, hbreak⟩
          · obtain ⟨inner, hinner, hbreak⟩ := ih hbreak
            exact ⟨inner, List.mem_cons_of_mem _ hinner, hbreak⟩

/-- A run that is stopped in a list is stopped in one of its items. -/
theorem items_breaks {close : Kind} {narrow wide : Parser α} [Widens narrow wide]
    [Forward wide] {turns : Nat} {values : List α}
    (h : Breaks (items close narrow turns) (items close wide turns) start values finish) :
    ∃ value ∈ values, ∃ before behind, Breaks narrow wide before value behind := by
  have hwiden := widens_moreItems close narrow wide (Nat.le_refl turns)
  obtain ⟨found, _, -, h⟩ := h.behind
  cases found with
  | true => exact absurd h not_breaks_self
  | false =>
      obtain ⟨value, rest, rfl, hbreak | ⟨_, _, hbreak⟩⟩ := cons_breaks h
      · exact ⟨value, List.mem_cons_self, hbreak⟩
      · obtain ⟨inner, hinner, hbreak⟩ := moreItems_breaks hbreak
        exact ⟨inner, List.mem_cons_of_mem _ hinner, hbreak⟩

end Combinators

section Constructs

/-- A node that `answer` holds of stands in the node. -/
def Inside (answer : Node → Prop) (node : Node) : Prop :=
  ∃ part, answer part ∧ node.Contains part

/-- A phrase that the first parser is stopped in is one that the second gives, and `answer` holds
of it. -/
def Answered (answer : Node → Prop) (narrow wide : Phrase → Parser Node) : Prop :=
  ∀ {phrase start node finish}, Breaks (narrow phrase) (wide phrase) start node finish → answer node

variable {answer : Node → Prop}

theorem Inside.self {node : Node} (h : answer node) : Inside answer node :=
  ⟨node, h, .self⟩

/-- What is inside a part is inside the whole. -/
theorem Inside.contained {node inner : Node} (h : Inside answer inner)
    (hinner : node.Contains inner) : Inside answer node := by
  obtain ⟨part, hpart, hcontains⟩ := h
  exact ⟨part, hpart, hinner.trans hcontains⟩

/-- What is inside a child is inside its parent. -/
theorem Inside.child {node inner : Node} (h : Inside answer inner)
    (hinner : inner ∈ node.children) : Inside answer node :=
  h.contained (.child hinner .self)

/-- A child that is an answer is inside its parent. -/
theorem Inside.of_answer {node inner : Node} (h : answer inner)
    (hinner : inner ∈ node.children) : Inside answer node :=
  (Inside.self h).child hinner

variable {narrow wide : Phrase → Parser Node} [∀ phrase, Widens (narrow phrase) (wide phrase)]
  [∀ phrase, Forward (wide phrase)]
  (hphrase : Answered answer narrow wide) {start finish : State} {node : Node} {token : Token}
  {bound : Nat}

include hphrase

/-- A run that is stopped in a pair is stopped in its key or in its value. -/
theorem mapPair_breaks {pair : Node × Node}
    (h : Breaks (mapPair narrow) (mapPair wide) start pair finish) :
    answer pair.1 ∨ answer pair.2 := by
  have hclean := h.1
  simp only [mapPair, clean_bind_iff, clean_pure_iff] at hclean
  obtain ⟨key, _, hkey, colon, _, hcolon, value, _, hvalue, rfl, rfl⟩ := hclean
  rcases h.split hkey with hbreak | h
  · exact .inl (hphrase hbreak)
  · obtain ⟨_, _, -, h⟩ := h.behind
    obtain ⟨value, _, hbreak, hclean⟩ := h.first
    obtain ⟨hpair, -⟩ := clean_pure_iff.1 hclean
    rw [hpair]
    exact .inr (hphrase hbreak)

/-- The test, the first block or the second one. -/
theorem choice_breaks (h : Breaks (choice narrow token) (choice wide token) start node finish) :
    Inside answer node := by
  have hclean := h.1
  simp only [choice, clean_bind_iff] at hclean
  obtain ⟨_, _, hparen, test, _, htest, _, _, hclose, yes, _, hyes, found, _, hfound, hlast⟩ :=
    hclean
  replace h := (h.split hparen).resolve_left not_breaks_self
  -- One after the other: the run is stopped in the test, in the first block, or in the second one.
  cases found with
  | true =>
      obtain ⟨no, _, hno, hlast⟩ := clean_bind_iff.1 hlast
      obtain ⟨rfl, rfl⟩ := clean_pure_iff.1 hlast
      rcases h.split htest with hbreak | h
      · exact .of_answer (hphrase hbreak) (by simp [Node.children])
      · replace h := (h.split hclose).resolve_left not_breaks_self
        rcases h.split hyes with hbreak | h
        · exact .of_answer (hphrase hbreak) (by simp [Node.children])
        · replace h := (h.split hfound).resolve_left not_breaks_self
          have hbreak := (h.split hno).resolve_right not_breaks_self
          exact .of_answer (hphrase hbreak) (by simp [Node.children])
  | false =>
      obtain ⟨rfl, rfl⟩ := clean_pure_iff.1 hlast
      rcases h.split htest with hbreak | h
      · exact .of_answer (hphrase hbreak) (by simp [Node.children])
      · replace h := (h.split hclose).resolve_left not_breaks_self
        have hbreak := (h.split hyes).resolve_right fun h =>
          not_breaks_self ((h.split hfound).resolve_left not_breaks_self)
        exact .of_answer (hphrase hbreak) (by simp [Node.children])

/-- The body: parameters are no phrases. -/
theorem function_breaks
    (h : Breaks (function narrow bound token) (function wide bound token) start node finish) :
    Inside answer node := by
  obtain ⟨_, _, -, h⟩ := h.behind
  obtain ⟨parameters, _, -, h⟩ := h.behind
  obtain ⟨body, _, hbreak, hclean⟩ := h.first
  obtain ⟨rfl, -⟩ := clean_pure_iff.1 hclean
  exact .of_answer (hphrase hbreak) (by simp [Node.children])

theorem operandAt_breaks
    (h : Breaks (operandAt narrow bound token) (operandAt wide bound token) start node finish) :
    Inside answer node := by
  unfold operandAt at h
  generalize token.kind = kind at h
  cases kind with
  | bang | minus =>
      obtain ⟨operand, _, hbreak, hclean⟩ := h.first
      obtain ⟨rfl, -⟩ := clean_pure_iff.1 hclean
      exact .of_answer (hphrase hbreak) (by simp [Node.children])
  | openParen =>
      obtain ⟨inner, _, hbreak, hclean⟩ := h.first
      obtain ⟨_, _, -, hclean⟩ := clean_bind_iff.1 hclean
      obtain ⟨rfl, -⟩ := clean_pure_iff.1 hclean
      exact .self (hphrase hbreak)
  | openBracket =>
      have hwiden := widens_items .closeBracket (narrow (.expression 0)) (wide (.expression 0))
        (Nat.le_refl bound)
      obtain ⟨elements, _, hbreak, hclean⟩ := h.first
      obtain ⟨rfl, -⟩ := clean_pure_iff.1 hclean
      obtain ⟨element, helement, _, _, hbreak⟩ := items_breaks hbreak
      exact .of_answer (hphrase hbreak) helement
  | openBrace =>
      have hwiden := widens_items .closeBrace (mapPair narrow) (mapPair wide) (Nat.le_refl bound)
      obtain ⟨pairs, _, hbreak, hclean⟩ := h.first
      obtain ⟨rfl, -⟩ := clean_pure_iff.1 hclean
      obtain ⟨pair, hpair, _, _, hbreak⟩ := items_breaks hbreak
      have hchildren : pair.1 ∈ (Node.map (some token) pairs).children ∧
          pair.2 ∈ (Node.map (some token) pairs).children := by
        simp only [Node.children, List.mem_flatMap]
        exact ⟨⟨pair, hpair, by simp⟩, ⟨pair, hpair, by simp⟩⟩
      rcases mapPair_breaks hphrase hbreak with hkey | hvalue
      · exact .of_answer hkey hchildren.1
      · exact .of_answer hvalue hchildren.2
  | wordIf => exact choice_breaks hphrase h
  | wordFn => exact function_breaks hphrase h
  | _ => exact absurd h not_breaks_self

theorem operand_breaks
    (h : Breaks (operand narrow bound) (operand wide bound) start node finish) :
    Inside answer node := by
  obtain ⟨last, _ | ⟨token, rest⟩, errors⟩ := start
  · exact absurd h.1 not_clean_fail
  · have h : Breaks (operandAt narrow bound token) (operandAt wide bound token)
        ⟨token.kind, rest, errors⟩ node finish := h
    exact operandAt_breaks hphrase h

/-- What stands behind the left side, by the kind of the token between them. -/
theorem application_breaks {left : Node}
    (h : Breaks (application narrow bound token left) (application wide bound token left) start
      node finish) :
    Inside answer node := by
  unfold application at h
  generalize token.kind = kind at h
  cases kind with
  | openParen =>
      have hwiden := widens_items .closeParen (narrow (.expression 0)) (wide (.expression 0))
        (Nat.le_refl bound)
      obtain ⟨arguments, _, hbreak, hclean⟩ := h.first
      obtain ⟨rfl, -⟩ := clean_pure_iff.1 hclean
      obtain ⟨argument, hargument, _, _, hbreak⟩ := items_breaks hbreak
      exact .of_answer (hphrase hbreak) (List.mem_cons_of_mem _ hargument)
  | openBracket =>
      obtain ⟨position, _, hbreak, hclean⟩ := h.first
      obtain ⟨_, _, -, hclean⟩ := clean_bind_iff.1 hclean
      obtain ⟨rfl, -⟩ := clean_pure_iff.1 hclean
      exact .of_answer (hphrase hbreak) (by simp [Node.children])
  | dot => exact absurd h not_breaks_self
  | _ =>
      obtain ⟨right, _, hbreak, hclean⟩ := h.first
      obtain ⟨rfl, -⟩ := clean_pure_iff.1 hclean
      exact .of_answer (hphrase hbreak) (by simp [Node.children])

omit hphrase [∀ phrase, Widens (narrow phrase) (wide phrase)] in
/-- What an operator is applied to stands in the application. -/
theorem left_mem_of_application {left : Node}
    (h : Clean (application wide bound token left) start node finish) : left ∈ node.children := by
  unfold application at h
  split at h
  case h_2 =>
      simp only [clean_bind_iff, clean_pure_iff] at h
      obtain ⟨_, _, -, _, _, -, rfl, -⟩ := h
      simp [Node.children]
  all_goals
    simp only [clean_bind_iff, clean_pure_iff] at h
    obtain ⟨_, _, -, rfl, -⟩ := h
    simp [Node.children]

omit hphrase [∀ phrase, Widens (narrow phrase) (wide phrase)] in
/-- The operand that operators are applied to stands in the whole. -/
theorem contains_of_climb {power turns : Nat} {left : Node}
    (h : Clean (climb wide bound power turns left) start node finish) : node.Contains left := by
  induction turns generalizing start left with
  | zero => exact absurd h not_clean_throw
  | succ turns ih =>
      obtain ⟨last, _ | ⟨token, rest⟩, errors⟩ := start
      · obtain ⟨rfl, -⟩ := clean_pure_iff.1 h
        exact .self
      · rw [climb, clean_peekToken_bind_iff] at h
        simp only [List.head?_cons] at h
        split at h
        · rw [clean_shift_bind_iff] at h
          obtain ⟨extended, _, hextended, h⟩ := clean_bind_iff.1 h
          exact (ih h).step (left_mem_of_application hextended)
        · obtain ⟨rfl, -⟩ := clean_pure_iff.1 h
          exact .self

/-- One of the right sides, by induction on the turns. -/
theorem climb_breaks {power turns : Nat} {left : Node}
    (h : Breaks (climb narrow bound power turns left) (climb wide bound power turns left) start
      node finish) :
    Inside answer node := by
  induction turns generalizing start left with
  | zero => exact absurd h not_breaks_self
  | succ turns ih =>
      obtain ⟨last, _ | ⟨token, rest⟩, errors⟩ := start
      · exact absurd h not_breaks_self
      · -- Both runs look at the same token, so they go on or end together.
        have h : Breaks
            (if power < token.kind.power then (do
              let _ ← shift
              let extended ← application narrow bound token left
              climb narrow bound power turns extended) else pure left)
            (if power < token.kind.power then (do
              let _ ← shift
              let extended ← application wide bound token left
              climb wide bound power turns extended) else pure left)
            ⟨last, token :: rest, errors⟩ node finish := h
        split at h
        · have happlication : Widens (application narrow bound token left)
              (application wide bound token left) := widens_application (Nat.le_refl _) token left
          obtain ⟨_, _, -, h⟩ := h.behind
          obtain ⟨extended, _, hextended, hclean⟩ := clean_bind_iff.1 h.1
          -- Stopped in the application, the phrase stands on the left of all that is applied later.
          rcases h.split hextended with hbreak | h
          · exact (application_breaks hphrase hbreak).contained (contains_of_climb hclean)
          · exact ih h
        · exact absurd h not_breaks_self

/-- The first operand or what climbs behind it. -/
theorem expression_breaks {power : Nat}
    (h : Breaks (expression narrow bound power) (expression wide bound power) start node finish) :
    Inside answer node := by
  have hoperand : Widens (operand narrow bound) (operand wide bound) :=
    widens_operand (Nat.le_refl _)
  obtain ⟨left, _, hleft, hclean⟩ := clean_bind_iff.1 h.1
  rcases h.split hleft with hbreak | h
  · exact (operand_breaks hphrase hbreak).contained (contains_of_climb hclean)
  · exact climb_breaks hphrase h

theorem declaration_breaks
    (h : Breaks (declaration narrow) (declaration wide) start node finish) :
    Inside answer node := by
  obtain ⟨origin, _, -, h⟩ := h.behind
  obtain ⟨name, _, -, h⟩ := h.behind
  obtain ⟨found, _, -, h⟩ := h.behind
  cases found with
  | true => exact absurd h not_breaks_self
  | false =>
      obtain ⟨_, _, -, h⟩ := h.behind
      obtain ⟨value, _, hbreak, hclean⟩ := h.first
      obtain ⟨_, _, -, hclean⟩ := clean_bind_iff.1 hclean
      obtain ⟨rfl, -⟩ := clean_pure_iff.1 hclean
      exact .of_answer (hphrase hbreak) (by simp [Node.children])

theorem returning_breaks (h : Breaks (returning narrow) (returning wide) start node finish) :
    Inside answer node := by
  obtain ⟨origin, _, -, h⟩ := h.behind
  obtain ⟨found, _, -, h⟩ := h.behind
  cases found with
  | true => exact absurd h not_breaks_self
  | false =>
      obtain ⟨value, _, hbreak, hclean⟩ := h.first
      obtain ⟨_, _, -, hclean⟩ := clean_bind_iff.1 hclean
      obtain ⟨rfl, -⟩ := clean_pure_iff.1 hclean
      exact .of_answer (hphrase hbreak) (by simp [Node.children])

theorem expressionStatement_breaks
    (h : Breaks (expressionStatement narrow) (expressionStatement wide) start node finish) :
    Inside answer node := by
  obtain ⟨origin, _, -, h⟩ := h.behind
  obtain ⟨body, _, hbreak, hclean⟩ := h.first
  obtain ⟨_, _, -, hclean⟩ := clean_bind_iff.1 hclean
  obtain ⟨rfl, -⟩ := clean_pure_iff.1 hclean
  exact .of_answer (hphrase hbreak) (by simp [Node.children])

theorem clause_breaks (h : Breaks (clause narrow) (clause wide) start node finish) :
    Inside answer node := by
  obtain ⟨kind, _, -, h⟩ := h.behind
  split at h
  · exact declaration_breaks hphrase h
  · exact expressionStatement_breaks hphrase h

omit hphrase [∀ phrase, Widens (narrow phrase) (wide phrase)]
  [∀ phrase, Forward (wide phrase)] in
theorem headerClause_breaks {parser other : Parser Node} [Widens parser other] [Forward other]
    {value : Option Node}
    (h : Breaks (headerClause parser) (headerClause other) start value finish) :
    ∃ node, value = some node ∧ ∃ before behind, Breaks parser other before node behind := by
  obtain ⟨found, _, -, h⟩ := h.behind
  cases found with
  | true => exact absurd h not_breaks_self
  | false =>
      obtain ⟨node, _, hbreak, hclean⟩ := h.first
      obtain ⟨_, _, -, hclean⟩ := clean_bind_iff.1 hclean
      obtain ⟨rfl, -⟩ := clean_pure_iff.1 hclean
      exact ⟨node, rfl, _, _, hbreak⟩

theorem lastClause_breaks {value : Option Node}
    (h : Breaks (lastClause narrow) (lastClause wide) start value finish) :
    ∃ node, value = some node ∧ Inside answer node := by
  obtain ⟨found, _, -, h⟩ := h.behind
  cases found with
  | true => exact absurd h not_breaks_self
  | false =>
      obtain ⟨node, _, hbreak, hclean⟩ := h.first
      obtain ⟨_, _, -, hclean⟩ := clean_bind_iff.1 hclean
      obtain ⟨rfl, -⟩ := clean_pure_iff.1 hclean
      exact ⟨node, rfl, clause_breaks hphrase hbreak⟩

/-- One of the clauses or the body. -/
theorem loop_breaks (h : Breaks (loop narrow) (loop wide) start node finish) :
    Inside answer node := by
  have hclean := h.1
  simp only [loop, clean_bind_iff, clean_pure_iff] at hclean
  obtain ⟨origin, _, horigin, _, _, hparen, first, _, hfirst, test, _, htest, step, _, hstep, body,
    _, hbody, rfl, rfl⟩ := hclean
  replace h := (h.split horigin).resolve_left not_breaks_self
  replace h := (h.split hparen).resolve_left not_breaks_self
  rcases h.split hfirst with hbreak | h
  · obtain ⟨clause, rfl, _, _, hbreak⟩ := headerClause_breaks hbreak
    exact (clause_breaks hphrase hbreak).child (by simp [Node.children])
  · rcases h.split htest with hbreak | h
    · obtain ⟨clause, rfl, _, _, hbreak⟩ := headerClause_breaks hbreak
      exact (expressionStatement_breaks hphrase hbreak).child (by simp [Node.children])
    · rcases h.split hstep with hbreak | h
      · obtain ⟨clause, rfl, hinside⟩ := lastClause_breaks hphrase hbreak
        exact hinside.child (by simp [Node.children])
      · have hbreak := (h.split hbody).resolve_right not_breaks_self
        exact .of_answer (hphrase hbreak) (by simp [Node.children])

/-- By the kind of the token that begins the statement. -/
theorem statement_breaks (h : Breaks (statement narrow) (statement wide) start node finish) :
    Inside answer node := by
  -- Looking ahead changes nothing, so both runs choose by the kind that is next at the start.
  rw [statement, statement] at h
  replace h := h.peek
  split at h
  · exact declaration_breaks hphrase h
  · exact returning_breaks hphrase h
  · exact loop_breaks hphrase h
  · exact expressionStatement_breaks hphrase h

/-- A first statement and those behind it are stopped in one or the other. -/
theorem turn_breaks {others more : Parser (List Node)} [Widens others more] [Forward more]
    {nodes : List Node}
    (h : Breaks
      (do let node ← attempt (statement narrow); let nodes ← others; return node.toList ++ nodes)
      (do let node ← attempt (statement wide); let nodes ← more; return node.toList ++ nodes)
      start nodes finish) :
    ∃ node rest, nodes = node :: rest ∧
      (Inside answer node ∨ ∃ before behind, Breaks others more before rest behind) := by
  obtain ⟨found, _, hfound, hclean⟩ := clean_bind_iff.1 h.1
  obtain ⟨node, rfl, -⟩ := hfound.attempt
  obtain ⟨rest, _, hrest, hclean⟩ := clean_bind_iff.1 hclean
  obtain ⟨rfl, -⟩ := clean_pure_iff.1 hclean
  refine ⟨node, rest, rfl, ?_⟩
  rcases h.split hfound with hbreak | h
  · obtain ⟨same, hsame, hbreak⟩ := hbreak.attempt
    cases hsame
    exact .inl (statement_breaks hphrase hbreak)
  · exact .inr ⟨_, _, (h.split hrest).resolve_right not_breaks_self⟩

theorem blockStatements_breaks {turns : Nat} {nodes : List Node}
    (h : Breaks (blockStatements narrow turns) (blockStatements wide turns) start nodes finish) :
    ∃ node ∈ nodes, Inside answer node := by
  induction turns generalizing start finish nodes with
  | zero => exact absurd h not_breaks_self
  | succ turns ih =>
      have hwiden : Widens (blockStatements narrow turns) (blockStatements wide turns) :=
        widens_blockStatements (Nat.le_refl _)
      rw [blockStatements, blockStatements] at h
      replace h := h.peek
      split at h
      · exact absurd h not_breaks_self
      · exact absurd h not_breaks_self
      · obtain ⟨node, rest, rfl, hinside | ⟨_, _, hbreak⟩⟩ := turn_breaks hphrase h
        · exact ⟨node, List.mem_cons_self, hinside⟩
        · obtain ⟨inner, hinner, hinside⟩ := ih hbreak
          exact ⟨inner, List.mem_cons_of_mem _ hinner, hinside⟩

theorem block_breaks (h : Breaks (block narrow bound) (block wide bound) start node finish) :
    Inside answer node := by
  have hwiden : Widens (blockStatements narrow bound) (blockStatements wide bound) :=
    widens_blockStatements (Nat.le_refl _)
  obtain ⟨token, _, -, h⟩ := h.behind
  obtain ⟨statements, _, hbreak, hclean⟩ := h.first
  obtain ⟨rfl, -⟩ := clean_pure_iff.1 hclean
  obtain ⟨inner, hinner, hinside⟩ := blockStatements_breaks hphrase hbreak
  exact hinside.child hinner

theorem programStatements_breaks {turns : Nat} {nodes : List Node}
    (h : Breaks (programStatements narrow turns) (programStatements wide turns) start nodes
      finish) :
    ∃ node ∈ nodes, Inside answer node := by
  induction turns generalizing start finish nodes with
  | zero => exact absurd h not_breaks_self
  | succ turns ih =>
      have hwiden : Widens (programStatements narrow turns) (programStatements wide turns) :=
        widens_programStatements (Nat.le_refl _)
      rw [programStatements, programStatements] at h
      replace h := h.peek
      split at h
      · exact absurd h not_breaks_self
      · obtain ⟨node, rest, rfl, hinside | ⟨_, _, hbreak⟩⟩ := turn_breaks hphrase h
        · exact ⟨node, List.mem_cons_self, hinside⟩
        · obtain ⟨inner, hinner, hinside⟩ := ih hbreak
          exact ⟨inner, List.mem_cons_of_mem _ hinner, hinside⟩

end Constructs

section Cutting

variable {parser : Phrase → Parser Node} {phrase : Phrase} {state : State}

instance (other : Phrase) : Widens (cut parser phrase state other) (parser other) where
  run start := by
    by_cases hcall : other = phrase ∧ start = state
    · exact .inl ⟨start, if_pos hcall⟩
    · exact .inr (if_neg hcall).symm

/-- What a call that is cut would have given. -/
theorem answered_cut :
    Answered (fun node => ∃ final, Clean (parser phrase) state node final)
      (cut parser phrase state) parser := by
  intro other start node finish h
  by_cases hcall : other = phrase ∧ start = state
  · obtain ⟨rfl, rfl⟩ := hcall
    exact ⟨finish, h.1⟩
  · obtain ⟨⟨hrun, -⟩, stopped, hstopped⟩ := h
    rw [cut, if_neg hcall, hrun] at hstopped
    cases hstopped

/-- What a construct asks for is given, and stands in its node. -/
theorem construct_asks [∀ phrase, Forward (parser phrase)] {bound : Nat} {outer : Phrase}
    {start finish : State} {node : Node}
    (h : Asks (construct bound outer) parser start phrase state)
    (hclean : Clean (construct bound outer parser) start node finish) :
    ∃ part, (∃ final, Clean (parser phrase) state part final) ∧ node.Contains part := by
  cases outer with
  | expression power => exact expression_breaks answered_cut ⟨hclean, state, h⟩
  | block => exact block_breaks answered_cut ⟨hclean, state, h⟩

end Cutting

/-- Every call made in reading a program without an error gives a node of the program. -/
theorem clean_of_called {tokens : List Token} {nodes : List Node} {finish : State}
    (hrun : readTokens tokens = .ok nodes finish) (herrors : finish.errors = []) {bound : Nat}
    {phrase : Phrase} {state : State} (h : Called tokens bound phrase state) :
    ∃ node final, Clean (nested bound phrase) state node final ∧
      (Node.program nodes).Contains node := by
  -- Along the calls that lead to this one: each is made by a construct that was read without an
  -- error, so cutting it breaks that construct.
  induction h with
  | program hasks =>
      obtain ⟨node, hnode, part, ⟨final, hpart⟩, hcontains⟩ :=
        programStatements_breaks answered_cut ⟨⟨hrun, herrors⟩, _, hasks⟩
      exact ⟨part, final, hpart, .child hnode hcontains⟩
  | inside _ hasks ih =>
      obtain ⟨node, _, hnode, hcontains⟩ := ih
      rw [nested_succ] at hnode
      obtain ⟨part, ⟨final, hpart⟩, hinner⟩ := construct_asks hasks hnode
      exact ⟨part, final, hpart, hcontains.trans hinner⟩

section Lists

variable {parser : Phrase → Parser Node} [∀ phrase, Forward (parser phrase)] {turns : Nat}
  {start finish : State} {nodes : List Node}

/-- The first attempt and those behind it. -/
theorem attempts_cons {ends : List Kind} {more : Parser (List Node)} [Forward more]
    (hnext : start.next ∉ ends)
    (hmore : ∀ {middle rest}, Clean more middle rest finish →
      attempts parser ends turns middle = rest.map some)
    (h : Clean
      (do let node ← attempt (statement parser); let nodes ← more; return node.toList ++ nodes)
      start nodes finish) :
    attempts parser ends (turns + 1) start = nodes.map some := by
  obtain ⟨found, middle, hfound, h⟩ := clean_bind_iff.1 h
  obtain ⟨rest, last, hrest, h⟩ := clean_bind_iff.1 h
  obtain ⟨rfl, rfl⟩ := clean_pure_iff.1 h
  obtain ⟨node, rfl, -⟩ := hfound.attempt
  rw [attempts, if_neg hnext, hfound.1]
  exact congrArg _ (hmore hrest)

/-- In a list of statements that is read without an error every call gives a node, and the list
holds them in turn. -/
theorem attempts_of_programStatements
    (h : Clean (programStatements parser turns) start nodes finish) :
    attempts parser [.eof] turns start = nodes.map some := by
  induction turns generalizing start nodes with
  | zero => exact absurd h not_clean_throw
  | succ turns ih =>
      rw [programStatements, clean_peek_bind_iff] at h
      split at h
      · next hnext =>
          obtain ⟨rfl, -⟩ := clean_pure_iff.1 h
          rw [attempts, if_pos (List.mem_singleton.2 hnext), List.map_nil]
      · next hnext => exact attempts_cons (by simpa using hnext) ih h

/-- The statements of a block are attempted up to its brace or the end. -/
theorem attempts_of_blockStatements
    (h : Clean (blockStatements parser turns) start nodes finish) :
    attempts parser [.closeBrace, .eof] turns start = nodes.map some := by
  induction turns generalizing start nodes with
  | zero => exact absurd h not_clean_throw
  | succ turns ih =>
      rw [blockStatements, clean_peek_bind_iff] at h
      split at h
      · next hnext =>
          obtain ⟨_, _, -, h⟩ := clean_bind_iff.1 h
          obtain ⟨rfl, -⟩ := clean_pure_iff.1 h
          rw [attempts, if_pos (by simp [hnext]), List.map_nil]
      · exact absurd h not_clean_fail
      · next hclose heof => exact attempts_cons (by simpa using ⟨hclose, heof⟩) ih h

end Lists

end Scriptlet.Parser
