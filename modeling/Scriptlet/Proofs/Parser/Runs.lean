import Scriptlet.Parser.Program

/-!
# Runs of parsers

Whatever a parser does, it moves forward: it reads tokens from the front of what is unread,
remembers the kind of the last one, and adds to the errors. A construct that is missing has added
an error. `Forward` states this once for every parser; `Clean` is a run that succeeds without an
error, and its lemmas take such a run apart.
-/

namespace Scriptlet.Parser

/-- The second state can come after the first one. -/
structure State.Reaches (start finish : State) : Prop where
  read : ∃ read, start.rest = read ++ finish.rest ∧
    finish.last = (read.getLast?.map Token.kind).getD start.last
  errors : start.errors <+: finish.errors

namespace State

variable {start middle finish : State}

theorem Reaches.refl (state : State) : state.Reaches state :=
  ⟨⟨[], by simp⟩, List.prefix_refl _⟩

/-- What is reached from a state that was reached is reached. -/
theorem Reaches.trans (h : start.Reaches middle) (hnext : middle.Reaches finish) :
    start.Reaches finish := by
  obtain ⟨⟨read, hrest, hlast⟩, herrors⟩ := h
  obtain ⟨⟨more, hmore, hnextLast⟩, hnextErrors⟩ := hnext
  refine ⟨⟨read ++ more, by rw [hrest, hmore, List.append_assoc], ?_⟩,
    herrors.trans hnextErrors⟩
  rw [hnextLast, hlast, List.getLast?_append]
  cases more.getLast? <;> rfl

/-- Reading one token. -/
theorem Reaches.token (last : Kind) (token : Token) (rest : List Token)
    (errors : List SyntaxError) :
    Reaches ⟨last, token :: rest, errors⟩ ⟨token.kind, rest, errors⟩ :=
  ⟨⟨[token], by simp⟩, List.prefix_refl _⟩

/-- Reporting one error. -/
theorem Reaches.report (state : State) (error : SyntaxError) : state.Reaches (state.report error) :=
  ⟨⟨[], by simp [State.report]⟩, List.prefix_append _ _⟩

/-- A reported error is one more. -/
theorem report_errors_ne (state : State) (error : SyntaxError) :
    (state.report error).errors ≠ state.errors := by
  simp [State.report]

/-- Errors that are gone at the end of two stretches were never there. -/
theorem Reaches.errors_eq (h : start.Reaches middle) (hnext : middle.Reaches finish)
    (heq : finish.errors = start.errors) : middle.errors = start.errors := by
  have hprefix := hnext.errors
  rw [heq] at hprefix
  exact hprefix.eq_of_length_le h.errors.length_le

end State

/-- Every run of the parser moves forward, and reports something when it finds its construct
missing. -/
class Forward {α : Type} (parser : Parser α) : Prop where
  ok {start : State} {value : α} {finish : State} :
    parser start = .ok value finish → start.Reaches finish
  error {start : State} {stop : Stop} {finish : State} :
    parser start = .error stop finish →
      start.Reaches finish ∧ (stop = .missing → finish.errors ≠ start.errors)

section Combinators

variable {α β : Type}

/-- Parsers one behind the other succeed if both do. -/
theorem bind_eq_ok {parser : Parser α} {next : α → Parser β} {start finish : State} {value : β} :
    (parser >>= next) start = .ok value finish ↔
      ∃ first middle, parser start = .ok first middle ∧ next first middle = .ok value finish := by
  show EStateM.bind parser next start = _ ↔ _
  unfold EStateM.bind
  cases parser start <;> simp [and_assoc]

/-- Parsers one behind the other stop if one of them does. -/
theorem bind_eq_error {parser : Parser α} {next : α → Parser β} {start finish : State}
    {stop : Stop} :
    (parser >>= next) start = .error stop finish ↔
      parser start = .error stop finish ∨
        ∃ first middle, parser start = .ok first middle ∧
          next first middle = .error stop finish := by
  show EStateM.bind parser next start = _ ↔ _
  unfold EStateM.bind
  cases parser start <;> simp [and_assoc]

instance (value : α) : Forward (pure value) where
  ok h := by cases h; exact .refl _
  error h := by cases h

/-- Parsers one behind the other go forward if both do. -/
theorem Forward.bind {parser : Parser α} {next : α → Parser β} [hparser : Forward parser]
    (hnext : ∀ value, Forward (next value)) : Forward (parser >>= next) where
  ok h := by
    obtain ⟨first, middle, hfirst, hsecond⟩ := bind_eq_ok.1 h
    exact (hparser.ok hfirst).trans ((hnext first).ok hsecond)
  error h := by
    rcases bind_eq_error.1 h with h | ⟨first, middle, hfirst, hsecond⟩
    · exact hparser.error h
    · have hmiddle := hparser.ok hfirst
      obtain ⟨hfinish, hgrown⟩ := (hnext first).error hsecond
      refine ⟨hmiddle.trans hfinish, fun hstop heq => hgrown hstop ?_⟩
      rw [heq, hmiddle.errors_eq hfinish heq]

instance (parser : Parser α) (next : α → Parser β) [Forward parser]
    [hnext : ∀ value, Forward (next value)] : Forward (parser >>= next) :=
  .bind hnext

instance {condition : Prop} [Decidable condition] (yes no : Parser α) [Forward yes]
    [Forward no] : Forward (if condition then yes else no) := by
  split <;> infer_instance

end Combinators

section Primitives

variable {α : Type}

instance (error : SyntaxError) : Forward (fail error : Parser α) where
  ok h := by cases h
  error h := by
    cases h
    exact ⟨.report _ _, fun _ => State.report_errors_ne _ _⟩

instance (digits : Nat) : Forward (throw (.oversized digits) : Parser α) where
  ok h := by cases h
  error h := by
    cases h
    exact ⟨.refl _, nofun⟩

instance : Forward (throw .exhausted : Parser α) where
  ok h := by cases h
  error h := by
    cases h
    exact ⟨.refl _, nofun⟩

instance : Forward peek where
  ok h := by cases h; exact .refl _
  error h := by cases h

instance : Forward peekToken where
  ok h := by cases h; exact .refl _
  error h := by cases h

instance : Forward shift where
  ok {start _ _} h := by
    obtain ⟨last, _ | ⟨token, rest⟩, errors⟩ := start <;> cases h
    · exact .refl _
    · exact .token ..
  error {start _ _} h := by
    obtain ⟨last, _ | ⟨token, rest⟩, errors⟩ := start <;> cases h

instance (kind : Kind) : Forward (accept kind) where
  ok {start _ _} h := by
    obtain ⟨last, _ | ⟨token, rest⟩, errors⟩ := start
    · cases h; exact .refl _
    · simp only [accept] at h
      split at h <;> cases h
      · exact .token ..
      · exact .refl _
  error {start _ _} h := by
    obtain ⟨last, _ | ⟨token, rest⟩, errors⟩ := start
    · cases h
    · simp only [accept] at h
      split at h <;> cases h

instance (kind : Kind) : Forward (expect kind) where
  ok {start _ _} h := by
    obtain ⟨last, _ | ⟨token, rest⟩, errors⟩ := start
    · cases h
    · simp only [expect] at h
      split at h <;> cases h
      exact .token ..
  error {start _ _} h := by
    obtain ⟨last, _ | ⟨token, rest⟩, errors⟩ := start
    · cases h
      exact ⟨.report _ _, fun _ => State.report_errors_ne _ _⟩
    · simp only [expect] at h
      split at h <;> cases h
      exact ⟨.report _ _, fun _ => State.report_errors_ne _ _⟩

instance (kind : Kind) : Forward (expectRead kind) where
  ok h := by
    simp only [expectRead] at h
    split at h <;> cases h
    exact .refl _
  error h := by
    simp only [expectRead] at h
    split at h <;> cases h
    exact ⟨.report _ _, fun _ => State.report_errors_ne _ _⟩

instance (parser : Parser α) [hparser : Forward parser] : Forward (attempt parser) where
  ok h := by
    simp only [attempt] at h
    split at h
    · next hrun => cases h; exact hparser.ok hrun
    · next hrun => cases h; exact (hparser.error hrun).1
    · cases h
  error h := by
    simp only [attempt] at h
    split at h
    · cases h
    · cases h
    · next hmissing hrun =>
        cases h
        exact ⟨(hparser.error hrun).1, fun hstop => absurd hstop hmissing⟩

end Primitives

section Constructs

variable {α : Type} {phrase : Phrase → Parser Node}

instance forward_moreItems (close : Kind) (item : Parser α) [Forward item] (bound : Nat) :
    Forward (moreItems close item bound) := by
  induction bound with
  | zero => unfold moreItems; infer_instance
  | succ bound ih => unfold moreItems; infer_instance

instance (close : Kind) (item : Parser α) [Forward item] (bound : Nat) :
    Forward (items close item bound) := by
  unfold items
  infer_instance

instance (token : Token) : Forward (integerLiteral token) := by
  unfold integerLiteral
  infer_instance

instance : Forward parameter := by
  unfold parameter
  exact .bind fun origin => by split <;> infer_instance

variable [∀ phrased, Forward (phrase phrased)]

instance : Forward (mapPair phrase) := by
  unfold mapPair
  infer_instance

instance (token : Token) : Forward (choice phrase token) := by
  unfold choice
  infer_instance

instance (bound : Nat) (token : Token) : Forward (function phrase bound token) := by
  unfold function
  infer_instance

instance (bound : Nat) (token : Token) : Forward (operandAt phrase bound token) := by
  unfold operandAt
  split <;> infer_instance

instance (bound : Nat) : Forward (operand phrase bound) := by
  unfold operand
  exact .bind fun origin => by split <;> infer_instance

instance (bound : Nat) (token : Token) (left : Node) :
    Forward (application phrase bound token left) := by
  unfold application
  split <;> infer_instance

instance forward_climb (bound power turns : Nat) (left : Node) :
    Forward (climb phrase bound power turns left) := by
  induction turns generalizing left with
  | zero => unfold climb; infer_instance
  | succ turns ih =>
      unfold climb
      exact .bind fun origin => by split <;> infer_instance

instance (bound power : Nat) : Forward (expression phrase bound power) := by
  unfold expression
  infer_instance

instance : Forward (declaration phrase) := by
  unfold declaration
  infer_instance

instance : Forward (returning phrase) := by
  unfold returning
  infer_instance

instance : Forward (expressionStatement phrase) := by
  unfold expressionStatement
  infer_instance

instance : Forward (clause phrase) := by
  unfold clause
  infer_instance

omit [∀ phrased, Forward (phrase phrased)] in
instance (parser : Parser Node) [Forward parser] : Forward (headerClause parser) := by
  unfold headerClause
  infer_instance

instance : Forward (lastClause phrase) := by
  unfold lastClause
  infer_instance

instance : Forward (loop phrase) := by
  unfold loop
  infer_instance

instance : Forward (statement phrase) := by
  unfold statement
  exact .bind fun kind => by split <;> infer_instance

instance forward_blockStatements (turns : Nat) : Forward (blockStatements phrase turns) := by
  induction turns with
  | zero => unfold blockStatements; infer_instance
  | succ turns ih =>
      unfold blockStatements
      exact .bind fun kind => by split <;> infer_instance

instance (bound : Nat) : Forward (block phrase bound) := by
  unfold block
  infer_instance

instance forward_programStatements (turns : Nat) :
    Forward (programStatements phrase turns) := by
  induction turns with
  | zero => unfold programStatements; infer_instance
  | succ turns ih =>
      unfold programStatements
      exact .bind fun kind => by split <;> infer_instance

end Constructs

section Turns

variable {phrase : Phrase → Parser Node} {turns : Nat} {start : State}

/-- Looking at the next kind changes nothing. -/
theorem peek_bind {α : Type} (next : Kind → Parser α) :
    (peek >>= next) start = next start.next start :=
  rfl

/-- At the end of the text a list of statements ends. -/
theorem programStatements_end (h : start.next = .eof) :
    programStatements phrase (turns + 1) start = .ok [] start := by
  rw [programStatements, peek_bind, h]
  rfl

/-- Before the end of the text a list of statements goes on with one of them. -/
theorem programStatements_step (h : start.next ≠ .eof) :
    programStatements phrase (turns + 1) start = (do
      let node ← attempt (statement phrase)
      let nodes ← programStatements phrase turns
      return node.toList ++ nodes) start := by
  rw [programStatements, peek_bind]
  generalize start.next = kind at h
  cases kind <;> first | rfl | exact absurd rfl h

end Turns

instance forward_nested (bound : Nat) (phrase : Phrase) : Forward (nested bound phrase) := by
  induction bound generalizing phrase with
  | zero => unfold nested; infer_instance
  | succ bound ih => cases phrase <;> (unfold nested; infer_instance)

section Clean

variable {α β : Type}

/-- The run gives the value without reporting anything. -/
def Clean (parser : Parser α) (start : State) (value : α) (finish : State) : Prop :=
  parser start = .ok value finish ∧ finish.errors = start.errors

variable {start finish : State}

/-- Parsers one behind the other run without an error if both do. -/
theorem clean_bind_iff {parser : Parser α} {next : α → Parser β} {value : β}
    [hparser : Forward parser] [hnext : ∀ value, Forward (next value)] :
    Clean (parser >>= next) start value finish ↔
      ∃ first middle, Clean parser start first middle ∧ Clean (next first) middle value finish := by
  constructor
  · intro hclean
    obtain ⟨hrun, herrors⟩ := hclean
    obtain ⟨first, middle, hfirst, hsecond⟩ := bind_eq_ok.1 hrun
    have hmiddle := (hparser.ok hfirst).errors_eq ((hnext first).ok hsecond) herrors
    exact ⟨first, middle, ⟨hfirst, hmiddle⟩, hsecond, herrors.trans hmiddle.symm⟩
  · intro hsteps
    obtain ⟨first, middle, ⟨hfirst, hmiddle⟩, hsecond, herrors⟩ := hsteps
    exact ⟨bind_eq_ok.2 ⟨first, middle, hfirst, hsecond⟩, herrors.trans hmiddle⟩

theorem clean_pure_iff {value result : α} :
    Clean (pure value) start result finish ↔ result = value ∧ finish = start := by
  constructor
  · intro hclean
    obtain ⟨hrun, -⟩ := hclean
    cases hrun
    exact ⟨rfl, rfl⟩
  · intro hsame
    obtain ⟨rfl, rfl⟩ := hsame
    exact ⟨rfl, rfl⟩

/-- A run with an error is not clean. -/
theorem not_clean_fail {error : SyntaxError} {value : α} :
    ¬ Clean (fail error) start value finish :=
  fun h => nomatch h.1

theorem not_clean_throw {stop : Stop} {value : α} : ¬ Clean (throw stop) start value finish :=
  fun h => nomatch h.1

/-- A look at the next kind reports nothing. -/
theorem clean_peek_bind_iff {next : Kind → Parser α} {value : α} :
    Clean (peek >>= next) start value finish ↔ Clean (next start.next) start value finish :=
  Iff.rfl

theorem clean_peekToken_bind_iff {next : Origin → Parser α} {value : α} :
    Clean (peekToken >>= next) start value finish ↔
      Clean (next start.rest.head?) start value finish :=
  Iff.rfl

/-- Reading a token reports nothing. -/
theorem clean_shift_bind_iff {next : Origin → Parser α} {value : α} {last : Kind} {token : Token}
    {rest : List Token} {errors : List SyntaxError} :
    Clean (shift >>= next) ⟨last, token :: rest, errors⟩ value finish ↔
      Clean (next (some token)) ⟨token.kind, rest, errors⟩ value finish :=
  Iff.rfl

theorem clean_shift_bind_nil_iff {next : Origin → Parser α} {value : α} {last : Kind}
    {errors : List SyntaxError} :
    Clean (shift >>= next) ⟨last, [], errors⟩ value finish ↔
      Clean (next none) ⟨last, [], errors⟩ value finish :=
  Iff.rfl

/-- A kind that is accepted is read. -/
theorem Clean.accept_true {kind : Kind} (h : Clean (accept kind) start true finish) :
    ∃ token, token.kind = kind ∧ start.rest = token :: finish.rest := by
  obtain ⟨last, _ | ⟨token, rest⟩, errors⟩ := start
  · cases h.1
  · have hrun := h.1
    simp only [accept] at hrun
    split at hrun <;> cases hrun
    exact ⟨token, ‹_›, rfl⟩

/-- A kind that is not accepted leaves the state as it is. -/
theorem Clean.accept_false {kind : Kind} (h : Clean (accept kind) start false finish) :
    finish = start := by
  obtain ⟨last, _ | ⟨token, rest⟩, errors⟩ := start
  · cases h.1; rfl
  · have hrun := h.1
    simp only [accept] at hrun
    split at hrun <;> cases hrun
    rfl

/-- A kind that is asked for without an error is read. -/
theorem Clean.expect {kind : Kind} {token : Token} (h : Clean (expect kind) start token finish) :
    token.kind = kind ∧ start.rest = token :: finish.rest := by
  obtain ⟨last, _ | ⟨first, rest⟩, errors⟩ := start
  · cases h.1
  · have hrun := h.1
    simp only [Parser.expect] at hrun
    split at hrun <;> cases hrun
    exact ⟨‹_›, rfl⟩

/-- A kind that must have been read without an error was read last. -/
theorem Clean.expectRead {kind : Kind} (h : Clean (expectRead kind) start () finish) :
    start.last = kind ∧ finish = start := by
  have hrun := h.1
  simp only [Parser.expectRead] at hrun
  split at hrun <;> cases hrun
  exact ⟨‹_›, rfl⟩

/-- An attempt that reports nothing has succeeded. -/
theorem Clean.attempt {parser : Parser α} [hparser : Forward parser] {value : Option α}
    (h : Clean (attempt parser) start value finish) :
    ∃ node, value = some node ∧ Clean parser start node finish := by
  obtain ⟨hrun, herrors⟩ := h
  simp only [Parser.attempt] at hrun
  split at hrun
  · next hok => cases hrun; exact ⟨_, rfl, hok, herrors⟩
  · next herror => cases hrun; exact absurd herrors ((hparser.error herror).2 rfl)
  · cases hrun

/-- The kind that a run remembers is that of the token before the rest. -/
theorem Clean.last_eq {parser : Parser α} [hparser : Forward parser] {value : α}
    (h : Clean parser start value finish) {read : List Token} {token : Token}
    (hrest : start.rest = read ++ token :: finish.rest) : finish.last = token.kind := by
  obtain ⟨all, hall, hlast⟩ := (hparser.ok h.1).read
  have hread : all = read ++ [token] := by
    rw [hrest, List.append_cons] at hall
    exact (List.append_cancel_right hall).symm
  rw [hlast, hread]
  simp

end Clean

end Scriptlet.Parser
