import Scriptlet.Proofs.Parser.Runs

/-!
# Parsers come to an end

What may stop a parser besides a missing construct never does. The bounds on nesting and on the
turns of loops do not, since a statement and an expression read at least the token they begin with
(`Consuming`), also when they fail, so that a bound above the number of unread tokens is enough
(`bounded_nested`). An integer literal does so only if it is too long. `Avoids` is what the two
have in common, and `programStatements` goes on behind a missing construct.
-/

namespace Scriptlet.Parser

variable {α β : Type}

/-- Every integer token is short enough to be read. -/
def Legible (tokens : List Token) : Prop :=
  ∀ token ∈ tokens, token.kind = .int → token.text.toList.length ≤ maxDigits

/-- What is left in a state that was reached was there before. -/
theorem State.Reaches.suffix {start finish : State} (h : start.Reaches finish) :
    finish.rest <:+ start.rest := by
  obtain ⟨read, hread, -⟩ := h.read
  exact ⟨read, hread.symm⟩

/-- What is left of legible tokens is legible. -/
theorem State.Reaches.legible {start finish : State} (h : start.Reaches finish)
    (hlegible : Legible start.rest) : Legible finish.rest :=
  fun token htoken => hlegible token (h.suffix.mem htoken)

theorem State.Reaches.length_le {start finish : State} (h : start.Reaches finish) :
    finish.rest.length ≤ start.rest.length :=
  h.suffix.length_le

/-- An attempt stops where the attempted parser does, but not for an error. -/
theorem attempt_eq_error {parser : Parser α} {start finish : State} {stop : Stop}
    (h : attempt parser start = .error stop finish) :
    stop ≠ .missing ∧ parser start = .error stop finish := by
  simp only [attempt] at h
  split at h
  · cases h
  · cases h
  · next hmissing hrun =>
      cases h
      exact ⟨hmissing, hrun⟩

/-- The parser reads a token unless there is none, also when it is stopped by what it reads. -/
class Consuming (parser : Parser α) : Prop where
  ok {start finish : State} {value : α} :
    parser start = .ok value finish → start.rest ≠ [] → finish.rest.length < start.rest.length
  error {start finish : State} {stop : Stop} :
    parser start = .error stop finish → stop ≠ .exhausted → start.rest ≠ [] →
      finish.rest.length < start.rest.length

section Consuming

/-- To read a token is to take one. -/
theorem Consuming.shift_bind {next : Origin → Parser α} (hnext : ∀ origin, Forward (next origin)) :
    Consuming (shift >>= next) where
  ok {start _ _} h hne := by
    obtain ⟨last, _ | ⟨token, rest⟩, errors⟩ := start
    · exact absurd rfl hne
    · exact Nat.lt_succ_of_le ((hnext (some token)).ok h).length_le
  error {start _ _} h _ hne := by
    obtain ⟨last, _ | ⟨token, rest⟩, errors⟩ := start
    · exact absurd rfl hne
    · exact Nat.lt_succ_of_le ((hnext (some token)).error h).1.length_le

instance (next : Origin → Parser α) [hnext : ∀ origin, Forward (next origin)] :
    Consuming (shift >>= next) :=
  .shift_bind hnext

theorem Consuming.peek_bind {next : Kind → Parser α} (hnext : ∀ kind, Consuming (next kind)) :
    Consuming (peek >>= next) :=
  ⟨fun h => (hnext _).ok h, fun h => (hnext _).error h⟩

theorem Consuming.peekToken_bind {next : Origin → Parser α}
    (hnext : ∀ origin, Consuming (next origin)) : Consuming (peekToken >>= next) :=
  ⟨fun h => (hnext _).ok h, fun h => (hnext _).error h⟩

/-- What takes a token at first takes one. -/
theorem Consuming.bind (parser : Parser α) (next : α → Parser β) [hparser : Consuming parser]
    [hnext : ∀ value, Forward (next value)] : Consuming (parser >>= next) where
  ok h hne := by
    obtain ⟨first, middle, hfirst, hsecond⟩ := bind_eq_ok.1 h
    exact Nat.lt_of_le_of_lt ((hnext first).ok hsecond).length_le (hparser.ok hfirst hne)
  error h hstop hne := by
    rcases bind_eq_error.1 h with h | ⟨first, middle, hfirst, hsecond⟩
    · exact hparser.error h hstop hne
    · exact Nat.lt_of_le_of_lt ((hnext first).error hsecond).1.length_le (hparser.ok hfirst hne)

instance : Consuming (throw .exhausted : Parser α) where
  ok h := by cases h
  error h hstop := by
    cases h
    exact absurd rfl hstop

instance (parser : Parser α) [hparser : Consuming parser] : Consuming (attempt parser) where
  ok h hne := by
    simp only [attempt] at h
    split at h
    · next hrun => cases h; exact hparser.ok hrun hne
    · next hrun => cases h; exact hparser.error hrun nofun hne
    · cases h
  error h hstop hne := hparser.error (attempt_eq_error h).2 hstop hne

variable {phrase : Phrase → Parser Node} [∀ phrased, Forward (phrase phrased)]

instance (bound power : Nat) : Consuming (expression phrase bound power) := by
  have hoperand : Consuming (operand phrase bound) := by
    unfold operand
    exact .shift_bind fun origin => by split <;> infer_instance
  exact .bind ..

instance [hexpression : Consuming (phrase (.expression 0))] :
    Consuming (expressionStatement phrase) := by
  unfold expressionStatement
  exact .peekToken_bind fun origin => .bind ..

instance [hexpression : Consuming (phrase (.expression 0))] : Consuming (statement phrase) := by
  have hdeclaration : Consuming (declaration phrase) := by unfold declaration; infer_instance
  have hreturning : Consuming (returning phrase) := by unfold returning; infer_instance
  have hloop : Consuming (loop phrase) := by unfold loop; infer_instance
  exact .peek_bind fun kind => by split <;> infer_instance

end Consuming

instance (bound power : Nat) : Consuming (nested bound (.expression power)) := by
  cases bound <;> (unfold nested; infer_instance)

/-- A stop that ends the whole run, with a condition on the unread tokens that should exclude it and
holds on as tokens are read. -/
structure Guard where
  stop : Stop
  ne_missing : stop ≠ .missing
  Holds : List Token → Prop
  suffix {tokens rest : List Token} : rest <:+ tokens → Holds tokens → Holds rest

/-- The bounds should not stop a parser with at most `bound` unread tokens. -/
def Guard.bounds (bound : Nat) : Guard where
  stop := .exhausted
  ne_missing := Stop.noConfusion
  Holds tokens := tokens.length ≤ bound
  suffix hsuffix hlength := Nat.le_trans hsuffix.length_le hlength

/-- An integer literal should not stop a parser where none is too long. -/
def Guard.literals (digits : Nat) : Guard where
  stop := .oversized digits
  ne_missing := Stop.noConfusion
  Holds := Legible
  suffix hsuffix hlegible token htoken := hlegible token (hsuffix.mem htoken)

/-- The guard keeps its stop from the parser. -/
class Avoids (guard : Guard) (parser : Parser α) : Prop where
  ne_error {start finish : State} :
    guard.Holds start.rest → parser start ≠ .error guard.stop finish

section Avoiding

variable {guard : Guard}

/-- Parsers one behind the other avoid a stop if both do. -/
theorem Avoids.bind {parser : Parser α} {next : α → Parser β}
    [hforward : Forward parser] [hparser : Avoids guard parser]
    (hnext : ∀ value, Avoids guard (next value)) : Avoids guard (parser >>= next) where
  ne_error hstart h := by
    rcases bind_eq_error.1 h with h | ⟨first, middle, hfirst, hsecond⟩
    · exact hparser.ne_error hstart h
    · exact (hnext first).ne_error (guard.suffix (hforward.ok hfirst).suffix hstart) hsecond

instance (parser : Parser α) (next : α → Parser β) [Forward parser] [Avoids guard parser]
    [hnext : ∀ value, Avoids guard (next value)] : Avoids guard (parser >>= next) :=
  .bind hnext

instance {condition : Prop} [Decidable condition] (yes no : Parser α) [Avoids guard yes]
    [Avoids guard no] : Avoids guard (if condition then yes else no) := by
  split <;> infer_instance

instance (value : α) : Avoids guard (pure value) := ⟨fun _ h => by cases h⟩

instance : Avoids guard peek := ⟨fun _ h => by cases h⟩

instance : Avoids guard peekToken := ⟨fun _ h => by cases h⟩

instance : Avoids guard shift where
  ne_error {start _} _ h := by
    obtain ⟨last, _ | ⟨token, rest⟩, errors⟩ := start <;> cases h

instance (kind : Kind) : Avoids guard (accept kind) where
  ne_error {start _} _ h := by
    obtain ⟨last, _ | ⟨token, rest⟩, errors⟩ := start
    · cases h
    · simp only [accept] at h
      split at h <;> cases h

instance (parser : Parser α) [hparser : Avoids guard parser] :
    Avoids guard (attempt parser) :=
  ⟨fun hstart h => hparser.ne_error hstart (attempt_eq_error h).2⟩

/-- Only a missing construct is reported. -/
theorem Avoids.of_missing {parser : Parser α}
    (h : ∀ {start finish stop}, parser start = .error stop finish → stop = .missing) :
    Avoids guard parser :=
  ⟨fun _ herror => guard.ne_missing (h herror)⟩

instance (error : SyntaxError) : Avoids guard (fail error : Parser α) :=
  .of_missing fun h => by cases h; rfl

instance (kind : Kind) : Avoids guard (expect kind) := by
  refine .of_missing fun {start _ _} h => ?_
  obtain ⟨last, _ | ⟨token, rest⟩, errors⟩ := start
  · cases h; rfl
  · simp only [expect] at h
    split at h <;> cases h
    rfl

instance (kind : Kind) : Avoids guard (expectRead kind) := by
  refine .of_missing fun h => ?_
  simp only [expectRead] at h
  split at h <;> cases h
  rfl

instance : Avoids guard parameter := by
  unfold parameter
  exact .bind fun origin => by split <;> infer_instance

instance (parser : Parser Node) [Forward parser] [Avoids guard parser] :
    Avoids guard (headerClause parser) := by
  unfold headerClause
  infer_instance

variable {phrase : Phrase → Parser Node} [∀ phrased, Forward (phrase phrased)]
  [∀ phrased, Avoids guard (phrase phrased)]

instance : Avoids guard (mapPair phrase) := by
  unfold mapPair
  infer_instance

instance (token : Token) : Avoids guard (choice phrase token) := by
  unfold choice
  infer_instance

instance : Avoids guard (declaration phrase) := by
  unfold declaration
  infer_instance

instance : Avoids guard (returning phrase) := by
  unfold returning
  infer_instance

instance : Avoids guard (expressionStatement phrase) := by
  unfold expressionStatement
  infer_instance

instance : Avoids guard (clause phrase) := by
  unfold clause
  infer_instance

instance : Avoids guard (lastClause phrase) := by
  unfold lastClause
  infer_instance

instance : Avoids guard (loop phrase) := by
  unfold loop
  infer_instance

instance : Avoids guard (statement phrase) := by
  unfold statement
  exact .bind fun kind => by split <;> infer_instance

end Avoiding

section Bounded

/-- With at most `bound` unread tokens the bounds do not stop the parser. -/
abbrev Bounded (bound : Nat) (parser : Parser α) : Prop :=
  Avoids (.bounds bound) parser

variable {bound turns : Nat}

/-- A bound that is enough for more is enough for less. -/
theorem Bounded.mono {more : Nat} {parser : Parser α} (h : Bounded more parser)
    (hle : bound ≤ more) : Bounded bound parser :=
  ⟨fun hlength => h.ne_error (Nat.le_trans hlength hle)⟩

/-- A parser behind a token that has been accepted has less to read. -/
theorem Bounded.accept_bind {kind : Kind} {next : Bool → Parser α}
    (htrue : ∀ less, less < bound → Bounded less (next true))
    (hfalse : Bounded bound (next false)) :
    Bounded bound (accept kind >>= next) where
  ne_error {start _} hlength h := by
    rcases bind_eq_error.1 h with h | ⟨found, middle, hfound, h⟩
    · exact Avoids.ne_error hlength h
    · obtain ⟨last, _ | ⟨token, rest⟩, errors⟩ := start
      · cases hfound
        exact hfalse.ne_error hlength h
      · simp only [accept] at hfound
        split at hfound <;> cases hfound
        · exact (htrue _ hlength).ne_error (Nat.le_refl _) h
        · exact hfalse.ne_error hlength h

/-- The items behind a first one have a comma each. -/
theorem bounded_moreItems (close : Kind) {item : Parser α} [Forward item]
    (hitem : Bounded bound item) (hturns : bound < turns) :
    Bounded bound (moreItems close item turns) := by
  induction turns generalizing bound with
  | zero => exact absurd hturns (Nat.not_lt_zero _)
  | succ turns ih =>
      unfold moreItems
      refine .accept_bind (fun less hless => ?_) ?_
      · have hitem := hitem.mono (Nat.le_of_lt hless)
        have hmore := ih hitem (Nat.lt_of_lt_of_le hless (Nat.le_of_lt_succ hturns))
        simp only [if_true]
        infer_instance
      · simp only [Bool.false_eq_true, if_false]
        infer_instance

/-- Items between commas do not run out of turns that are more than the tokens. -/
theorem bounded_items (close : Kind) (item : Parser α) [Forward item]
    [hitem : Bounded bound item] (hturns : bound < turns) :
    Bounded bound (items close item turns) := by
  have hmore := bounded_moreItems close hitem hturns
  unfold items
  infer_instance

instance (digits : Nat) : Bounded bound (throw (.oversized digits) : Parser α) :=
  ⟨fun _ h => by cases h⟩

instance (token : Token) : Bounded bound (integerLiteral token) := by
  unfold integerLiteral
  infer_instance

variable {phrase : Phrase → Parser Node} [∀ phrased, Forward (phrase phrased)]

section Phrases

variable [∀ phrased, Bounded bound (phrase phrased)]

/-- The parameters of a function do not run out of turns. -/
theorem bounded_function (token : Token) (hturns : bound < turns) :
    Bounded bound (function phrase turns token) := by
  have hparameters := bounded_items .closeParen parameter hturns
  unfold function
  infer_instance

/-- The lists inside an operand do not run out of turns. -/
theorem bounded_operandAt (token : Token) (hturns : bound < turns) :
    Bounded bound (operandAt phrase turns token) := by
  have hfunction : Bounded bound (function phrase turns token) := bounded_function token hturns
  have helements := bounded_items .closeBracket (phrase (.expression 0)) hturns
  have hpairs := bounded_items .closeBrace (mapPair phrase) hturns
  unfold operandAt
  split <;> infer_instance

theorem bounded_operand (hturns : bound < turns) : Bounded bound (operand phrase turns) := by
  unfold operand
  refine .bind fun origin => ?_
  cases origin with
  | none => infer_instance
  | some token => exact bounded_operandAt token hturns

/-- The arguments of a call do not run out of turns. -/
theorem bounded_application (token : Token) (left : Node) (hturns : bound < turns) :
    Bounded bound (application phrase turns token left) := by
  have harguments := bounded_items .closeParen (phrase (.expression 0)) hturns
  unfold application
  split <;> infer_instance

end Phrases

/-- Every turn of the loop over operators reads one. -/
theorem bounded_climb {power rounds : Nat} (left : Node)
    (hphrase : ∀ phrased, Bounded bound (phrase phrased)) (hturns : bound < turns)
    (hrounds : bound < rounds) : Bounded bound (climb phrase turns power rounds left) := by
  induction rounds generalizing bound left with
  | zero => exact absurd hrounds (Nat.not_lt_zero _)
  | succ rounds ih =>
      refine ⟨fun {start _} hlength h => ?_⟩
      obtain ⟨last, _ | ⟨token, rest⟩, errors⟩ := start
      · cases h
      · change (if power < token.kind.power then (do
            let _ ← shift
            let extended ← application phrase turns token left
            climb phrase turns power rounds extended) else pure left) _ = _ at h
        split at h
        -- The operator has been read, so all that follows has less to read.
        · have hless : rest.length < bound := hlength
          have hphrase (phrased : Phrase) := (hphrase phrased).mono (Nat.le_of_lt hless)
          have happlication : Bounded rest.length (application phrase turns token left) :=
            bounded_application token left (Nat.lt_trans hless hturns)
          have hrest : Bounded rest.length (do
              let extended ← application phrase turns token left
              climb phrase turns power rounds extended) :=
            .bind fun extended => ih extended hphrase (Nat.lt_trans hless hturns)
              (Nat.lt_of_lt_of_le hless (Nat.le_of_lt_succ hrounds))
          exact hrest.ne_error (Nat.le_refl _) h
        · cases h

/-- What stands in an expression stands behind its first token. -/
theorem bounded_expression {power : Nat}
    (hphrase : ∀ less, less < bound → ∀ phrased, Bounded less (phrase phrased))
    (hturns : bound < turns) : Bounded bound (expression phrase turns power) where
  ne_error {start _} hlength h := by
    obtain ⟨last, _ | ⟨token, rest⟩, errors⟩ := start
    · cases h
    · have hphrase := hphrase rest.length hlength
      have hturns := Nat.lt_trans (Nat.lt_of_succ_le hlength) hturns
      have hoperand : Bounded rest.length (operandAt phrase turns token) :=
        bounded_operandAt token hturns
      have hrest : Bounded rest.length (do
          let left ← operandAt phrase turns token
          climb phrase turns power turns left) :=
        .bind fun left => bounded_climb left hphrase hturns hturns
      exact hrest.ne_error (Nat.le_refl _) h

/-- The same where the kind of the next token is known. -/
def BoundedAt (bound : Nat) (kind : Kind) (parser : Parser α) : Prop :=
  ∀ {start finish : State}, start.next = kind → start.rest.length ≤ bound →
    parser start ≠ .error .exhausted finish

omit [∀ phrased, Forward (phrase phrased)] in
/-- A look at the next kind, which is then known. -/
theorem Bounded.peek_bind {next : Kind → Parser α}
    (hnext : ∀ kind, BoundedAt bound kind (next kind)) : Bounded bound (peek >>= next) :=
  ⟨fun hlength h => hnext _ rfl hlength h⟩

omit [∀ phrased, Forward (phrase phrased)] in
theorem Bounded.at {parser : Parser α} (h : Bounded bound parser) (kind : Kind) :
    BoundedAt bound kind parser :=
  fun _ hlength hrun => h.ne_error hlength hrun

/-- A list of statements goes on with fewer tokens behind each of them. -/
theorem boundedAt_attempt [Consuming (phrase (.expression 0))]
    (hphrase : ∀ phrased, Bounded bound (phrase phrased)) {next : Option Node → Parser α}
    (hnext : ∀ node less, less < bound → Bounded less (next node)) {kind : Kind}
    (hne : kind ≠ .eof) : BoundedAt bound kind (attempt (statement phrase) >>= next) := by
  intro start finish hkind hlength h
  have hrest : start.rest ≠ [] := by
    intro hrest
    simp [State.next, hrest] at hkind
    exact hne hkind.symm
  rcases bind_eq_error.1 h with h | ⟨node, middle, hnode, h⟩
  · have hattempt : Bounded bound (attempt (statement phrase)) := inferInstance
    exact hattempt.ne_error hlength h
  · have hshorter := Consuming.ok hnode hrest
    exact (hnext node _ (Nat.lt_of_lt_of_le hshorter hlength)).ne_error (Nat.le_refl _) h

/-- The statements of a block do not run out of turns. -/
theorem bounded_blockStatements [Consuming (phrase (.expression 0))]
    (hphrase : ∀ phrased, Bounded bound (phrase phrased)) (hturns : bound < turns) :
    Bounded bound (blockStatements phrase turns) := by
  induction turns generalizing bound with
  | zero => exact absurd hturns (Nat.not_lt_zero _)
  | succ turns ih =>
      unfold blockStatements
      refine .peek_bind fun kind => ?_
      split
      case h_1 => exact Bounded.at inferInstance _
      case h_2 => exact Bounded.at inferInstance _
      case h_3 heof =>
          refine boundedAt_attempt hphrase (fun node less hless => ?_) heof
          have hmore := ih (fun phrased => (hphrase phrased).mono (Nat.le_of_lt hless))
            (Nat.lt_of_lt_of_le hless (Nat.le_of_lt_succ hturns))
          infer_instance

/-- What stands in a block stands behind its brace. -/
theorem bounded_block [Consuming (phrase (.expression 0))]
    (hphrase : ∀ less, less < bound → ∀ phrased, Bounded less (phrase phrased))
    (hturns : bound < turns) : Bounded bound (block phrase turns) where
  ne_error {start _} hlength h := by
    rcases bind_eq_error.1 h with h | ⟨token, middle, htoken, h⟩
    · exact Avoids.ne_error hlength h
    · obtain ⟨last, _ | ⟨first, rest⟩, errors⟩ := start
      · cases htoken
      · have hstatements := bounded_blockStatements (hphrase rest.length hlength)
          (Nat.lt_trans (Nat.lt_of_succ_le hlength) hturns)
        have hrest : Bounded rest.length (do
            let statements ← blockStatements phrase turns
            return Node.block (some token) statements) := inferInstance
        simp only [expect] at htoken
        split at htoken <;> cases htoken
        exact hrest.ne_error (Nat.le_refl _) h

theorem bounded_programStatements [Consuming (phrase (.expression 0))]
    (hphrase : ∀ phrased, Bounded bound (phrase phrased)) (hturns : bound < turns) :
    Bounded bound (programStatements phrase turns) := by
  induction turns generalizing bound with
  | zero => exact absurd hturns (Nat.not_lt_zero _)
  | succ turns ih =>
      unfold programStatements
      refine .peek_bind fun kind => ?_
      split
      case h_1 => exact Bounded.at inferInstance _
      case h_2 heof =>
          refine boundedAt_attempt hphrase (fun node less hless => ?_) heof
          have hmore := ih (fun phrased => (hphrase phrased).mono (Nat.le_of_lt hless))
            (Nat.lt_of_lt_of_le hless (Nat.le_of_lt_succ hturns))
          infer_instance

end Bounded

/-- The bounds do not stop a phrase that begins fewer tokens before the end. -/
theorem bounded_nested {bound turns : Nat} (h : bound < turns) (phrase : Phrase) :
    Bounded bound (nested turns phrase) := by
  induction turns generalizing bound phrase with
  | zero => exact absurd h (Nat.not_lt_zero _)
  | succ turns ih =>
      have hless (less : Nat) (hless : less < bound) (phrased : Phrase) :=
        ih (Nat.lt_of_lt_of_le hless (Nat.le_of_lt_succ h)) phrased
      cases phrase with
      | expression power => exact bounded_expression hless h
      | block => exact bounded_block hless h

section Lenient

/-- Where no integer token is too long, none stops the parser. -/
abbrev Lenient (digits : Nat) (parser : Parser α) : Prop :=
  Avoids (.literals digits) parser

variable {digits turns : Nat}

instance : Lenient digits (throw .exhausted : Parser α) :=
  ⟨fun _ h => by cases h⟩

instance lenient_moreItems (close : Kind) (item : Parser α) [Forward item] [Lenient digits item] :
    Lenient digits (moreItems close item turns) := by
  induction turns with
  | zero => unfold moreItems; infer_instance
  | succ turns ih => unfold moreItems; infer_instance

instance (close : Kind) (item : Parser α) [Forward item] [Lenient digits item] :
    Lenient digits (items close item turns) := by
  unfold items
  infer_instance

/-- Digits that are few enough are no stop. -/
theorem lenient_integerLiteral {token : Token} (h : token.text.toList.length ≤ maxDigits) :
    Lenient digits (integerLiteral token) := by
  unfold integerLiteral
  rw [if_neg (Nat.not_lt_of_ge h)]
  infer_instance

variable {phrase : Phrase → Parser Node} [∀ phrased, Forward (phrase phrased)]
  [∀ phrased, Lenient digits (phrase phrased)]

/-- An operand that begins with a legible token is no stop. -/
theorem lenient_operandAt {token : Token} (h : Legible [token]) :
    Lenient digits (operandAt phrase turns token) := by
  unfold operandAt function
  split
  case h_2 hkind => exact lenient_integerLiteral (h token (List.mem_singleton.2 rfl) hkind)
  all_goals infer_instance

/-- The token of a literal is read where it is still known to be short enough. -/
instance : Lenient digits (operand phrase turns) where
  ne_error {start _} hlegible h := by
    obtain ⟨last, _ | ⟨token, rest⟩, errors⟩ := start
    · cases h
    · obtain ⟨htoken, hrest⟩ := List.forall_mem_cons.1 hlegible
      have hoperand : Lenient digits (operandAt phrase turns token) :=
        lenient_operandAt (List.forall_mem_singleton.2 htoken)
      refine hoperand.ne_error ?_ h
      exact hrest

instance (token : Token) (left : Node) : Lenient digits (application phrase turns token left) := by
  unfold application
  split <;> infer_instance

instance lenient_climb (power rounds : Nat) (left : Node) :
    Lenient digits (climb phrase turns power rounds left) := by
  induction rounds generalizing left with
  | zero => unfold climb; infer_instance
  | succ rounds ih =>
      unfold climb
      exact .bind fun origin => by split <;> infer_instance

instance lenient_blockStatements : Lenient digits (blockStatements phrase turns) := by
  induction turns with
  | zero => unfold blockStatements; infer_instance
  | succ turns ih =>
      unfold blockStatements
      exact .bind fun kind => by split <;> infer_instance

end Lenient

instance lenient_nested {digits : Nat} (bound : Nat) (phrase : Phrase) :
    Lenient digits (nested bound phrase) := by
  induction bound generalizing phrase with
  | zero => unfold nested; infer_instance
  | succ bound ih =>
      cases phrase with
      | expression power => unfold nested expression; infer_instance
      | block => unfold nested block; infer_instance

/-- Nothing stops an attempt at a statement where the bound suffices and the literals are short
enough. -/
theorem attempt_statement_ne_error {bound turns : Nat} (h : bound < turns) {start finish : State}
    {stop : Stop} (hlength : start.rest.length ≤ bound) (hlegible : Legible start.rest) :
    attempt (statement (nested turns)) start ≠ .error stop finish := by
  intro herror
  obtain ⟨hmissing, hrun⟩ := attempt_eq_error herror
  have hphrase := bounded_nested h
  have hbounded : Bounded bound (statement (nested turns)) := inferInstance
  cases stop with
  | missing => exact hmissing rfl
  | oversized digits =>
      have hlenient : Lenient digits (statement (nested turns)) := inferInstance
      exact hlenient.ne_error hlegible hrun
  | exhausted => exact hbounded.ne_error hlength hrun

/-- The statements of a program are read to the end, whatever they are. -/
theorem programStatements_total {bound turns rounds : Nat} (h : bound < turns) {start : State}
    (hbound : start.rest.length ≤ bound) (hlegible : Legible start.rest)
    (hrounds : start.rest.length < rounds) :
    ∃ nodes finish, programStatements (nested turns) rounds start = .ok nodes finish := by
  induction rounds generalizing start with
  | zero => exact absurd hrounds (Nat.not_lt_zero _)
  | succ rounds ih =>
      by_cases hnext : start.next = .eof
      · exact ⟨[], start, programStatements_end hnext⟩
      · have hrest : start.rest ≠ [] := by
          intro hrest
          simp [State.next, hrest] at hnext
        cases hnode : attempt (statement (nested turns)) start with
        | error stop finish => exact absurd hnode (attempt_statement_ne_error h hbound hlegible)
        | ok node middle =>
            -- A statement reads a token even when it is given up.
            have hshorter := Consuming.ok hnode hrest
            obtain ⟨nodes, finish, hnodes⟩ := ih (Nat.le_trans (Nat.le_of_lt hshorter) hbound)
              ((Forward.ok hnode).legible hlegible) (by omega)
            refine ⟨node.toList ++ nodes, finish, ?_⟩
            rw [programStatements_step hnext]
            exact bind_eq_ok.2 ⟨_, _, hnode, bind_eq_ok.2 ⟨_, _, hnodes, rfl⟩⟩

end Scriptlet.Parser
