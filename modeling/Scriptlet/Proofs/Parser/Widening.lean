import Scriptlet.Proofs.Parser.Runs

/-!
# Larger bounds

The bounds on nesting and on the turns of loops only ever stop a run. A run under small bounds that
is not stopped by them is the same run under larger ones: `Widens` states this of two parsers, and
holds of every construct under two bounds (`widens_nested`).
-/

namespace Scriptlet.Parser

/-- Wherever the first parser does not exhaust its bound, the second one does the same. -/
class Widens {α : Type} (narrow wide : Parser α) : Prop where
  run (start : State) :
    (∃ finish, narrow start = .error .exhausted finish) ∨ wide start = narrow start

section Combinators

variable {α β : Type}

/-- A result under small bounds is the result under larger ones. -/
theorem Widens.ok {narrow wide : Parser α} [hwidens : Widens narrow wide] {start finish : State}
    {value : α} (h : narrow start = .ok value finish) : wide start = .ok value finish := by
  rcases hwidens.run start with ⟨stopped, hstopped⟩ | hsame
  · rw [hstopped] at h
    cases h
  · rw [hsame, h]

instance (priority := low) (parser : Parser α) : Widens parser parser :=
  ⟨fun _ => .inr rfl⟩

instance (wide : Parser α) : Widens (throw .exhausted) wide :=
  ⟨fun start => .inl ⟨start, rfl⟩⟩

/-- Parsers one behind the other widen if both do. -/
theorem Widens.bind {narrow wide : Parser α} {next other : α → Parser β}
    [hwidens : Widens narrow wide] (hnext : ∀ value, Widens (next value) (other value)) :
    Widens (narrow >>= next) (wide >>= other) where
  run start := by
    show (∃ finish, EStateM.bind narrow next start = _) ∨
      EStateM.bind wide other start = EStateM.bind narrow next start
    unfold EStateM.bind
    rcases hwidens.run start with ⟨finish, hstopped⟩ | hsame
    · exact .inl ⟨finish, by rw [hstopped]⟩
    · rw [hsame]
      cases narrow start with
      | ok value middle => exact (hnext value).run middle
      | error stop finish => exact .inr rfl

instance (narrow wide : Parser α) (next other : α → Parser β) [Widens narrow wide]
    [hnext : ∀ value, Widens (next value) (other value)] :
    Widens (narrow >>= next) (wide >>= other) :=
  .bind hnext

instance {condition : Prop} [Decidable condition] (yes no wideYes wideNo : Parser α)
    [Widens yes wideYes] [Widens no wideNo] :
    Widens (if condition then yes else no) (if condition then wideYes else wideNo) := by
  split <;> infer_instance

instance (narrow wide : Parser α) [hwidens : Widens narrow wide] :
    Widens (attempt narrow) (attempt wide) where
  run start := by
    unfold attempt
    rcases hwidens.run start with ⟨finish, hstopped⟩ | hsame
    · exact .inl ⟨finish, by rw [hstopped]⟩
    · exact .inr (by rw [hsame])

/-- A list reads the same items when more of them are allowed. -/
theorem widens_moreItems (close : Kind) (item other : Parser α) [Widens item other]
    {bound more : Nat} (h : bound ≤ more) :
    Widens (moreItems close item bound) (moreItems close other more) := by
  induction bound generalizing more with
  | zero => unfold moreItems; infer_instance
  | succ bound ih =>
      cases more with
      | zero => exact absurd h (Nat.not_succ_le_zero _)
      | succ more =>
          have hrest := ih (Nat.le_of_succ_le_succ h)
          unfold moreItems
          infer_instance

/-- Items between commas may be more. -/
theorem widens_items (close : Kind) (item other : Parser α) [Widens item other] {bound more : Nat}
    (h : bound ≤ more) : Widens (items close item bound) (items close other more) := by
  have hrest := widens_moreItems close item other h
  unfold items
  infer_instance

end Combinators

section Constructs

variable {narrow wide : Phrase → Parser Node}
  [∀ phrased, Widens (narrow phrased) (wide phrased)] {bound more : Nat}

instance : Widens (mapPair narrow) (mapPair wide) := by
  unfold mapPair
  infer_instance

instance (token : Token) : Widens (choice narrow token) (choice wide token) := by
  unfold choice
  infer_instance

/-- An operand may be nested deeper. -/
theorem widens_operandAt (h : bound ≤ more) (token : Token) :
    Widens (operandAt narrow bound token) (operandAt wide more token) := by
  have helements := widens_items .closeBracket (narrow (.expression 0)) (wide (.expression 0)) h
  have hpairs := widens_items .closeBrace (mapPair narrow) (mapPair wide) h
  have hparameters := widens_items .closeParen parameter parameter h
  unfold operandAt function
  generalize token.kind = kind
  cases kind <;> infer_instance

/-- What follows a left side may be nested deeper. -/
theorem widens_application (h : bound ≤ more) (token : Token) (left : Node) :
    Widens (application narrow bound token left) (application wide more token left) := by
  have harguments := widens_items .closeParen (narrow (.expression 0)) (wide (.expression 0)) h
  unfold application
  generalize token.kind = kind
  cases kind <;> infer_instance

/-- More turns and deeper nesting make no difference to a run that ends. -/
theorem widens_climb (h : bound ≤ more) {power turns rounds : Nat} (hturns : turns ≤ rounds)
    (left : Node) :
    Widens (climb narrow bound power turns left) (climb wide more power rounds left) := by
  induction turns generalizing rounds left with
  | zero => unfold climb; infer_instance
  | succ turns ih =>
      cases rounds with
      | zero => exact absurd hturns (Nat.not_succ_le_zero _)
      | succ rounds =>
          have hrest := ih (Nat.le_of_succ_le_succ hturns)
          unfold climb
          refine .bind fun origin => ?_
          cases origin with
          | none => infer_instance
          | some token =>
              have happlication : Widens (application narrow bound token left)
                  (application wide more token left) := widens_application h token left
              infer_instance

theorem widens_operand (h : bound ≤ more) :
    Widens (operand narrow bound) (operand wide more) := by
  unfold operand
  refine .bind fun origin => ?_
  cases origin with
  | none => infer_instance
  | some token => exact widens_operandAt h token

theorem widens_expression (h : bound ≤ more) (power : Nat) :
    Widens (expression narrow bound power) (expression wide more power) := by
  have hoperand : Widens (operand narrow bound) (operand wide more) := widens_operand h
  unfold expression
  exact .bind fun left => widens_climb h h left

instance : Widens (declaration narrow) (declaration wide) := by
  unfold declaration
  infer_instance

instance : Widens (expressionStatement narrow) (expressionStatement wide) := by
  unfold expressionStatement
  infer_instance

instance : Widens (clause narrow) (clause wide) := by
  unfold clause
  infer_instance

omit [∀ phrased, Widens (narrow phrased) (wide phrased)] in
instance (parser other : Parser Node) [Widens parser other] :
    Widens (headerClause parser) (headerClause other) := by
  unfold headerClause
  infer_instance

instance : Widens (lastClause narrow) (lastClause wide) := by
  unfold lastClause
  infer_instance

instance : Widens (statement narrow) (statement wide) := by
  have hreturning : Widens (returning narrow) (returning wide) := by
    unfold returning
    infer_instance
  have hloop : Widens (loop narrow) (loop wide) := by
    unfold loop
    infer_instance
  unfold statement
  refine .bind fun kind => ?_
  cases kind <;> infer_instance

/-- The statements of a block may be more. -/
theorem widens_blockStatements {turns rounds : Nat} (h : turns ≤ rounds) :
    Widens (blockStatements narrow turns) (blockStatements wide rounds) := by
  induction turns generalizing rounds with
  | zero => unfold blockStatements; infer_instance
  | succ turns ih =>
      cases rounds with
      | zero => exact absurd h (Nat.not_succ_le_zero _)
      | succ rounds =>
          have hrest := ih (Nat.le_of_succ_le_succ h)
          unfold blockStatements
          refine .bind fun kind => ?_
          cases kind <;> infer_instance

theorem widens_block (h : bound ≤ more) : Widens (block narrow bound) (block wide more) := by
  unfold block
  refine .bind fun token => ?_
  have hstatements : Widens (blockStatements narrow bound) (blockStatements wide more) :=
    widens_blockStatements h
  infer_instance

theorem widens_programStatements {turns rounds : Nat} (h : turns ≤ rounds) :
    Widens (programStatements narrow turns) (programStatements wide rounds) := by
  induction turns generalizing rounds with
  | zero => unfold programStatements; infer_instance
  | succ turns ih =>
      cases rounds with
      | zero => exact absurd h (Nat.not_succ_le_zero _)
      | succ rounds =>
          have hrest := ih (Nat.le_of_succ_le_succ h)
          unfold programStatements
          refine .bind fun kind => ?_
          cases kind <;> infer_instance

end Constructs

/-- A phrase is the same phrase when more may be nested in it. -/
theorem widens_nested {bound more : Nat} (h : bound ≤ more) (phrase : Phrase) :
    Widens (nested bound phrase) (nested more phrase) := by
  induction bound generalizing more phrase with
  | zero => unfold nested; infer_instance
  | succ bound ih =>
      cases more with
      | zero => exact absurd h (Nat.not_succ_le_zero _)
      | succ more =>
          have hphrase := ih (Nat.le_of_succ_le_succ h)
          cases phrase with
          | expression power => exact widens_expression h power
          | block => exact widens_block h

end Scriptlet.Parser
