import Mathlib.Logic.Relation
import Scriptlet.Proofs.Parser.Reporting

/-!
# Reading goes forward

The end of a text can be looked at again and again, and a construct that is missing does not end the
run, so each loop and each call has to get past a token of its own. `Call.Makes` says which calls a
statement, an expression and a block make; along any number of them a statement inside a statement
and an expression inside an expression begin at least one token later (`Call.passes_of_makes`).
`Begins` says where a turn of a loop begins, and a turn whose test passes ends at least one token
later, whether another turn follows or the loop is given up (`Loop.turn_consumes`). So every parser
comes to an end from every state, and a text is read to its last token (`parse_reaches_end`).
-/

namespace Scriptlet

namespace Parser

section Calls

variable {parser : Phrase → Parser Node} {phrase : Phrase} {start middle state finish : State}

instance [hparser : ∀ phrased, Forward (parser phrased)] (other : Phrase) :
    Forward (cut parser phrase state other) where
  ok h := by
    rw [cut] at h
    split at h
    · cases h
    · exact (hparser other).ok h
  error h := by
    rw [cut] at h
    split at h
    · cases h
      exact ⟨.refl _, nofun⟩
    · exact (hparser other).error h

/-- What stops an expression stops it behind its first token, if not by the end of the text. -/
theorem expression_passes [∀ phrased, Forward (parser phrased)] {bound power : Nat}
    (h : expression parser bound power start = .error .exhausted finish) :
    finish.rest.length < start.rest.length := by
  obtain ⟨last, _ | ⟨token, rest⟩, errors⟩ := start
  · cases h
  · have hrest : Forward (do
        let left ← operandAt parser bound token
        climb parser bound power bound left) := inferInstance
    have hreaches : State.Reaches ⟨token.kind, rest, errors⟩ finish := (hrest.error h).1
    exact Nat.lt_succ_of_le hreaches.length_le

/-- A token that is asked for and found is passed. -/
theorem expect_passes {kind : Kind} {token : Token} (h : expect kind start = .ok token finish) :
    finish.rest.length < start.rest.length := by
  obtain ⟨last, _ | ⟨first, rest⟩, errors⟩ := start
  · cases h
  · simp only [expect] at h
    split at h <;> cases h
    exact Nat.lt_succ_self _

end Calls

/-- The loop begins a turn at a state: so many turns lead there, and no more are allowed. -/
def Begins {α : Type} (loop : Nat → Parser α) (start : State) (turn : Nat) (state : State) : Prop :=
  loop turn start = .error .exhausted state

/-- The constructs that can stand in themselves. -/
inductive Form where
  | statement
  | phrase (phrase : Phrase)
deriving DecidableEq

/-- The call of the parser of a construct at a state, with a bound on the phrases nested in it. -/
structure Call where
  form : Form
  bound : Nat
  state : State

namespace Call

/-- The first call makes the second one itself: a statement and an expression ask for phrases, and a
block calls for a statement in each of its turns. -/
inductive Makes : Call → Call → Prop where
  | statement {bound start phrase state} :
      Asks Parser.statement (nested bound) start phrase state →
      Makes ⟨.statement, bound, start⟩ ⟨.phrase phrase, bound, state⟩
  | expression {bound power start phrase state} :
      Asks (expression · (bound + 1) power) (nested bound) start phrase state →
      Makes ⟨.phrase (.expression power), bound + 1, start⟩ ⟨.phrase phrase, bound, state⟩
  | block {bound start brace middle turn state} :
      expect .openBrace start = .ok brace middle →
      Begins (blockStatements (nested bound)) middle turn state →
      state.next ∉ [Kind.closeBrace, .eof] →
      Makes ⟨.phrase .block, bound + 1, start⟩ ⟨.statement, bound, state⟩

variable {outer inner : Call}

/-- A call is made at a state that its caller reaches. -/
theorem Makes.reaches (h : outer.Makes inner) : outer.state.Reaches inner.state := by
  cases h with
  | @statement bound start phrase state hasks =>
      have hforward : Forward (Parser.statement (cut (nested bound) phrase state)) := inferInstance
      exact (hforward.error hasks).1
  | @expression bound power start phrase state hasks =>
      have hforward :
          Forward (Parser.expression (cut (nested bound) phrase state) (bound + 1) power) :=
        inferInstance
      exact (hforward.error hasks).1
  | @block bound start brace middle turn state hbrace hbegins _ =>
      have hforward : Forward (blockStatements (nested bound) turn) := inferInstance
      exact (Forward.ok hbrace).trans (hforward.error hbegins).1

/-- An expression and a block have passed a token before they call for anything. -/
theorem Makes.passes (h : outer.Makes inner) (hform : outer.form ≠ .statement) :
    inner.state.rest.length < outer.state.rest.length := by
  cases h with
  | statement => exact absurd rfl hform
  | expression hasks => exact expression_passes hasks
  | @block bound start brace middle turn state hbrace hbegins _ =>
      have hforward : Forward (blockStatements (nested bound) turn) := inferInstance
      exact Nat.lt_of_le_of_lt (hforward.error hbegins).1.length_le (expect_passes hbrace)

/-- Only a block calls for statements. -/
theorem Makes.form_ne (h : outer.Makes inner) (hform : inner.form = .statement) :
    outer.form ≠ .statement := by
  cases h with
  | statement | expression => cases hform
  | block => exact nofun

/-- Calls inside a call go forward, and have passed a token unless a statement has only called for
the phrase it begins with. -/
theorem passes_of_makes (h : Relation.TransGen Makes outer inner) :
    outer.state.Reaches inner.state ∧
      ((outer.form = .statement → inner.form = .statement) →
        inner.state.rest.length < outer.state.rest.length) := by
  induction h with
  | @single inner hmakes =>
      refine ⟨hmakes.reaches, fun hform => hmakes.passes fun houter => ?_⟩
      exact hmakes.form_ne (hform houter) houter
  | @tail middle inner _ hmakes ih =>
      obtain ⟨hreaches, hpasses⟩ := ih
      refine ⟨hreaches.trans hmakes.reaches, fun hform => ?_⟩
      by_cases hmiddle : middle.form = .statement
      · -- The chain up to here ends at a statement, so it has passed a token already.
        exact Nat.lt_of_le_of_lt hmakes.reaches.length_le (hpasses fun _ => hmiddle)
      · exact Nat.lt_of_lt_of_le (hmakes.passes hmiddle) hreaches.length_le

end Call

section Loops

/-- The loops of the parsers and the kinds of the next token at which they take another turn, where
at most `bound` phrases may be nested and an inner loop takes at most `turns` turns. -/
inductive Loop (bound turns : Nat) : {α : Type} → (Kind → Prop) → (Nat → Parser α) → Prop where
  | program : Loop bound turns (· ≠ .eof) (programStatements (nested bound))
  | block : Loop bound turns (· ∉ [Kind.closeBrace, .eof]) (blockStatements (nested bound))
  | operators (power : Nat) (left : Node) :
      Loop bound turns (power < ·.power) (climb (nested bound) turns power · left)
  | list {α : Type} {item : Parser α} (close : Kind) :
      Method bound turns item → Loop bound turns (· = .comma) (moreItems close item)

variable {α β : Type} {bound turns turn : Nat} {test : Kind → Prop} {loop : Nat → Parser α}
  {start here : State}

/-- What a turn of a loop comes to. Either way it ends at a later state. -/
inductive Turned (bound turns : Nat) (test : Kind → Prop) (loop : Nat → Parser α) (start : State) :
    Prop where
  /-- The loop goes on there with another turn. -/
  | again {next : Nat → Parser α} {middle : State} :
      Loop bound turns test next → start.Reaches middle →
      middle.rest.length < start.rest.length →
      (∀ rounds stop finish, loop (rounds + 1) start = .error stop finish ↔
        next rounds middle = .error stop finish) →
      Turned bound turns test loop start
  /-- The loop is given up there. -/
  | left {stop : Stop} {finish : State} :
      stop ≠ .exhausted → start.Reaches finish → finish.rest.length < start.rest.length →
      (∀ rounds, loop (rounds + 1) start = .error stop finish) →
      Turned bound turns test loop start

/-- Putting results together does not fail. -/
theorem bind_return_eq_error {γ : Type} {first : Parser α} {more : α → Parser β} {make : α → β → γ}
    {stop : Stop} {finish : State} :
    (do let value ← first; let values ← more value; return make value values) start =
        .error stop finish ↔
      (first >>= more) start = .error stop finish := by
  have hlast (value : α) (middle : State) :
      (more value >>= fun values => pure (make value values)) middle = .error stop finish ↔
        more value middle = .error stop finish := by
    rw [bind_eq_error]
    constructor
    · rintro (h | ⟨_, _, -, h⟩)
      · exact h
      · cases h
    · exact .inl
  rw [bind_eq_error, bind_eq_error]
  simp only [hlast]

/-- A turn that runs one parser, begun no earlier than the turn, and then takes the next turn. -/
theorem Turned.of_first (first : Parser β) [hfirst : Forward first] (next : β → Nat → Parser α)
    {place : State} (hplace : start.Reaches place)
    (hbounded : ∀ finish, first place ≠ .error .exhausted finish)
    (hok : ∀ {value finish}, first place = .ok value finish →
      finish.rest.length < start.rest.length)
    (herror : ∀ {stop finish}, first place = .error stop finish → stop ≠ .exhausted →
      finish.rest.length < start.rest.length)
    (hnext : ∀ value, Loop bound turns test (next value))
    (hloop : ∀ rounds stop finish, loop (rounds + 1) start = .error stop finish ↔
      (first >>= fun value => next value rounds) place = .error stop finish) :
    Turned bound turns test loop start := by
  cases hrun : first place with
  | ok value middle =>
      have hreaches : start.Reaches middle := hplace.trans (hfirst.ok hrun)
      refine .again (hnext value) hreaches (hok hrun) fun rounds stop finish => ?_
      rw [hloop, bind_eq_error, hrun]
      constructor
      · rintro (h | ⟨_, _, h, hrest⟩)
        · cases h
        · cases h
          exact hrest
      · exact fun hrest => .inr ⟨value, middle, rfl, hrest⟩
  | error stop finish =>
      have hstop : stop ≠ .exhausted := by
        intro hstop
        subst hstop
        exact hbounded finish hrun
      refine .left hstop (hplace.trans (hfirst.error hrun).1) (herror hrun hstop) fun rounds => ?_
      exact (hloop rounds stop finish).2 (bind_eq_error.2 (.inl hrun))

/-- A turn of a list of statements is an attempt at one of them. -/
theorem Turned.of_attempt {loop : Nat → Parser (List Node)}
    (hloops : Loop bound turns test loop) (hbound : start.rest.length < bound)
    (hrest : start.rest ≠ [])
    (hstep : ∀ rounds, loop (rounds + 1) start = (do
      let node ← attempt (statement (nested bound))
      let nodes ← loop rounds
      return node.toList ++ nodes) start) :
    Turned bound turns test loop start := by
  have hphrase := bounded_nested hbound
  have hbounded : Bounded start.rest.length (attempt (statement (nested bound))) := inferInstance
  refine .of_first (attempt (statement (nested bound))) (fun _ => loop) (.refl _)
    (fun _ => hbounded.ne_error (Nat.le_refl _)) ?_ ?_ (fun _ => hloops)
    fun rounds stop finish => ?_
  · intro node finish hrun
    exact Consuming.ok hrun hrest
  · intro stop finish hrun hstop
    exact Consuming.error hrun hstop hrest
  · rw [hstep, bind_return_eq_error]

/-- One turn of a block: a statement and the others behind it. -/
theorem blockStatements_step {phrase : Phrase → Parser Node}
    (h : start.next ∉ [Kind.closeBrace, .eof]) :
    blockStatements phrase (turn + 1) start = (do
      let node ← attempt (statement phrase)
      let nodes ← blockStatements phrase turn
      return node.toList ++ nodes) start := by
  rw [blockStatements, peek_bind]
  generalize start.next = kind at h
  cases kind <;> first | rfl | exact absurd (by simp) h

/-- One turn of a list: an item behind its comma and the others behind it. -/
theorem moreItems_comma {close last : Kind} {item : Parser α} {token : Token} {rest : List Token}
    {errors : List SyntaxError} (h : token.kind = .comma) :
    moreItems close item (turn + 1) ⟨last, token :: rest, errors⟩ = (do
      let value ← item
      let values ← moreItems close item turn
      return value :: values) ⟨token.kind, rest, errors⟩ := by
  have haccept : accept .comma ⟨last, token :: rest, errors⟩ =
      .ok true ⟨token.kind, rest, errors⟩ := by
    simp [accept, h]
  show EStateM.bind (accept .comma) _ _ = _
  rw [EStateM.bind, haccept]
  rfl

/-- One turn of climbing: an operator that binds tighter and what climbs behind it. -/
theorem climb_operator {phrase : Phrase → Parser Node} {power : Nat} {last : Kind} {left : Node}
    {token : Token} {rest : List Token} {errors : List SyntaxError}
    (h : power < token.kind.power) :
    climb phrase turns power (turn + 1) left ⟨last, token :: rest, errors⟩ = (do
      let extended ← application phrase turns token left
      climb phrase turns power turn extended) ⟨token.kind, rest, errors⟩ := by
  show (if power < token.kind.power then _ else _ : Parser Node) ⟨last, token :: rest, errors⟩ = _
  rw [if_pos h]
  rfl

/-- No loop takes another turn at the end of the text. -/
theorem Loop.not_test_eof (h : Loop bound turns test loop) : ¬ test .eof := by
  cases h with
  | program => exact fun hne => hne rfl
  | block => exact fun hnot => hnot (by simp)
  | operators power left => exact Nat.not_lt_zero power
  | list close hitem => exact nofun

/-- What a turn whose test passes comes to. -/
theorem Loop.turned (h : Loop bound turns test loop) (hbound : start.rest.length < bound)
    (hturns : start.rest.length < turns) (htest : test start.next) :
    Turned bound turns test loop start := by
  obtain ⟨last, _ | ⟨token, rest⟩, errors⟩ := start
  · exact absurd htest h.not_test_eof
  · have hless : rest.length < bound := Nat.lt_of_succ_lt hbound
    have hfewer : rest.length < turns := Nat.lt_of_succ_lt hturns
    cases h with
    | program =>
        refine .of_attempt .program hbound (List.cons_ne_nil _ _) fun rounds => ?_
        exact programStatements_step htest
    | block =>
        refine .of_attempt .block hbound (List.cons_ne_nil _ _) fun rounds => ?_
        exact blockStatements_step htest
    | operators power left =>
        have hphrase := bounded_nested hless
        have hbounded : Bounded rest.length (application (nested bound) turns token left) :=
          bounded_application token left hfewer
        refine .of_first (application (nested bound) turns token left)
          (fun extended => (climb (nested bound) turns power · extended)) (.token ..)
          (fun _ => hbounded.ne_error (Nat.le_refl _)) ?_ ?_ (fun _ => .operators ..)
          fun rounds stop finish => ?_
        · intro extended finish hrun
          exact Nat.lt_succ_of_le (Forward.ok hrun).length_le
        · intro stop finish hrun _
          exact Nat.lt_succ_of_le (Forward.error hrun).1.length_le
        · rw [climb_operator htest]
    | list close hitem =>
        have hforward := hitem.forward
        have hbounded := hitem.bounded hless hfewer
        refine .of_first _ (fun _ => moreItems close _) (.token ..)
          (fun _ => hbounded.ne_error (Nat.le_refl _)) ?_ ?_ (fun _ => .list close hitem)
          fun rounds stop finish => ?_
        · intro value finish hrun
          exact Nat.lt_succ_of_le (hforward.ok hrun).length_le
        · intro stop finish hrun _
          exact Nat.lt_succ_of_le (hforward.error hrun).1.length_le
        · rw [moreItems_comma htest, bind_return_eq_error]

/-- A loop whose test fails takes no other turn. -/
theorem Loop.ends (h : Loop bound turns test loop) (htest : ¬ test start.next) :
    ¬ Begins loop start (turn + 1) here := by
  intro hbegins
  have hlength := Nat.le_refl start.rest.length
  cases h with
  | program =>
      have heof : start.next = .eof := Classical.not_not.1 htest
      rw [Begins, programStatements_end heof] at hbegins
      cases hbegins
  | block =>
      have hends : Bounded start.rest.length (do let _ ← shift; return ([] : List Node)) :=
        inferInstance
      rw [Begins, blockStatements, peek_bind] at hbegins
      have hkind : start.next = .closeBrace ∨ start.next = .eof := by
        simpa using Classical.not_not.1 htest
      rcases hkind with hclose | heof
      · rw [hclose] at hbegins
        exact hends.ne_error hlength hbegins
      · rw [heof] at hbegins
        cases hbegins
  | operators power left =>
      obtain ⟨last, _ | ⟨token, rest⟩, errors⟩ := start
      · cases hbegins
      · have hloose : ¬ power < token.kind.power := htest
        have hbegins : (if power < token.kind.power then _ else _ : Parser Node)
          ⟨last, token :: rest, errors⟩ = .error .exhausted here := hbegins
        rw [if_neg hloose] at hbegins
        cases hbegins
  | @list α item close hitem =>
      have hends : Bounded start.rest.length (do let _ ← expect close; return ([] : List α)) :=
        inferInstance
      have haccept : accept .comma start = .ok false start := by
        obtain ⟨last, _ | ⟨token, rest⟩, errors⟩ := start
        · rfl
        · exact if_neg htest
      have hbegins : EStateM.bind (accept .comma) _ start = .error .exhausted here := hbegins
      rw [EStateM.bind, haccept] at hbegins
      exact hends.ne_error hlength hbegins

theorem Loop.begins_zero (h : Loop bound turns test loop) : Begins loop start 0 start := by
  cases h <;> rfl

/-- A turn that a loop begins with its test passed ends at least one token later, at the next turn
or where the loop is given up. -/
theorem Loop.turn_consumes (h : Loop bound turns test loop) (hbound : start.rest.length < bound)
    (hturns : start.rest.length < turns) (hbegins : Begins loop start turn here)
    (htest : test here.next) :
    ∃ stop there, loop (turn + 1) start = .error stop there ∧ here.Reaches there ∧
      there.rest.length < here.rest.length := by
  induction turn generalizing loop start with
  | zero =>
      cases h.begins_zero.symm.trans hbegins
      cases h.turned hbound hturns htest with
      | @again next middle hnext hreaches hpasses hloop =>
          exact ⟨.exhausted, middle, (hloop 0 _ _).2 hnext.begins_zero, hreaches, hpasses⟩
      | @left stop finish _ hreaches hpasses hloop =>
          exact ⟨stop, finish, hloop 0, hreaches, hpasses⟩
  | succ turn ih =>
      by_cases hgo : test start.next
      · cases h.turned hbound hturns hgo with
        | @again next middle hnext hreaches hpasses hloop =>
            obtain ⟨stop, there, hrun, hthere⟩ := ih hnext (Nat.lt_trans hpasses hbound)
              (Nat.lt_trans hpasses hturns) ((hloop turn _ _).1 hbegins)
            exact ⟨stop, there, (hloop (turn + 1) _ _).2 hrun, hthere⟩
        | @left stop finish hstop _ _ hloop =>
            cases (hloop turn).symm.trans hbegins
            exact absurd rfl hstop
      · exact absurd hbegins (h.ends hgo)

end Loops

section Methods

variable {α : Type} {bound turns : Nat} {parser : Parser α} {start finish : State}

/-- Every parser comes to an end without moving backwards, where the bounds are larger than the
number of unread tokens. -/
theorem Method.terminates (h : Method bound turns parser) (hbound : start.rest.length < bound)
    (hturns : start.rest.length < turns) :
    (∃ value finish, parser start = .ok value finish ∧ start.Reaches finish) ∨
      ∃ stop finish, parser start = .error stop finish ∧ stop ≠ .exhausted ∧
        start.Reaches finish := by
  have hforward := h.forward
  have hbounded : Bounded start.rest.length parser := h.bounded hbound hturns
  cases hrun : parser start with
  | ok value finish => exact .inl ⟨value, finish, rfl, hforward.ok hrun⟩
  | error stop finish =>
      refine .inr ⟨stop, finish, rfl, fun hstop => ?_, (hforward.error hrun).1⟩
      subst hstop
      exact hbounded.ne_error (Nat.le_refl _) hrun

/-- The statements of a program are read up to the end of the text. -/
theorem next_of_programStatements {phrase : Phrase → Parser Node} {nodes : List Node}
    (h : programStatements phrase turns start = .ok nodes finish) : finish.next = .eof := by
  induction turns generalizing start nodes with
  | zero => cases h
  | succ turns ih =>
      by_cases hnext : start.next = .eof
      · rw [programStatements_end hnext] at h
        cases h
        exact hnext
      · rw [programStatements_step hnext] at h
        obtain ⟨node, middle, -, h⟩ := bind_eq_ok.1 h
        obtain ⟨rest, last, hrest, h⟩ := bind_eq_ok.1 h
        cases h
        exact ih hrest

/-- Reading that is not stopped leaves no token unread. -/
theorem rest_of_readTokens {tokens : List Token} {nodes : List Node}
    (htokens : ∀ token ∈ tokens, token.kind ≠ .eof)
    (h : readTokens tokens = .ok nodes finish) : finish.rest = [] := by
  have hforward : Forward (programStatements (nested (tokens.length + 1)) (tokens.length + 1)) :=
    inferInstance
  have hsuffix : finish.rest <:+ tokens := (hforward.ok h).suffix
  have hnext := next_of_programStatements h
  cases hrest : finish.rest with
  | nil => rfl
  | cons token rest =>
      rw [State.next, hrest] at hnext
      have hmem : token ∈ finish.rest := hrest ▸ List.mem_cons_self
      exact absurd hnext (htokens token (hsuffix.mem hmem))

end Methods

end Parser

open Scriptlet.Parser

/-- Reading comes to an end on every text and from every state. A text whose integer literals are
not too long is read to its last token. Every parser ends without moving backwards, with a result or
because of what it has read. Calls inside a call go forward, and a statement inside a statement and
a phrase inside a phrase begin at least one token later. A turn of a loop whose test passes ends at
least one token later, at the next turn or where the loop is given up. -/
theorem parse_reaches_end :
    (∀ source : String, Legible (Token.ofText source) →
      ∃ parsed finish, parse source = .ok parsed ∧
        readTokens (Token.ofText source) = .ok parsed.statements finish ∧ finish.rest = []) ∧
    (∀ {bound turns : Nat} {α : Type} {parser : Parser α}, Method bound turns parser →
      ∀ start : State, start.rest.length < bound → start.rest.length < turns →
        (∃ value finish, parser start = .ok value finish ∧ start.Reaches finish) ∨
          ∃ stop finish, parser start = .error stop finish ∧ stop ≠ .exhausted ∧
            start.Reaches finish) ∧
    (∀ outer inner : Call, Relation.TransGen Call.Makes outer inner →
      outer.state.Reaches inner.state ∧
        ((outer.form = .statement → inner.form = .statement) →
          inner.state.rest.length < outer.state.rest.length)) ∧
    ∀ {bound turns : Nat} {α : Type} {test : Kind → Prop} {loop : Nat → Parser α},
      Loop bound turns test loop → ∀ (start : State) (turn : Nat) (here : State),
        start.rest.length < bound → start.rest.length < turns → Begins loop start turn here →
        test here.next →
        ∃ stop there, loop (turn + 1) start = .error stop there ∧ here.Reaches there ∧
          there.rest.length < here.rest.length := by
  refine ⟨fun source hlegible => ?_, fun hmethod _ => hmethod.terminates,
    fun _ _ => Call.passes_of_makes, fun hloop _ _ _ => hloop.turn_consumes⟩
  obtain ⟨nodes, finish, hrun⟩ := readTokens_total hlegible
  refine ⟨⟨nodes, finish.errors⟩, finish, parse_eq_ok_iff.2 ⟨finish, hrun, rfl⟩, hrun, ?_⟩
  exact rest_of_readTokens (fun _ => Token.kind_ne_eof_of_mem_lex) hrun

/-- A function whose block is not closed: the second statement in it begins behind the statement
that the function is, and the turn for it ends behind the first one. -/
theorem parse_reaches_end_unclosed :
    ∃ tokens, Token.ofText "fn() \x7b x; y" = tokens ∧ Legible tokens ∧
      (∃ parsed finish, parse "fn() \x7b x; y" = .ok parsed ∧
        readTokens tokens = .ok parsed.statements finish ∧ finish.rest = []) ∧
      Method 8 8 (nested 8 .block) ∧
      (∃ stop finish, nested 8 .block ⟨.closeParen, tokens.drop 3, []⟩ = .error stop finish ∧
        stop ≠ .exhausted) ∧
      Relation.TransGen Call.Makes ⟨.statement, 8, .initial tokens⟩
        ⟨.statement, 6, ⟨.semicolon, tokens.drop 6, []⟩⟩ ∧
      (tokens.drop 6).length < tokens.length ∧
      Begins (blockStatements (nested 8)) ⟨.openBrace, tokens.drop 4, []⟩ 1
        ⟨.semicolon, tokens.drop 6, []⟩ ∧
      ∃ stop there, blockStatements (nested 8) 2 ⟨.openBrace, tokens.drop 4, []⟩ =
        .error stop there ∧ there.rest.length < (tokens.drop 6).length := by
  have hlist : Token.ofText "fn() \x7b x; y" =
      [⟨.wordFn, "fn", ⟨1, 1⟩⟩, ⟨.openParen, "(", ⟨1, 3⟩⟩, ⟨.closeParen, ")", ⟨1, 4⟩⟩,
        ⟨.openBrace, "\x7b", ⟨1, 6⟩⟩, ⟨.ident, "x", ⟨1, 8⟩⟩, ⟨.semicolon, ";", ⟨1, 9⟩⟩,
        ⟨.ident, "y", ⟨1, 11⟩⟩] := by
    decide +kernel
  have hlegible : Legible (Token.ofText "fn() \x7b x; y") := by
    rw [hlist]
    unfold Legible
    decide +kernel
  obtain ⟨hread, hmethods, hcalls, hloops⟩ := parse_reaches_end
  have hparsed := hread "fn() \x7b x; y" hlegible
  refine ⟨_, rfl, hlegible, hparsed, .phrase .block, ?_⟩
  generalize Token.ofText "fn() \x7b x; y" = tokens at hlist
  have hstatement : Call.Makes ⟨.statement, 8, .initial tokens⟩
      ⟨.phrase (.expression 0), 8, .initial tokens⟩ := by
    subst hlist
    exact .statement rfl
  have hexpression : Call.Makes ⟨.phrase (.expression 0), 8, .initial tokens⟩
      ⟨.phrase .block, 7, ⟨.closeParen, tokens.drop 3, []⟩⟩ := by
    subst hlist
    exact .expression rfl
  have hturn (bound : Nat) :
      Begins (blockStatements (nested (bound + 1))) ⟨.openBrace, tokens.drop 4, []⟩ 1
        ⟨.semicolon, tokens.drop 6, []⟩ := by
    subst hlist
    rfl
  have hblock : Call.Makes ⟨.phrase .block, 7, ⟨.closeParen, tokens.drop 3, []⟩⟩
      ⟨.statement, 6, ⟨.semicolon, tokens.drop 6, []⟩⟩ := by
    subst hlist
    exact .block rfl (hturn 5) (by decide)
  have hchain := (Relation.TransGen.single hstatement).tail hexpression |>.tail hblock
  have hpasses := (hcalls _ _ hchain).2 fun _ => rfl
  have htest : State.next ⟨.semicolon, tokens.drop 6, []⟩ ∉ [Kind.closeBrace, .eof] := by
    subst hlist
    decide
  have hcount : (tokens.drop 3).length < 8 ∧ (tokens.drop 4).length < 8 := by
    subst hlist
    decide
  have hmethod : Method 8 8 (nested 8 .block) := .phrase .block
  have hloop : Loop 8 8 (· ∉ [Kind.closeBrace, .eof]) (blockStatements (nested 8)) := .block
  obtain ⟨stop, there, hrun, -, hthere⟩ :=
    hloops hloop _ 1 _ hcount.2 hcount.2 (hturn 7) htest
  refine ⟨?_, hchain, hpasses, hturn 7, stop, there, hrun, hthere⟩
  rcases hmethods hmethod ⟨.closeParen, tokens.drop 3, []⟩ hcount.1 hcount.1 with
    ⟨_, _, hok, -⟩ | ⟨stop, finish, herror, hstop, -⟩
  · subst hlist
    cases hok
  · exact ⟨stop, finish, herror, hstop⟩

end Scriptlet
