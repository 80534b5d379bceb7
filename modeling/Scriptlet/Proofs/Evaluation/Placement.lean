import Scriptlet.Proofs.Evaluation.Custody
import Scriptlet.Proofs.Evaluation.Layout
import Scriptlet.Proofs.Parser.Formation
import Scriptlet.Proofs.Token.Spelling

/-!
# Faults point at their tokens

A fault that a run of a parsed program ends with has a place, and it is that of a token which its
cause determines: an unbound name points at the name, a wrong operand at the operator, a wrong call
at its parenthesis (`fault_points`). The rules that evaluation keeps are that all code is part of
the program and was formed from its tokens, functions in the store included; so the node that raises
a fault, the first one on its way outward, has such a token as its origin.
-/

namespace Scriptlet

/-- The token that a fault of a run of the program points at. A redeclared name points at the
declaration or, where a function has a parameter twice, at a call, the one that applied it. -/
def Fault.PointsAt (program : Node) (token : Token) : Fault → Prop
  | .unbound name => token.kind = .ident ∧ name = token.text
  | .redeclared name => token.kind = .wordLet ∨
      token.kind = .openParen ∧
        (∃ callee arguments, program.Contains (.call (some token) callee arguments)) ∧
        ∃ origin parameters body, program.Contains (.function origin parameters body) ∧
          1 < (Node.declaredNames parameters).count name
  | .badTarget => token.kind = .assign
  | .divisionByZero => token.kind = .slash ∨ token.kind = .percent
  | .indexRange => token.kind = .openBracket
  | .badIndex => token.kind = .openBracket
  | .badKey _ => token.kind = .openBrace
  | .notCallable => token.kind = .openParen
  | .argumentCount _ _ => token.kind = .openParen
  | .hostArgumentCount _ _ => token.kind = .openParen
  | .noLength _ => token.kind = .openParen
  | .noMember _ _ => token.kind = .dot
  | .badUnary operator _ => token.kind = .minus ∧ operator = "-"
  | .mismatch _ operator _ => token.text = operator
  | .badBinary _ operator => token.text = operator

namespace Value

variable {cause : Fault}

/-- The fault of an operator in front of a value. -/
theorem unary_error {operator : String} {operand : Value}
    (h : unary operator operand = .error cause) :
    operator ≠ "!" ∧ cause = .badUnary operator operand.type := by
  unfold unary at h
  split at h
  · cases h
  · next hoperator =>
      split at h
      · cases h
      · exact ⟨hoperator, (Except.error.inj h).symm⟩

theorem integerBinary_error {operator : String} {left right : Int}
    (h : integerBinary operator left right = .error cause) :
    cause = .badBinary .integer operator ∨
      cause = .divisionByZero ∧ (operator = "/" ∨ operator = "%") := by
  unfold integerBinary at h
  split at h
  · next operation hoperation =>
      split at h
      · cases h
      · next hnone =>
          refine .inr ⟨(Except.error.inj h).symm, ?_⟩
          -- Sums and products have a result, so the operator is one of the two divisions.
          unfold Integer.Arithmetic.ofText? at hoperation
          split at hoperation
          case h_1 | h_2 | h_3 =>
              cases hoperation
              cases hnone
          case h_4 => exact .inl rfl
          case h_5 => exact .inr rfl
          case h_6 => cases hoperation
  · split at h
    · cases h
    · exact .inl (Except.error.inj h).symm

/-- The faults of an operator between two values. -/
theorem binary_error {operator : String} {left right : Value}
    (h : binary operator left right = .error cause) :
    (∃ type, cause = .badBinary type operator) ∨
      (∃ first second, cause = .mismatch first operator second) ∨
      cause = .divisionByZero ∧ (operator = "/" ∨ operator = "%") := by
  unfold binary at h
  split at h
  · cases h
  · split at h
    · cases h
    · split at h
      · rcases integerBinary_error h with hcause | hcause
        · exact .inl ⟨_, hcause⟩
        · exact .inr (.inr hcause)
      · split at h
        · cases h
        · exact .inl ⟨_, (Except.error.inj h).symm⟩
      · rw [← Except.error.inj h]
        unfold binaryFault
        split
        · exact .inl ⟨_, rfl⟩
        · exact .inr (.inl ⟨_, _, rfl⟩)

theorem index_error {target position : Value} (h : index target position = .error cause) :
    cause = .indexRange ∨ cause = .badIndex := by
  unfold index at h
  split at h
  · split at h
    · exact .inl (Except.error.inj h).symm
    · split at h
      · cases h
      · exact .inl (Except.error.inj h).symm
  · cases h
  · exact .inr (Except.error.inj h).symm

/-- The fault of a member access. -/
theorem member_error {target : Value} {name : Name} (h : member target name = .error cause) :
    ∃ type, cause = .noMember type name := by
  unfold member at h
  split at h
  · split at h
    · cases h
    · exact ⟨_, (Except.error.inj h).symm⟩
  · split at h
    · cases h
    · exact ⟨_, (Except.error.inj h).symm⟩
  · cases h
  · exact ⟨_, (Except.error.inj h).symm⟩

theorem length_error {arguments : List Value} (h : length arguments = .error cause) :
    (∃ type, cause = .noLength type) ∨ ∃ got want, cause = .hostArgumentCount got want := by
  unfold length at h
  split at h
  · cases h
  · cases h
  · exact .inl ⟨_, (Except.error.inj h).symm⟩
  · exact .inr ⟨_, _, (Except.error.inj h).symm⟩

end Value

/-- A fault that a node raises has no place yet. -/
theorem Node.Raises.faults {node : Node} {cause : Fault} {position : Option Position}
    (h : node.Raises (.fault cause position)) : position = none ∧ node.Faults cause := by
  generalize hfailed : Failure.fault cause position = failed at h
  cases h with
  | fault hfaults =>
      obtain ⟨rfl, rfl⟩ := Failure.eq_of_raised_eq hfailed.symm
      exact ⟨rfl, hfaults⟩
  | hole | nameless | memberless | sink => cases hfailed

/-- A fault that a function is refused with has no place yet. -/
theorem Closure.Refuses.rejects {closure : Closure} {values : List Value} {cause : Fault}
    {position : Option Position} (h : closure.Refuses values (.fault cause position)) :
    position = none ∧ closure.Rejects values cause := by
  generalize hfailed : Failure.fault cause position = failed at h
  cases h with
  | fault hrejects =>
      obtain ⟨rfl, rfl⟩ := Failure.eq_of_raised_eq hfailed.symm
      exact ⟨rfl, hrejects⟩
  | nameless => cases hfailed

section Raising

variable {program : Node} {token : Token} {cause : Fault}

/-- A binary operator that divides is a slash or a percent sign. -/
theorem kind_of_division (hspelled : Token.Spelled token.kind token.text.toList)
    (hbinary : token.kind.isBinary = true) (h : token.text = "/" ∨ token.text = "%") :
    token.kind = .slash ∨ token.kind = .percent := by
  have hsymbol : token.kind.symbol? = some token.text := by
    obtain ⟨symbol, hkind⟩ := Option.isSome_iff_exists.1 (Kind.isSome_symbol?_of_isBinary hbinary)
    rw [hspelled.symbol?_eq hkind, hkind]
  rcases h with htext | htext
  · rw [htext] at hsymbol
    revert hsymbol
    cases token.kind <;> decide
  · rw [htext] at hsymbol
    revert hsymbol
    cases token.kind <;> decide

/-- A fault of a node points at the token that introduces it. -/
theorem pointsAt_of_faults {node : Node} (hspelled : Token.Spelled token.kind token.text.toList)
    (hbegins : node.Begins token) (h : node.Faults cause) :
    cause.PointsAt program token := by
  cases h with
  | redeclared => exact .inl hbegins
  | unbound => exact ⟨hbegins.1, congrArg Name.text hbegins.2⟩
  | badKey => exact hbegins
  | badTarget => exact hbegins
  | notCallable => exact hbegins
  | unary hunary =>
      obtain ⟨hbang, rfl⟩ := Value.unary_error hunary
      obtain ⟨hkind | hkind, rfl⟩ := hbegins
      · exact absurd (hspelled.symbol?_eq (by rw [hkind]; rfl)) hbang
      · exact ⟨hkind, hspelled.symbol?_eq (by rw [hkind]; rfl)⟩
  | binary hbinary =>
      obtain ⟨hkind, -, rfl⟩ := hbegins
      rcases Value.binary_error hbinary with ⟨type, rfl⟩ | ⟨first, second, rfl⟩ | ⟨rfl, hdivides⟩
      · rfl
      · rfl
      · exact kind_of_division hspelled hkind hdivides
  | index hindex =>
      rcases Value.index_error hindex with rfl | rfl
      · exact hbegins
      · exact hbegins
  | member _ hmember =>
      obtain ⟨type, rfl⟩ := Value.member_error hmember
      exact hbegins
  | length hlength =>
      rcases Value.length_error hlength with ⟨type, rfl⟩ | ⟨got, want, rfl⟩
      · exact hbegins
      · exact hbegins

/-- What a function is refused with points at the parenthesis of the call. -/
theorem pointsAt_of_rejects {origin : Origin} {closure : Closure} {values : List Value}
    {callee : Node} {arguments : List Node}
    (hcall : program.Contains (.call (some token) callee arguments))
    (hcode : program.Contains (.function origin closure.parameters closure.body))
    (hparen : token.kind = .openParen) (h : closure.Rejects values cause) :
    cause.PointsAt program token := by
  cases h with
  | count => exact hparen
  | duplicate hcount => exact .inr ⟨hparen, ⟨_, _, hcall⟩, _, _, _, hcode, hcount⟩

end Raising

/-- The failure is no fault, or it has the place of a token that its cause points at. -/
def Failure.Sited (program : Node) (tokens : List Token) (failure : Failure) : Prop :=
  ∀ cause position, failure = .fault cause position →
    ∃ token ∈ tokens, position = some token.position ∧ cause.PointsAt program token

namespace Failure

variable {program : Node} {tokens : List Token} {failure : Failure}

/-- A fault that gets its place from a token it points at. -/
theorem sited_located {token : Token} (htoken : token ∈ tokens) (hline : 0 < token.position.line)
    (h : ∀ cause position, failure = .fault cause position →
      position = none ∧ cause.PointsAt program token) :
    (failure.located (some token)).Sited program tokens := by
  intro cause position heq
  cases failure with
  | sink | flaw => cases heq
  | fault other place =>
      obtain ⟨rfl, hpoints⟩ := h other place rfl
      have hplace : Origin.position? (some token) = some token.position :=
        if_neg (Nat.ne_of_gt hline)
      simp only [located, hplace, fault.injEq] at heq
      obtain ⟨rfl, rfl⟩ := heq
      exact ⟨token, htoken, rfl, hpoints⟩

/-- A fault with a place keeps it on its way outward. -/
theorem Sited.located (h : failure.Sited program tokens) (origin : Origin) :
    (failure.located origin).Sited program tokens := by
  cases failure with
  | sink | flaw => exact h
  | fault cause position =>
      obtain ⟨token, -, rfl, -⟩ := h cause position rfl
      exact h

end Failure

namespace Discipline

/-- All code is part of the program, and faults have the places of tokens they point at. -/
def sited (program : Node) (tokens : List Token)
    (hspelled : ∀ token ∈ tokens, Token.Spelled token.kind token.text.toList)
    (hline : ∀ token ∈ tokens, 0 < token.position.line) : Discipline where
  code node := program.Contains node ∧ ∃ place, node.Formed tokens place
  fits _ value := ∀ object closure, value = .function object closure →
    ∃ origin, program.Contains (.function origin closure.parameters closure.body) ∧
      ∃ place, (Node.function origin closure.parameters closure.body).Formed tokens place
  link _ _ := True
  failure := Failure.Sited program tokens
  count _ := True
  part := by
    rintro node inner ⟨hcontains, place, hformed⟩ hinner
    exact ⟨hcontains.step hinner, hformed.child hinner⟩
  later h _ := h
  simple := by
    rintro size value hsimple object closure rfl
    cases hsimple
  array := nofun
  map := nofun
  counted _ := nofun
  literal _ := nofun
  made := by
    rintro size origin parameters body scope id hcode - object closure ⟨⟩
    exact ⟨origin, hcode⟩
  body := by
    intro size id closure hfits
    obtain ⟨origin, hcontains, place, hformed⟩ := hfits id closure rfl
    have hbody : closure.body ∈ (Node.function origin closure.parameters closure.body).children :=
      List.mem_append_right _ List.mem_cons_self
    exact ⟨hcontains.step hbody, hformed.child hbody⟩
  linked _ := trivial
  raised := by
    rintro node failed ⟨-, place, hformed⟩ hraises
    obtain ⟨token, htoken, horigin, hbegins⟩ := hformed.begins
    rw [horigin]
    refine Failure.sited_located htoken (hline token htoken) ?_
    rintro cause position rfl
    obtain ⟨rfl, hfaults⟩ := hraises.faults
    exact ⟨rfl, pointsAt_of_faults (hspelled token htoken) hbegins hfaults⟩
  refused := by
    rintro origin callee arguments size id closure values failed ⟨hcall, place, hformed⟩ hfits
      hrefuses
    obtain ⟨token, htoken, horigin, hbegins⟩ := hformed.begins
    obtain ⟨word, hcontains, -⟩ := hfits id closure rfl
    obtain rfl : origin = some token := horigin
    refine Failure.sited_located htoken (hline token htoken) ?_
    rintro cause position rfl
    obtain ⟨rfl, hrejects⟩ := hrefuses.rejects
    exact ⟨rfl, pointsAt_of_rejects hcall hcontains hbegins hrejects⟩
  outward _ h := h.located _

/-- A fresh root is ready for evaluation if every link is allowed. -/
theorem ready_freshRoot (rules : Discipline) {sink : Sink} {root : ScopeId × Store}
    (h : root ∈ Store.freshRoots sink) (hlink : ∀ id parent, rules.link id parent) :
    rules.Ready root.1 root.2 := by
  have hlinks : ∀ {id parent}, root.2.parent? id = some parent → rules.link id parent :=
    fun _ => hlink _ _
  rcases List.mem_cons.1 h with rfl | h
  · rw [openRoot_empty] at hlinks ⊢
    refine ⟨Nat.one_pos, ?_, hlinks⟩
    intro id scope hscope binding hbinding
    cases id with
    | succ id => cases hscope
    | zero =>
        cases hscope
        rw [List.mem_singleton.1 hbinding]
        exact fits_of_simple .builtin
  · rw [List.mem_singleton.1 h] at hlinks ⊢
    refine ⟨Nat.one_pos, ?_, hlinks⟩
    intro id scope hscope binding hbinding
    cases id with
    | succ id => cases hscope
    | zero =>
        cases hscope
        cases hbinding

end Discipline

/-- A reported failure is one that evaluation stops with. -/
theorem eval_of_reported {limits : Limits} {scope : ScopeId} {node : Node} {store : Store}
    {failure : Failure} (h : (node.evaluate limits scope store).1 = .reported failure) :
    ∃ final, node.eval limits.model limits.rounds scope store = .error (.failed failure) final := by
  rw [Node.evaluate] at h
  split at h
  · cases h
  · cases h
  · next final hfailed =>
      simp only at h
      split at h
      · cases h
        exact ⟨final, hfailed⟩
      · cases h
  · cases h

/-- A fault that a run of a program in a fresh outermost scope ends with has a place, and it is that
of a token of the text which the cause of the fault points at. -/
theorem fault_points (source : String) (parsed : Parsed) (hparse : parse source = .ok parsed)
    (limits : Limits) (sink : Sink) (root : ScopeId × Store) (hroot : root ∈ Store.freshRoots sink)
    (cause : Fault) (position : Option Position)
    (hrun : (parsed.program.evaluate limits root.1 root.2).1 = .reported (.fault cause position)) :
    ∃ token ∈ Token.tokenize source, position = some token.position ∧
      cause.PointsAt parsed.program token := by
  have hmem : ∀ token ∈ Token.ofText source, token ∈ Token.tokenize source :=
    fun _ htoken => List.mem_append_left _ htoken
  let rules := Discipline.sited parsed.program (Token.ofText source)
    (fun _ htoken => Token.spelled_of_mem_ofText htoken)
    (fun token htoken => Token.line_pos_of_mem_tokenize (hmem token htoken))
  have hcode : ∀ node ∈ parsed.statements, rules.code node := by
    intro node hnode
    exact ⟨Node.Contains.self.step hnode, .statement, formed_of_parse hparse node hnode⟩
  have hready : rules.Ready root.1 root.2 := rules.ready_freshRoot hroot fun _ _ => trivial
  have hends : rules.Ends rules.failure rules.Fits
      (parsed.program.eval limits.model limits.rounds root.1) root.2 := by
    rw [Parsed.program, Node.eval]
    exact Discipline.evalStatements_ends (Discipline.invoke_ends limits.calls) parsed.statements
      hcode hready (Discipline.fits_of_simple .null)
  obtain ⟨final, hfailed⟩ := eval_of_reported hrun
  cases (hends.error hfailed).2 with
  | failed hsited =>
      obtain ⟨token, htoken, hposition, hpoints⟩ := hsited cause position rfl
      exact ⟨token, hmem token htoken, hposition, hpoints⟩

/-- The fault that a run ended with, and its place. -/
def Outcome.fault? : Outcome → Option (Fault × Option Position)
  | .reported (.fault cause position) => some (cause, position)
  | _ => none

/-- An outcome with a fault is a report of it. -/
theorem Outcome.eq_of_fault? {outcome : Outcome} {cause : Fault} {position : Option Position}
    (h : outcome.fault? = some (cause, position)) :
    outcome = .reported (.fault cause position) := by
  unfold fault? at h
  split at h
  · cases h
    rfl
  · cases h

/-- A function with a parameter twice: the fault points at the parenthesis of its call. -/
theorem fault_points_duplicate :
    let source := "fn(a, a) \x7b 1 \x7d(1, 2)"
    let root := (Store.empty .recording).openRoot
    ∃ parsed, parse source = .ok parsed ∧
      (parsed.program.evaluate ⟨1, 1⟩ root.1 root.2).1 =
        .reported (.fault (.redeclared "a") (some ⟨1, 15⟩)) ∧
      ∃ token ∈ Token.tokenize source, some ⟨1, 15⟩ = some token.position ∧
        (Fault.redeclared "a").PointsAt parsed.program token := by
  intro source root
  have hrun : (parse source).toOption.bind (fun parsed =>
      (parsed.program.evaluate ⟨1, 1⟩ root.1 root.2).1.fault?) =
        some (.redeclared "a", some ⟨1, 15⟩) := by
    decide +kernel
  obtain ⟨parsed, hparsed, hfault⟩ := Option.bind_eq_some_iff.1 hrun
  have hparse : parse source = .ok parsed := by
    cases hsource : parse source with
    | error stop =>
        rw [hsource] at hparsed
        cases hparsed
    | ok other =>
        rw [hsource] at hparsed
        cases hparsed
        rfl
  have hreported := Outcome.eq_of_fault? hfault
  exact ⟨parsed, hparse, hreported, fault_points source parsed hparse ⟨1, 1⟩ .recording root
    List.mem_cons_self (.redeclared "a") (some ⟨1, 15⟩) hreported⟩

end Scriptlet
