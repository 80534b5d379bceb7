import Scriptlet.Proofs.Evaluation.Placement
import Scriptlet.Proofs.Evaluation.Sessions
import Scriptlet.Proofs.Parser.Acceptance
import Scriptlet.Proofs.Parser.Rereading
import Scriptlet.Proofs.Parser.Tracing

/-!
# What was read from texts runs without a flaw

A node that was read from a text can be shown and evaluated: no child is missing, names stand where
names should, and its operators are known ones. A session evaluates such nodes only, since the
functions in its store were read from one of its texts too, maybe from an earlier one. So every text
ends with a value that can be shown or with a fault of the language, whatever the texts before it
did (`submitAll_ordinary`).
-/

namespace Scriptlet

/-- The node was read from the text: it is the program of the text or a node in it. -/
inductive Node.ReadFrom (source : String) : Node → Prop where
  | program {parsed} : parse source = .ok parsed → ReadFrom source parsed.program
  | part {node place} : node.Formed (Token.ofText source) place → ReadFrom source node

namespace Node

variable {source : String} {node inner body : Node} {origin : Origin} {parameters : List Node}

/-- The children of a node that was read were read. -/
theorem ReadFrom.child (h : node.ReadFrom source) (hinner : inner ∈ node.children) :
    inner.ReadFrom source := by
  cases h with
  | program hparse => exact .part (formed_of_parse hparse inner hinner)
  | part hformed =>
      obtain ⟨place, hchild⟩ := hformed.child hinner
      exact .part hchild

/-- A node that was read can be shown. -/
theorem ReadFrom.flaw?_eq_none (h : node.ReadFrom source) (view : View) :
    node.flaw? view = none := by
  cases h with
  | program hparse =>
      exact flawList?_eq_none fun node hnode => (formed_of_parse hparse node hnode).flaw?_eq_none
  | part hformed => exact hformed.flaw?_eq_none

/-- No node that was read is missing. -/
theorem ReadFrom.ne_hole (h : node.ReadFrom source) : node ≠ hole := by
  intro hhole
  have hflaw := h.flaw?_eq_none .text
  rw [hhole] at hflaw
  cases hflaw

/-- The operators in front of an operand that can be read. -/
theorem ReadFrom.operator {operator : String} {operand : Node}
    (h : (unary origin operator operand).ReadFrom source) : operator = "!" ∨ operator = "-" := by
  cases h with
  | part hformed =>
      have hregular := hformed.regular fun _ => Token.spelled_of_mem_ofText
      simpa [Regular] using hregular

/-- Where a name should stand in a node that was read, there stands an identifier. -/
theorem ReadFrom.isIdentifier (h : node.ReadFrom source) (hinner : inner ∈ node.nameChildren) :
    inner.IsIdentifier := by
  cases h with
  | program => cases hinner
  | part hformed => exact (hformed.nameChild hinner).isIdentifier

end Node

/-- The function can be shown if it was read. -/
theorem Closure.flaw?_eq_none {closure : Closure} {source : String} {origin : Origin}
    (h : (Node.function origin closure.parameters closure.body).ReadFrom source) :
    closure.flaw? = none := by
  have hparameters : ∀ parameter ∈ closure.parameters, parameter.IsIdentifier :=
    fun parameter hmem => h.isIdentifier hmem
  have hbody : closure.body.ReadFrom source := h.child (List.mem_append_right _ List.mem_cons_self)
  rw [Closure.flaw?, Node.noNameFlaw?_eq_none hparameters, Node.noTextFlaw?_eq_none hparameters,
    Node.textFlaw?_eq_none (hbody.flaw?_eq_none .text)]
  rfl

namespace Value

mutual

/-- A value can be shown if all functions that occur in it can. -/
theorem flaw?_eq_none : ∀ value : Value,
    (∀ id closure, (function id closure).Occurs value → closure.flaw? = none) →
    value.flaw? = none
  | null, _ => rfl
  | boolean _, _ => rfl
  | integer _, _ => rfl
  | string _, _ => rfl
  | array _ elements, h => by
      rw [flaw?]
      exact flawList?_eq_none elements fun value hvalue id closure hoccurs =>
        h id closure (.element hvalue hoccurs)
  | map _ entries, h => by
      rw [flaw?]
      exact flawEntries?_eq_none entries fun entry hentry id closure hoccurs =>
        h id closure (.entry hentry hoccurs)
  | function id closure, h => by
      rw [flaw?]
      exact h id closure .self
  | builtin _, _ => rfl

/-- Values whose functions can be shown can be shown. -/
theorem flawList?_eq_none : ∀ values : List Value,
    (∀ value ∈ values, ∀ id closure, (function id closure).Occurs value → closure.flaw? = none) →
    flawList? values = none
  | [], _ => rfl
  | value :: values, h => by
      obtain ⟨hvalue, hvalues⟩ := List.forall_mem_cons.1 h
      rw [flawList?, flaw?_eq_none value hvalue, flawList?_eq_none values hvalues]
      rfl

theorem flawEntries?_eq_none : ∀ entries : List (String × Value),
    (∀ entry ∈ entries, ∀ id closure, (function id closure).Occurs entry.2 →
      closure.flaw? = none) →
    flawEntries? entries = none
  | [], _ => rfl
  | (key, value) :: entries, h => by
      obtain ⟨hvalue, hentries⟩ := List.forall_mem_cons.1 h
      rw [flawEntries?, flaw?_eq_none value hvalue, flawEntries?_eq_none entries hentries]
      rfl

end

end Value

/-- The failure is no flaw and does not come from an operator that nothing is known of. -/
structure Failure.Ordinary (failure : Failure) : Prop where
  flawless : ∀ flaw, failure ≠ .flaw flaw
  known : ∀ operator type position, failure = .fault (.badUnary operator type) position →
    operator = "-"

/-- An ordinary failure that is given a place stays one. -/
theorem Failure.Ordinary.located {failure : Failure} (h : failure.Ordinary) (origin : Origin) :
    (failure.located origin).Ordinary := by
  cases failure with
  | sink | flaw => exact h
  | fault cause position =>
      cases position with
      | some place => exact h
      | none =>
          refine ⟨nofun, fun operator type position heq => ?_⟩
          cases heq
          exact h.known operator type none rfl

/-- A fault that can be worded is no flaw. -/
theorem Failure.ordinary_raised {cause : Fault} (hflaw : cause.flaw? = none)
    (hknown : ∀ operator type, cause = .badUnary operator type → operator = "-") :
    (raised cause).Ordinary := by
  rw [raised, hflaw]
  refine ⟨nofun, fun operator type position heq => ?_⟩
  cases heq
  exact hknown operator type rfl

/-- A fault of a node that was read can be worded, and it is one of an operator only where that is
applied to a wrong operand. -/
theorem Node.ReadFrom.ordinary_of_faults {source : String} {node : Node} {cause : Fault}
    (h : node.ReadFrom source) (hfaults : node.Faults cause) :
    (Failure.raised cause).Ordinary := by
  cases hfaults with
  | redeclared hname =>
      obtain ⟨text, htext⟩ := (h.isIdentifier List.mem_cons_self).naming_eq
      obtain rfl := Except.ok.inj (htext.symm.trans hname)
      exact Failure.ordinary_raised rfl nofun
  | unary herror =>
      obtain ⟨hbang, rfl⟩ := Value.unary_error herror
      refine Failure.ordinary_raised rfl fun operator type heq => ?_
      cases heq
      exact h.operator.resolve_left hbang
  | binary herror =>
      rcases Value.binary_error herror with ⟨type, rfl⟩ | ⟨first, second, rfl⟩ | ⟨rfl, -⟩
      · exact Failure.ordinary_raised rfl nofun
      · exact Failure.ordinary_raised rfl nofun
      · exact Failure.ordinary_raised rfl nofun
  | index herror =>
      rcases Value.index_error herror with rfl | rfl
      · exact Failure.ordinary_raised rfl nofun
      · exact Failure.ordinary_raised rfl nofun
  | member hname herror =>
      obtain ⟨text, htext⟩ := (h.isIdentifier List.mem_cons_self).naming_eq
      obtain rfl := Except.ok.inj (htext.symm.trans hname)
      obtain ⟨type, rfl⟩ := Value.member_error herror
      exact Failure.ordinary_raised rfl nofun
  | length herror =>
      rcases Value.length_error herror with ⟨type, rfl⟩ | ⟨got, want, rfl⟩
      · exact Failure.ordinary_raised rfl nofun
      · exact Failure.ordinary_raised rfl nofun
  | unbound | badKey | badTarget | notCallable => exact Failure.ordinary_raised rfl nofun

/-- A node that was read raises no flaw. -/
theorem Node.ReadFrom.ordinary {source : String} {node : Node} {failure : Failure}
    (h : node.ReadFrom source) (hraises : node.Raises failure) : failure.Ordinary := by
  cases hraises with
  | fault hfaults => exact h.ordinary_of_faults hfaults
  | hole => exact absurd rfl h.ne_hole
  | nameless herror | memberless herror =>
      obtain ⟨text, htext⟩ := (h.isIdentifier List.mem_cons_self).naming_eq
      cases htext.symm.trans herror
  | sink => exact ⟨nofun, nofun⟩

/-- A function that was read is refused for no flaw. -/
theorem Closure.Refuses.ordinary {closure : Closure} {source : String} {origin : Origin}
    {values : List Value} {failure : Failure}
    (hread : (Node.function origin closure.parameters closure.body).ReadFrom source)
    (h : closure.Refuses values failure) : failure.Ordinary := by
  cases h with
  | nameless hparameter herror =>
      obtain ⟨text, htext⟩ := (hread.isIdentifier hparameter).naming_eq
      cases htext.symm.trans herror
  | fault hrejects =>
      cases hrejects with
      | count => exact Failure.ordinary_raised rfl nofun
      | @duplicate name hcount =>
          have hmem : name ∈ Node.declaredNames closure.parameters :=
            List.count_pos_iff.1 (Nat.lt_trans Nat.one_pos hcount)
          obtain ⟨parameter, hparameter, hname⟩ := List.mem_filterMap.1 hmem
          obtain ⟨text, htext⟩ := (hread.isIdentifier hparameter).naming_eq
          rw [htext] at hname
          obtain rfl := Option.some.inj hname
          exact Failure.ordinary_raised rfl nofun

/-- All code was read from texts, functions in the store included, and no flaw comes up. -/
def Discipline.read : Discipline where
  code node := ∃ source, node.ReadFrom source
  fits _ value := ∀ object closure, value = .function object closure →
    ∃ source origin, (Node.function origin closure.parameters closure.body).ReadFrom source
  link _ _ := True
  failure := Failure.Ordinary
  count _ := True
  part := by
    intro node inner hcode hinner
    obtain ⟨source, hread⟩ := hcode
    exact ⟨source, hread.child hinner⟩
  later h _ := h
  simple := by
    intro size value hsimple object closure hvalue
    subst hvalue
    cases hsimple
  array := nofun
  map := nofun
  counted _ := nofun
  literal _ := nofun
  made := by
    intro size origin parameters body scope id hcode _ object closure hvalue
    cases hvalue
    obtain ⟨source, hread⟩ := hcode
    exact ⟨source, origin, hread⟩
  body := by
    intro size id closure hfits
    obtain ⟨source, origin, hread⟩ := hfits id closure rfl
    exact ⟨source, hread.child (List.mem_append_right _ List.mem_cons_self)⟩
  linked _ := trivial
  raised := by
    intro node failed hcode hraises
    obtain ⟨source, hread⟩ := hcode
    exact (hread.ordinary hraises).located _
  refused := by
    intro origin callee arguments size id closure values failed _ hfits hrefuses
    obtain ⟨source, word, hread⟩ := hfits id closure rfl
    exact (hrefuses.ordinary hread).located origin
  outward _ h := h.located _

/-- Values that keep to the rules can be shown. -/
theorem Discipline.inspect?_of_fits {size : Nat} {value : Value} (h : read.Fits size value) :
    value.inspect? = .ok value.inspect := by
  have hflaw : value.flaw? = none := by
    refine value.flaw?_eq_none fun id closure hoccurs => ?_
    obtain ⟨source, origin, hread⟩ := h _ hoccurs id closure rfl
    exact Closure.flaw?_eq_none hread
  rw [Value.inspect?, hflaw]

/-- The text was refused for its errors, or it was run: up to a value that can be shown, up to a
fault of one of the five classes, reported once, or up to the end of the limits. -/
def Verdict.Ordinary : Verdict → Prop
  | .ran (.value value) => value.inspect? = .ok value.inspect
  | .ran (.reported failure) => ∃ cause position, failure = .fault cause position ∧
      cause.faultClass.label ∈ ["FunkeyRuntimeError", "FunkeyNameError", "FunkeyTypeError",
        "FunkeyArityError", "FunkeyIndexError"] ∧
      ∀ operator type, cause = .badUnary operator type → operator = "-"
  | .ran (.failed _) => False
  | .ran .exhausted => True
  | .rejected errors => errors ≠ []
  | .unreadable _ => False

/-- Everything that the store holds or has printed can be shown. -/
structure Store.Shown (store : Store) : Prop where
  bound : ∀ {id : ScopeId} {scope : Scope}, store.scopes[id]? = some scope →
    ∀ binding ∈ scope.bindings, binding.2.inspect? = .ok binding.2.inspect
  printed : ∀ arguments ∈ store.printed.toList, ∀ value ∈ arguments,
    value.inspect? = .ok value.inspect

/-- The classes of faults have the five names. -/
theorem FaultClass.label_mem (faults : FaultClass) :
    faults.label ∈ ["FunkeyRuntimeError", "FunkeyNameError", "FunkeyTypeError", "FunkeyArityError",
      "FunkeyIndexError"] := by
  cases faults <;> decide

/-- A conclusion within the rules is ordinary where the sink does not break. -/
theorem Discipline.ordinary_of_concludes {final : Store} {verdict : Verdict}
    (h : read.Concludes final verdict) (hsink : final.sink = .recording)
    (hreadable : ∀ stop, verdict ≠ .unreadable stop) : verdict.Ordinary := by
  cases verdict with
  | unreadable stop => exact absurd rfl (hreadable stop)
  | rejected errors => exact h
  | ran outcome =>
      cases outcome with
      | value value => exact inspect?_of_fits h
      | failed failure => exact h
      | exhausted => trivial
      | reported failure =>
          obtain ⟨hfailure, hbroken⟩ := h
          cases failure with
          | sink reason =>
              -- Only a broken sink fails, and no evaluation breaks one.
              have hcontra := hbroken reason rfl
              rw [hsink] at hcontra
              cases hcontra
          | flaw flaw => exact absurd rfl (hfailure.flawless flaw)
          | fault cause position =>
              refine ⟨cause, position, rfl, FaultClass.label_mem _, fun operator type hcause => ?_⟩
              subst hcause
              exact hfailure.known operator type position rfl

/-- A program that was read has a tree. -/
theorem toTree?_of_parse {source : String} {parsed : Parsed} (h : parse source = .ok parsed) :
    parsed.program.toTree? = .ok parsed.program.toTree := by
  have hread : parsed.program.ReadFrom source := .program h
  rw [Node.toTree?, hread.flaw?_eq_none .tree]

/-- A text whose literals are not too long is read to its end. -/
theorem exists_parse_of_legible {source : String} (h : Parser.Legible (Token.ofText source)) :
    ∃ parsed, parse source = .ok parsed := by
  obtain ⟨nodes, finish, hrun⟩ := Parser.readTokens_total h
  exact ⟨⟨nodes, finish.errors⟩, parse_eq_ok_iff.2 ⟨finish, hrun, rfl⟩⟩

/-- A text that can be read is not refused as unreadable. -/
theorem submit_ne_unreadable {limits : Limits} {scope : ScopeId} {source : String} {store : Store}
    {parsed : Parsed} (h : parse source = .ok parsed) (stop : Stop) :
    (submit limits scope source store).1 ≠ .unreadable stop := by
  simp only [submit, h]
  split
  · intro hstop
    cases hstop
  · intro hstop
    cases hstop

theorem submitAll_ne_unreadable {limits : Limits} {scope : ScopeId} {sources : List String}
    {store : Store} (h : ∀ source ∈ sources, ∃ parsed, parse source = .ok parsed) :
    ∀ step ∈ submitAll limits scope sources store, ∀ stop, step.1 ≠ .unreadable stop := by
  induction sources generalizing store with
  | nil =>
      intro step hstep
      cases hstep
  | cons source sources ih =>
      obtain ⟨⟨parsed, hparse⟩, hsources⟩ := List.forall_mem_cons.1 h
      exact List.forall_mem_cons.2 ⟨submit_ne_unreadable hparse, ih hsources⟩

/-- In a fresh store nothing was printed. -/
theorem Store.printed_freshRoot {sink : Sink} {root : ScopeId × Store}
    (h : root ∈ freshRoots sink) : root.2.sink = sink ∧ root.2.printed = #[] := by
  rcases List.mem_cons.1 h with rfl | h
  · exact ⟨rfl, rfl⟩
  · rw [List.mem_singleton.1 h]
    exact ⟨rfl, rfl⟩

/-- A store that a session from a fresh scope leaves can be shown. -/
theorem Discipline.shown_of_keeps {sink : Sink} {root : ScopeId × Store} {final : Store}
    (hroot : root ∈ Store.freshRoots sink) (h : read.Keeps root.2 final) : final.Shown where
  bound hscope binding hbinding := inspect?_of_fits (h.holds.values hscope binding hbinding)
  printed arguments harguments value hvalue := by
    obtain ⟨calls, hcalls, hfits⟩ := h.printed
    rw [hcalls, (Store.printed_freshRoot hroot).2] at harguments
    exact inspect?_of_fits (hfits arguments harguments value hvalue)

/-- Texts whose integer literals are not too long, run one behind the other in a fresh outermost
scope: each is read to its end, its program can be shown as text and as a tree, and it ends as it
should; all values that are left can be shown. No evaluation on the way, in the body of a function
from an earlier text neither, is one of a missing node or of an unknown operator. -/
theorem submitAll_ordinary (limits : Limits) (sources : List String)
    (hlegible : ∀ source ∈ sources, Parser.Legible (Token.ofText source))
    (root : ScopeId × Store) (hroot : root ∈ Store.freshRoots .recording) :
    (∀ source ∈ sources, ∃ parsed, parse source = .ok parsed ∧
      parsed.program.render? = .ok parsed.program.render ∧
      parsed.program.toTree? = .ok parsed.program.toTree) ∧
    (∀ step ∈ submitAll limits root.1 sources root.2, step.1.Ordinary ∧ step.2.Shown) ∧
    ∀ evaluation, Session.Leads limits root.1 sources root.2 evaluation →
      evaluation.node ≠ .hole ∧
      ∀ origin operator operand, evaluation.node = .unary origin operator operand →
        operator = "!" ∨ operator = "-" := by
  have hready : Discipline.read.Ready root.1 root.2 :=
    Discipline.read.ready_freshRoot hroot fun _ _ => trivial
  have hcode : ∀ source ∈ sources, ∀ parsed, parse source = .ok parsed →
      Discipline.read.code parsed.program :=
    fun source _ _ hparse => ⟨source, .program hparse⟩
  have hadmits : ∀ evaluation, Session.Leads limits root.1 sources root.2 evaluation →
      Discipline.read.Admits limits.rounds evaluation := fun _ _ _ _ => trivial
  have hparsed : ∀ source ∈ sources, ∃ parsed, parse source = .ok parsed :=
    fun source hsource => exists_parse_of_legible (hlegible source hsource)
  refine ⟨fun source hsource => ?_, fun step hstep => ?_, fun evaluation hleads => ?_⟩
  · obtain ⟨parsed, hparse⟩ := hparsed source hsource
    exact ⟨parsed, hparse, render?_of_parse hparse, toTree?_of_parse hparse⟩
  · obtain ⟨hkeeps, hconcludes⟩ := Discipline.submitAll_keeps hready hcode hadmits step hstep
    have hsink : step.2.sink = .recording := by
      rw [hkeeps.sink, (Store.printed_freshRoot hroot).1]
    exact ⟨Discipline.ordinary_of_concludes hconcludes hsink
      (submitAll_ne_unreadable hparsed step hstep), Discipline.shown_of_keeps hroot hkeeps⟩
  · obtain ⟨⟨source, hread⟩, -⟩ := Discipline.ready_of_session hleads hready hcode hadmits
    refine ⟨hread.ne_hole, fun origin operator operand hnode => ?_⟩
    rw [hnode] at hread
    exact hread.operator

/-- A function from an earlier text: applied to a wrong operand it ends with a fault of the operator
in its body, and it can be shown itself. A call that is not finished is refused. -/
theorem submitAll_ordinary_negation :
    let sources := ["let f = fn(x) \x7b -x \x7d;", "f(true)", "f", "f(2"]
    let root := (Store.empty .recording).openRoot
    (∀ source ∈ sources, Parser.Legible (Token.ofText source)) ∧
    (submitAll ⟨1, 1⟩ root.1 sources root.2).map (fun step => match step.1 with
      | .ran outcome => outcome.fault?
      | _ => none) = [none, some (.badUnary "-" .boolean, some ⟨1, 17⟩), none, none] ∧
    ∀ step ∈ submitAll ⟨1, 1⟩ root.1 sources root.2, step.1.Ordinary ∧ step.2.Shown := by
  intro sources root
  have hlegible : ∀ source ∈ sources, Parser.Legible (Token.ofText source) := by
    unfold Parser.Legible
    decide +kernel
  refine ⟨hlegible, ?_, ?_⟩
  · decide +kernel
  · exact (submitAll_ordinary ⟨1, 1⟩ sources hlegible root List.mem_cons_self).2.1

end Scriptlet
