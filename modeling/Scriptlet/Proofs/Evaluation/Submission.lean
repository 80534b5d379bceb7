import Scriptlet.Proofs.Evaluation.Layout
import Scriptlet.Proofs.Parser.Joining

/-!
# Submitting a text in two parts

A text that shows its own end may be submitted before another one, or together with it and a line
break between them. Both ways run the same statements in the same order, those of the second text
further down (`parse_append_newline`), and a list of statements runs as the first part and then the
second (`evalStatements_append`). `submit_append_newline` follows the three ways the first part can
end: with a failure, with a return, or by going on.
-/

namespace Scriptlet

namespace Node

variable (model : CallModel) (rounds : Nat) (scope : ScopeId)

/-- A list of statements runs as its first part and then the rest. -/
theorem evalStatements_append (result : Value) (nodes others : List Node) :
    evalStatements model rounds scope result (nodes ++ others) =
      evalStatements model rounds scope result nodes >>= fun value =>
        evalStatements model rounds scope value others := by
  induction nodes generalizing result with
  | nil => simp only [List.nil_append, evalStatements, pure_bind]
  | cons node nodes ih => simp only [List.cons_append, evalStatements, bind_assoc, ih]

/-- The value so far matters only when all statements are silent. -/
theorem evalStatements_result (result : Value) (nodes : List Node) :
    evalStatements model rounds scope result nodes =
      evalStatements model rounds scope .null nodes >>= fun value =>
        pure (if nodes.all isSilent then result else value) := by
  induction nodes generalizing result with
  | nil => simp only [evalStatements, pure_bind, List.all_nil, if_true]
  | cons node nodes ih =>
      simp only [evalStatements, bind_assoc]
      congr
      funext value
      rw [ih, ih (if node.isSilent then .null else value)]
      simp only [bind_assoc, pure_bind, List.all_cons]
      by_cases hnode : node.isSilent = true <;> by_cases hnodes : nodes.all isSilent = true <;>
        simp [hnode, hnodes]

end Node

section Running

/-- What is reported of a run of statements at the top level. -/
def report : EStateM.Result Exit Store Value → Outcome × Store
  | .ok value store => (.value value, store)
  | .error (.returned value) store => (.value value, store)
  | .error (.failed failure) store => (.reported failure, store)
  | .error .exhausted store => (.exhausted, store)

/-- The run of statements at the top level. -/
def topLevel (limits : Limits) (scope : ScopeId) (nodes : List Node) :
    Store → EStateM.Result Exit Store Value :=
  Node.evalStatements limits.model limits.rounds scope .null nodes

/-- The result of statements with another value if they have none of their own. -/
def defaulted (nodes : List Node) (value : Value) :
    EStateM.Result Exit Store Value → EStateM.Result Exit Store Value
  | .ok result store => .ok (if nodes.all Node.isSilent then value else result) store
  | .error exit store => .error exit store

/-- The statements at the top level end with a return. -/
def Returns (limits : Limits) (scope : ScopeId) (nodes : List Node) (store : Store) : Prop :=
  ∃ value final, topLevel limits scope nodes store = .error (.returned value) final

variable {limits : Limits} {scope : ScopeId} {store finish : Store} {nodes others : List Node}
  {value : Value} {exit : Exit}

/-- A submission of a text without errors is a run of its statements. -/
theorem submit_of_parse {source : String} (h : parse source = .ok ⟨nodes, []⟩) :
    submit limits scope source store =
      (.ran (report (topLevel limits scope nodes store)).1,
        (report (topLevel limits scope nodes store)).2) := by
  have hrun : (Parsed.program ⟨nodes, []⟩).evaluate limits scope store =
      report (topLevel limits scope nodes store) := by
    simp only [Parsed.program, Node.evaluate, Node.eval, topLevel]
    cases Node.evalStatements limits.model limits.rounds scope .null nodes store with
    | ok value finish => rfl
    | error exit finish => cases exit <;> rfl
  simp only [submit, h, hrun]

/-- Statements behind an exit are not run. -/
theorem topLevel_append_of_error (h : topLevel limits scope nodes store = .error exit finish) :
    topLevel limits scope (nodes ++ others) store = .error exit finish := by
  unfold topLevel at h ⊢
  rw [Node.evalStatements_append]
  show EStateM.bind _ _ store = _
  rw [EStateM.bind, h]

/-- Statements behind a first part that goes on run from its store, and give its value when they
have none of their own. -/
theorem topLevel_append_of_ok (h : topLevel limits scope nodes store = .ok value finish) :
    topLevel limits scope (nodes ++ others) store =
      defaulted others value (topLevel limits scope others finish) := by
  unfold topLevel at h ⊢
  rw [Node.evalStatements_append]
  show EStateM.bind _ _ store = _
  rw [EStateM.bind, h]
  show Node.evalStatements limits.model limits.rounds scope value others finish = _
  rw [Node.evalStatements_result]
  show EStateM.bind _ _ finish = _
  unfold EStateM.bind
  cases Node.evalStatements limits.model limits.rounds scope .null others finish <;> rfl

/-- Failures that are equal without their places have the same cause. -/
theorem Failure.sameCause_of_relocate {left right : Failure} {move : Position → Position}
    (h : left.relocate move = right.relocate move) : left.SameCause right := by
  cases left <;> cases right <;> injection h

/-- The results are of the same sort and differ at most in places. -/
inductive SameEnding :
    EStateM.Result Exit Store Value → EStateM.Result Exit Store Value → Prop where
  | ok {left right : Value} {finish final : Store} :
      left.unplaced = right.unplaced → finish.unplaced = final.unplaced →
      SameEnding (.ok left finish) (.ok right final)
  | returned {left right : Value} {finish final : Store} :
      left.unplaced = right.unplaced → finish.unplaced = final.unplaced →
      SameEnding (.error (.returned left) finish) (.error (.returned right) final)
  | failed {left right : Failure} {finish final : Store} :
      left.SameCause right → finish.unplaced = final.unplaced →
      SameEnding (.error (.failed left) finish) (.error (.failed right) final)
  | exhausted {finish final : Store} :
      finish.unplaced = final.unplaced →
      SameEnding (.error .exhausted finish) (.error .exhausted final)

/-- Exits that differ in places only end an evaluation in the same way. -/
theorem sameEnding_of_exits {left right : Exit} {finish final : Store}
    (h : left.relocate Position.forget = right.relocate Position.forget)
    (hstores : finish.unplaced = final.unplaced) :
    SameEnding (.error left finish) (.error right final) := by
  cases left with
  | returned value =>
      cases right with
      | returned other =>
          injection h with hvalues
          exact .returned hvalues hstores
      | failed | exhausted => cases h
  | failed failure =>
      cases right with
      | failed cause =>
          injection h with hcause
          exact .failed (Failure.sameCause_of_relocate hcause) hstores
      | returned | exhausted => cases h
  | exhausted =>
      cases right with
      | exhausted => exact .exhausted hstores
      | returned | failed => cases h

/-- Moved statements end as the statements do, but for places. -/
theorem topLevel_sameEnding {move : Position → Position} (keeps : Keeps move) (limits : Limits)
    (scope : ScopeId) (nodes : List Node) (store : Store) :
    SameEnding (topLevel limits scope (Node.relocateList move nodes) store)
      (topLevel limits scope nodes store) := by
  have hcode : (Node.program (Node.relocateList move nodes)).relocate Position.forget =
      (Node.program nodes).relocate Position.forget := by
    simp only [Node.relocate, Node.relocateList_relocateList, forget_comp keeps]
  -- Both runs become the same one when their places are forgotten.
  have hmoved := eval_relocate keeps_forget limits scope
    (.program (Node.relocateList move nodes)) store
  have hrun := eval_relocate keeps_forget limits scope (.program nodes) store
  rw [hcode, hrun] at hmoved
  simp only [Node.eval] at hmoved
  unfold topLevel
  generalize Node.evalStatements limits.model limits.rounds scope .null
    (Node.relocateList move nodes) store = left at hmoved ⊢
  generalize Node.evalStatements limits.model limits.rounds scope .null nodes store =
    right at hmoved ⊢
  cases left with
  | ok value finish =>
      cases right with
      | ok other final =>
          injection hmoved with hvalue hstore
          exact .ok hvalue.symm hstore.symm
      | error exit final => cases hmoved
  | error exit finish =>
      cases right with
      | ok other final => cases hmoved
      | error other final =>
          injection hmoved with hexit hstore
          exact sameEnding_of_exits hexit.symm hstore.symm

/-- Whether statements leave the last value as it was does not depend on places. -/
theorem defaulted_relocateList (move : Position → Position) :
    defaulted (Node.relocateList move nodes) value = defaulted nodes value := by
  have hsilent : (Node.relocateList move nodes).all Node.isSilent = nodes.all Node.isSilent := by
    simp [Node.relocateList_eq_map, Function.comp_def]
  funext result
  cases result with
  | ok final finish => simp only [defaulted, hsilent]
  | error exit finish => rfl

namespace SameEnding

variable {left right : EStateM.Result Exit Store Value} {result : Value}

/-- Endings of the same sort leave stores that differ in places only. -/
theorem stores (h : SameEnding left right) :
    (report (defaulted nodes value left)).2.unplaced = (report right).2.unplaced := by
  cases h with
  | ok _ hstores | returned _ hstores | failed _ hstores | exhausted hstores => exact hstores

/-- A failure of either is one of both, with the same cause. -/
theorem reports (h : SameEnding left right) :
    ((∃ failure, (report (defaulted nodes value left)).1 = .reported failure) ↔
        ∃ cause, (report right).1 = .reported cause) ∧
      ∀ failure cause, (report (defaulted nodes value left)).1 = .reported failure →
        (report right).1 = .reported cause → failure.SameCause cause := by
  cases h with
  | ok | returned | exhausted => simp [report, defaulted]
  | failed hcause => simpa [report, defaulted] using hcause

/-- The second text's value stands when the text has one of its own. -/
theorem own_value (h : SameEnding left right) (hresult : (report right).1 = .value result)
    (hown : (∃ value final, right = .error (.returned value) final) ∨
      ∃ node ∈ nodes, node.isSilent = false) :
    ∃ final, (report (defaulted nodes value left)).1 = .value final ∧
      final.unplaced = result.unplaced := by
  cases h with
  | @ok first second _ _ hvalues _ =>
      rcases hown with ⟨value, final, hreturn⟩ | ⟨node, hmem, hnode⟩
      · cases hreturn
      · have hsilent : nodes.all Node.isSilent = false :=
          List.all_eq_false.2 ⟨node, hmem, by simp [hnode]⟩
        cases hresult
        exact ⟨first, by simp [report, defaulted, hsilent], hvalues⟩
  | @returned first second _ _ hvalues _ =>
      cases hresult
      exact ⟨first, rfl, hvalues⟩
  | failed | exhausted => cases hresult

/-- The first text's value stands when the second one has none of its own. -/
theorem kept_value (h : SameEnding left right) (hresult : (report right).1 = .value result)
    (hnone : ¬ ((∃ value final, right = .error (.returned value) final) ∨
      ∃ node ∈ nodes, node.isSilent = false)) :
    (report (defaulted nodes value left)).1 = .value value := by
  obtain ⟨hreturn, hnodes⟩ := not_or.1 hnone
  cases h with
  | ok =>
      have hsilent : nodes.all Node.isSilent = true := by
        rw [List.all_eq_true]
        intro node hmem
        by_cases hnode : node.isSilent = true
        · exact hnode
        · exact absurd ⟨node, hmem, by simpa using hnode⟩ hnodes
      simp [report, defaulted, hsilent]
  | returned => exact absurd ⟨_, _, rfl⟩ hreturn
  | failed | exhausted => cases hresult

end SameEnding

end Running

/-- A text that shows its own end, a line break and another text, submitted together. If the first
text alone fails or ends with a return, the whole does just the same. Otherwise the whole leaves,
but for places, the store of the two texts submitted one after the other, fails when the second one
does and from the same cause, and else has the second text's value if that has one of its own. -/
theorem submit_append_newline (limits : Limits) (scope : ScopeId) (store : Store)
    (first second : String) (parsed other : Parsed)
    (hfirst : parse first = .ok parsed) (hfirstErrors : parsed.errors = [])
    (hsecond : parse second = .ok other) (hsecondErrors : other.errors = [])
    (hclosed : Grammar.Closed (Token.ofText first) parsed.statements) :
    let joined := submit limits scope (first ++ "\n" ++ second) store
    let alone := submit limits scope first store
    let next := submit limits scope second alone.2
    (∀ failure, alone.1 = .ran (.reported failure) → joined = alone) ∧
    (Returns limits scope parsed.statements store → joined = alone) ∧
    ∀ value, alone.1 = .ran (.value value) → ¬ Returns limits scope parsed.statements store →
      joined.2.unplaced = next.2.unplaced ∧
      ((∃ failure, joined.1 = .ran (.reported failure)) ↔
        ∃ failure, next.1 = .ran (.reported failure)) ∧
      (∀ failure cause, joined.1 = .ran (.reported failure) → next.1 = .ran (.reported cause) →
        failure.SameCause cause) ∧
      ∀ result, next.1 = .ran (.value result) →
        (Returns limits scope other.statements alone.2 ∨
            (∃ node ∈ other.statements, node.isSilent = false) →
          ∃ final, joined.1 = .ran (.value final) ∧ final.unplaced = result.unplaced) ∧
        (¬ (Returns limits scope other.statements alone.2 ∨
            ∃ node ∈ other.statements, node.isSilent = false) →
          joined.1 = .ran (.value value)) := by
  intro joined alone next
  obtain ⟨nodes, errors⟩ := parsed
  obtain ⟨others, otherErrors⟩ := other
  subst hfirstErrors hsecondErrors
  have hjoined : joined = _ := submit_of_parse (parse_append_newline hfirst hsecond hclosed)
  have halone : alone = _ := submit_of_parse hfirst
  cases hrun : topLevel limits scope nodes store with
  | error exit finish =>
      -- The first text stops, and so does the whole at the same statement.
      have hsame : joined = alone := by
        rw [hjoined, halone, topLevel_append_of_error hrun, hrun]
      refine ⟨fun _ _ => hsame, fun _ => hsame, ?_⟩
      intro value hvalue hreturns
      rw [halone, hrun] at hvalue
      cases exit with
      | returned result => exact absurd ⟨result, finish, hrun⟩ hreturns
      | failed failure => cases hvalue
      | exhausted => cases hvalue
  | ok middle finish =>
      -- The first text goes on, so the whole runs the statements of the second one in its store.
      have hshown : alone = (.ran (.value middle), finish) := by rw [halone, hrun]; rfl
      have hnext : next = _ := submit_of_parse hsecond
      rw [hshown] at hnext ⊢
      refine ⟨?_, ?_, ?_⟩
      · intro failure hfailure
        cases hfailure
      · intro hreturns
        obtain ⟨result, final, hreturn⟩ := hreturns
        rw [hrun] at hreturn
        cases hreturn
      · intro value hvalue _
        cases hvalue
        have hending := topLevel_sameEnding
          (Position.keeps_down (Position.start.after first.toList).line) limits scope others finish
        rw [topLevel_append_of_ok hrun, defaulted_relocateList] at hjoined
        obtain ⟨hfails, hcause⟩ := hending.reports
        rw [hjoined, hnext]
        simp only [Verdict.ran.injEq]
        refine ⟨hending.stores, hfails, hcause, ?_⟩
        intro result hresult
        exact ⟨hending.own_value hresult, hending.kept_value hresult⟩

/-- The text was run up to a failure. -/
def Verdict.isReported : Verdict → Bool
  | .ran (.reported _) => true
  | _ => false

/-- A verdict that is a report has a failure. -/
theorem Verdict.exists_of_isReported {verdict : Verdict} (h : verdict.isReported = true) :
    ∃ failure, verdict = .ran (.reported failure) := by
  unfold isReported at h
  split at h
  · exact ⟨_, rfl⟩
  · cases h

/-- A use of an unknown name fails, and a declaration behind it is not run. -/
theorem submit_append_newline_unbound :
    let run (source : String) := submit ⟨1, 1⟩ 0 source (Store.empty .recording).openRoot.2
    ∃ parsed other, parse "y;" = .ok parsed ∧ parsed.errors = [] ∧
      parse "let y = 1;" = .ok other ∧ other.errors = [] ∧
      Grammar.Closed (Token.ofText "y;") parsed.statements ∧
      (∃ failure, (run "y;").1 = .ran (.reported failure)) ∧
      run ("y;" ++ "\n" ++ "let y = 1;") = run "y;" := by
  intro run
  obtain ⟨parsed, hparsed, herrors⟩ : ∃ parsed, parse "y;" = .ok parsed ∧ parsed.errors = [] :=
    exists_parsed (by decide +kernel)
  obtain ⟨other, hother, hotherErrors⟩ : ∃ other, parse "let y = 1;" = .ok other ∧
      other.errors = [] := exists_parsed (by decide +kernel)
  have hclosed : Grammar.Closed (Token.ofText "y;") parsed.statements := by
    have hlast : (Token.ofText "y;").getLast?.map Token.kind = some .semicolon := by
      decide +kernel
    exact .inr (.inl (Option.map_eq_some_iff.1 hlast))
  have hfails : ∃ failure, (run "y;").1 = .ran (.reported failure) := by
    have hreported : (run "y;").1.isReported = true := by
      decide +kernel
    exact Verdict.exists_of_isReported hreported
  refine ⟨parsed, other, hparsed, herrors, hother, hotherErrors, hclosed, hfails, ?_⟩
  obtain ⟨failure, hfailure⟩ := hfails
  exact (submit_append_newline ⟨1, 1⟩ 0 _ "y;" "let y = 1;" parsed other hparsed herrors hother
    hotherErrors hclosed).1 failure hfailure

end Scriptlet
