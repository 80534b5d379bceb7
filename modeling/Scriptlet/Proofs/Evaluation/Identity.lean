import Scriptlet.Proofs.Evaluation.Carrying
import Scriptlet.Proofs.Evaluation.Flawless

/-!
# Equality and identity over whole sessions

The language compares data by value and arrays, maps and functions by identity. Whatever a session
does, an identity stands for one object with one content: values that are found equal, wherever and
whenever they are seen, are the same value and have the same text. Each evaluation of a literal
makes an object that differs from all there was before, and handing a value on does not change what
it is equal to (`session_identities`).
-/

namespace Scriptlet

namespace Value

/-- The language finds the values equal. -/
def Same (left right : Value) : Prop :=
  binary "==" left right = .ok (.boolean true)

/-- The language finds the values different. -/
def Differs (left right : Value) : Prop :=
  binary "!=" left right = .ok (.boolean true)

variable {ledger : Ledger} {left right : Value}

/-- What equality looks at: data as a whole, and of an object its kind and its identity. -/
def mark : Value → Value
  | array id _ => array id []
  | map id _ => map id []
  | function id _ => function id ⟨[], .hole, 0⟩
  | value => value

/-- Equality compares what is left of values when identities stand for objects. -/
theorem equals_iff : left.equals right = true ↔ left.mark = right.mark := by
  cases left <;> cases right <;> simp [equals, mark]

/-- Values are the same if they have the same mark. -/
theorem same_iff : left.Same right ↔ left.mark = right.mark := by
  rw [← equals_iff]
  simp [Same, binary]

theorem differs_iff : left.Differs right ↔ left.mark ≠ right.mark := by
  rw [Ne, ← equals_iff]
  simp [Differs, binary]

/-- Sameness is an equivalence. -/
theorem same_equivalence : Equivalence Same where
  refl _ := same_iff.2 rfl
  symm h := same_iff.2 (same_iff.1 h).symm
  trans h hnext := same_iff.2 ((same_iff.1 h).trans (same_iff.1 hnext))

/-- A mark keeps the identity. -/
theorem id?_mark (value : Value) : value.mark.id? = value.id? := by
  cases value <;> rfl

theorem mark_of_id? (h : left.id? = none) : left.mark = left := by
  cases left with
  | array | map | function => cases h
  | null | boolean | integer | string | builtin => rfl

/-- Values of one ledger are found equal only if they are one. -/
theorem Same.eq (h : left.Same right) (hleft : left.Recorded ledger)
    (hright : right.Recorded ledger) : left = right := by
  have hmark := same_iff.1 h
  have hids : left.id? = right.id? := by rw [← id?_mark left, hmark, id?_mark]
  cases hid : left.id? with
  | none => rw [← mark_of_id? hid, hmark, mark_of_id? (hids.symm.trans hid)]
  | some id =>
      have hplace := hleft left id .self hid
      have hsame := hright right id .self (hids.symm.trans hid)
      exact Option.some.inj (hplace.symm.trans hsame)

end Value

/-- The node is a literal of an array, a map or a function. -/
def Node.isObject : Node → Bool
  | array _ _ | map _ _ | function _ _ _ => true
  | _ => false

/-- The value occurs in a cell of the store or in what was printed. -/
inductive Store.Shows (store : Store) (value : Value) : Prop where
  | cell {id name whole} : (name, whole) ∈ store.bindings id → value.Occurs whole →
      Shows store value
  | printed {arguments whole} : arguments ∈ store.printed.toList → whole ∈ arguments →
      value.Occurs whole → Shows store value

/-- The value is seen in a session, at the moment when so many identities have been given out: in a
store or a value that an evaluation on the way begins or ends with, or that a text leaves. -/
inductive Session.Sees (limits : Limits) (scope : ScopeId) (sources : List String) (store : Store) :
    Nat → Value → Prop where
  | begun {evaluation value} : Session.Leads limits scope sources store evaluation →
      evaluation.store.Shows value →
      Sees limits scope sources store evaluation.store.fresh value
  | ended {evaluation value} : Session.Leads limits scope sources store evaluation →
      (evaluation.after limits.rounds).Shows value →
      Sees limits scope sources store (evaluation.after limits.rounds).fresh value
  | result {evaluation whole value} : Session.Leads limits scope sources store evaluation →
      evaluation.value? limits.rounds = some whole → value.Occurs whole →
      Sees limits scope sources store (evaluation.after limits.rounds).fresh value
  | left {step value} : step ∈ submitAll limits scope sources store → step.2.Shows value →
      Sees limits scope sources store step.2.fresh value
  | answer {step whole value} : step ∈ submitAll limits scope sources store →
      step.1.value? = some whole → value.Occurs whole →
      Sees limits scope sources store step.2.fresh value

/-- The evaluation compares two values by an operator, in a store. -/
inductive Evaluation.Compares (rounds : Nat) (evaluation : Evaluation) (operator : String)
    (left right : Value) (final : Store) : Prop where
  | operands {origin first second} : evaluation.node = .binary origin first operator second →
      Node.Yields (Closure.invoke rounds evaluation.calls) rounds evaluation.scope [first, second]
        evaluation.store [left, right] final →
      Compares rounds evaluation operator left right final

section Records

variable {ledger : Ledger} {store : Store} {value : Value} {rounds : Nat}
  {evaluation : Evaluation}

/-- What a recorded store shows is recorded. -/
theorem Store.Recorded.shows (h : store.Recorded ledger) (hvalue : store.Shows value) :
    value.Recorded ledger := by
  cases hvalue with
  | @cell id name whole hmem hoccurs =>
      rw [Store.bindings] at hmem
      split at hmem
      · cases hmem
      · next scope hscope => exact (h.cells hscope _ hmem).occurs hoccurs
  | printed hcall hmem hoccurs => exact (h.printed _ hcall _ hmem).occurs hoccurs

/-- A tracked evaluation leaves a recorded store and a recorded value. -/
theorem Evaluation.Tracked.ends (h : evaluation.Tracked rounds ledger) :
    ∃ finish, finish <+: ledger ∧ (evaluation.after rounds).Recorded finish ∧
      ∀ value, evaluation.value? rounds = some value → value.Recorded finish := by
  obtain ⟨start, finish, -, hfinish, -, hsettled⟩ := h
  refine ⟨finish, hfinish, ?_⟩
  cases hrun : evaluation.run rounds with
  | ok result final =>
      rw [hrun] at hsettled
      rw [Evaluation.after_of_ok hrun, Evaluation.value?_of_ok hrun]
      refine ⟨hsettled.1, ?_⟩
      rintro _ ⟨⟩
      exact hsettled.2
  | error exit final =>
      rw [hrun] at hsettled
      rw [Evaluation.after, Eval.after_of_error hrun, Evaluation.value?, hrun]
      refine ⟨hsettled.1, ?_⟩
      cases exit with
      | returned result =>
          rintro _ ⟨⟩
          exact hsettled.2
      | failed | exhausted =>
          rintro _ ⟨⟩

/-- A literal of an object takes the last identity, behind all that its parts take. -/
theorem Evaluation.Tracked.made {final : Store} (h : evaluation.Tracked rounds ledger)
    (hnode : evaluation.node.isObject = true) (hrun : evaluation.run rounds = .ok value final) :
    ∃ id, value.id? = some id ∧ evaluation.store.fresh ≤ id ∧ final.fresh = id + 1 := by
  obtain ⟨start, -, -, -, hstart, -⟩ := h
  obtain ⟨calls, scope, node, store⟩ := evaluation
  cases node with
  | array origin elements =>
      rw [run, Node.eval] at hrun
      obtain ⟨values, middle, hvalues, hmade⟩ := Eval.exists_of_bind (Eval.ok_of_located hrun)
      cases hmade
      have hless := (Node.evalList_tracks (invoke_tracked rounds calls) elements hstart).fresh_le
        hstart hvalues
      exact ⟨middle.fresh, rfl, hless, rfl⟩
  | map origin pairs =>
      rw [run, Node.eval] at hrun
      obtain ⟨entries, middle, hentries, hmade⟩ := Eval.exists_of_bind (Eval.ok_of_located hrun)
      cases hmade
      have hless := (Node.evalPairs_tracks (invoke_tracked rounds calls) pairs hstart
        (List.forall_mem_nil _)).fresh_le hstart hentries
      exact ⟨middle.fresh, rfl, hless, rfl⟩
  | function origin parameters body =>
      rw [run, Node.eval] at hrun
      cases hrun
      exact ⟨store.fresh, rfl, Nat.le_refl _, rfl⟩
  | _ => cases hnode

/-- What has an identity that a ledger does not reach is different from all that it records. -/
theorem Value.differs_of_recorded {other : Value} {id : ObjectId} (hid : value.id? = some id)
    (hother : other.Recorded ledger) (hlength : ledger.length ≤ id) : value.Differs other := by
  rw [differs_iff]
  intro hmark
  have hsame : other.id? = some id := by rw [← id?_mark, ← hmark, id?_mark, hid]
  have hplace := hother other id .self hsame
  exact absurd (List.getElem?_eq_some_iff.1 hplace).1 (Nat.not_lt_of_le hlength)

end Records

/-- What is seen in a session is recorded at its moment. -/
theorem Session.Sees.recorded {limits : Limits} {scope : ScopeId} {sources : List String}
    {store : Store} {whole : Ledger} {moment : Nat} {value : Value}
    (h : Sees limits scope sources store moment value)
    (hsteps : ∀ step ∈ submitAll limits scope sources store, ∃ finish, finish <+: whole ∧
      step.2.Recorded finish ∧ step.1.Recorded finish)
    (htracked : ∀ evaluation, Session.Leads limits scope sources store evaluation →
      evaluation.Tracked limits.rounds whole) :
    ∃ finish, finish <+: whole ∧ finish.length = moment ∧ value.Recorded finish := by
  cases h with
  | begun hleads hshows =>
      obtain ⟨start, finish, hfinish, hwhole, hstart, -⟩ := htracked _ hleads
      exact ⟨start, hfinish.trans hwhole, hstart.fresh.symm, hstart.shows hshows⟩
  | ended hleads hshows =>
      obtain ⟨finish, hfinish, hafter, -⟩ := (htracked _ hleads).ends
      exact ⟨finish, hfinish, hafter.fresh.symm, hafter.shows hshows⟩
  | result hleads hvalue hoccurs =>
      obtain ⟨finish, hfinish, hafter, hrecorded⟩ := (htracked _ hleads).ends
      exact ⟨finish, hfinish, hafter.fresh.symm, (hrecorded _ hvalue).occurs hoccurs⟩
  | left hstep hshows =>
      obtain ⟨finish, hfinish, hfinal, -⟩ := hsteps _ hstep
      exact ⟨finish, hfinish, hfinal.fresh.symm, hfinal.shows hshows⟩
  | answer hstep hvalue hoccurs =>
      obtain ⟨finish, hfinish, hfinal, hverdict⟩ := hsteps _ hstep
      exact ⟨finish, hfinish, hfinal.fresh.symm, (hverdict _ hvalue).occurs hoccurs⟩

/-- A fresh store has no objects to record. -/
theorem Store.recorded_freshRoot {sink : Sink} {root : ScopeId × Store}
    (h : root ∈ Store.freshRoots sink) : root.2.Recorded [] := by
  have hempty : (Store.empty sink).Recorded [] := ⟨rfl, nofun, nofun⟩
  rcases List.mem_cons.1 h with rfl | h
  · exact hempty.openScope.append (Value.recorded_of_simple .builtin)
  · rw [List.mem_singleton.1 h]
    exact hempty.openScope

/-- The scope of every evaluation on the way is there. -/
theorem Session.Leads.inside {limits : Limits} {sink : Sink} {root : ScopeId × Store}
    {sources : List String} {evaluation : Evaluation} (hroot : root ∈ Store.freshRoots sink)
    (h : Leads limits root.1 sources root.2 evaluation) :
    evaluation.scope < evaluation.store.scopes.size := by
  have hready : Discipline.read.Ready root.1 root.2 :=
    Discipline.read.ready_freshRoot hroot fun _ _ => trivial
  have hcode : ∀ source ∈ sources, ∀ parsed, parse source = .ok parsed →
      Discipline.read.code parsed.program := fun source _ _ hparse => ⟨source, .program hparse⟩
  exact (Discipline.ready_of_session h hready hcode fun _ _ _ _ => trivial).2.inside

section Comparisons

variable {limits : Limits} {scope : ScopeId} {sources : List String} {store final : Store}
  {evaluation : Evaluation} {operator : String} {left right : Value}

/-- A comparison gives what the operator makes of its operands. -/
theorem Evaluation.Compares.run {rounds : Nat} {result : Value}
    (h : evaluation.Compares rounds operator left right final)
    (hresult : Value.binary operator left right = .ok result) :
    evaluation.run rounds = .ok result final := by
  obtain ⟨calls, scope, node, store⟩ := evaluation
  obtain ⟨hnode, hyields⟩ := h
  obtain rfl : node = _ := hnode
  obtain ⟨middle, hfirst, hsecond⟩ := hyields.pair
  rw [Evaluation.run, Node.eval]
  refine Eval.located_of_ok _ ?_
  rw [Eval.bind_of_ok hfirst, Eval.bind_of_ok hsecond, hresult]
  rfl

/-- The operands of a comparison on the way are seen. -/
theorem Session.Sees.operands
    (hleads : Session.Leads limits scope sources store evaluation)
    (h : evaluation.Compares limits.rounds operator left right final) :
    (∃ moment, Sees limits scope sources store moment left) ∧
      ∃ moment, Sees limits scope sources store moment right := by
  obtain ⟨calls, inside, node, begun⟩ := evaluation
  obtain ⟨hnode, hyields⟩ := h
  obtain rfl : node = _ := hnode
  cases hyields with
  | cons hfirst hrest =>
      cases hrest with
      | cons hsecond hnil =>
          have hleft := hleads.trans (.part .left .refl)
          have hright := hleads.trans (.part (.right hfirst) .refl)
          exact ⟨⟨_, .result hleft (Evaluation.value?_of_ok hfirst) .self⟩,
            ⟨_, .result hright (Evaluation.value?_of_ok hsecond) .self⟩⟩

end Comparisons

/-- Texts are run one behind the other in a fresh outermost scope. Values that are seen on the way,
at whatever moments, and that the language finds equal are one value, with one type and one text.
Being equal is an equivalence and being different its negation, and the comparisons on the way tell
whether their operands are one value. Whenever a literal of an array, a map or a function is
evaluated, what it makes is different from all that is seen before it is made. A value that is
handed on is found again as one that is equal to it. -/
theorem session_identities (limits : Limits) (sink : Sink) (root : ScopeId × Store)
    (hroot : root ∈ Store.freshRoots sink) (sources : List String) :
    let sees := Session.Sees limits root.1 sources root.2
    (∀ early late left right, sees early left → sees late right → left.Same right →
      left = right ∧ left.type = right.type ∧ left.inspect = right.inspect) ∧
    Equivalence Value.Same ∧
    (∀ left right, ∃ same, Value.binary "==" left right = .ok (.boolean same) ∧
      Value.binary "!=" left right = .ok (.boolean !same)) ∧
    ∀ evaluation, Session.Leads limits root.1 sources root.2 evaluation →
      (∀ left right final, evaluation.Compares limits.rounds "==" left right final →
        ∃ same, evaluation.run limits.rounds = .ok (.boolean same) final ∧
          (same = true ↔ left = right)) ∧
      (∀ left right final, evaluation.Compares limits.rounds "!=" left right final →
        ∃ different, evaluation.run limits.rounds = .ok (.boolean different) final ∧
          (different = true ↔ left ≠ right)) ∧
      (∀ value final, evaluation.node.isObject = true →
        evaluation.run limits.rounds = .ok value final → evaluation.store.fresh < final.fresh ∧
        ∀ moment other, sees moment other → moment < final.fresh → value.Differs other) ∧
      ∀ value found, evaluation.Hands limits.rounds value found →
        ∃ same, found = some same ∧ value.Same same := by
  intro sees
  obtain ⟨whole, -, hsteps, htracked⟩ :=
    session_tracked limits root.1 sources (Store.recorded_freshRoot hroot)
  have hone (early late : Nat) (left right : Value) (hleft : sees early left)
      (hright : sees late right) (hsame : left.Same right) : left = right := by
    obtain ⟨first, hfirst, -, hleft⟩ := hleft.recorded hsteps htracked
    obtain ⟨second, hsecond, -, hright⟩ := hright.recorded hsteps htracked
    exact hsame.eq (hleft.later hfirst) (hright.later hsecond)
  refine ⟨?_, Value.same_equivalence, fun left right => ⟨left.equals right, rfl, rfl⟩, ?_⟩
  · intro early late left right hleft hright hsame
    obtain rfl := hone early late left right hleft hright hsame
    exact ⟨rfl, rfl, rfl⟩
  intro evaluation hleads
  have hequals (operator : String) (left right : Value) (final : Store)
      (hcompares : evaluation.Compares limits.rounds operator left right final) :
      left.equals right = true ↔ left = right := by
    obtain ⟨⟨early, hleft⟩, late, hright⟩ := Session.Sees.operands hleads hcompares
    refine ⟨fun hequal => hone early late left right hleft hright ?_, ?_⟩
    · exact Value.same_iff.2 (Value.equals_iff.1 hequal)
    · rintro rfl
      exact Value.equals_iff.2 rfl
  refine ⟨?_, ?_, ?_, ?_⟩
  · intro left right final hcompares
    exact ⟨left.equals right, hcompares.run rfl, hequals _ _ _ _ hcompares⟩
  · intro left right final hcompares
    refine ⟨!left.equals right, hcompares.run rfl, ?_⟩
    rw [Bool.not_eq_true', ← Bool.not_eq_true, hequals _ _ _ _ hcompares]
  · intro value final hnode hrun
    obtain ⟨id, hid, hless, hfinal⟩ := (htracked evaluation hleads).made hnode hrun
    rw [hfinal]
    refine ⟨Nat.lt_succ_of_le hless, fun moment other hother hmoment => ?_⟩
    obtain ⟨finish, -, rfl, hrecorded⟩ := hother.recorded hsteps htracked
    exact Value.differs_of_recorded hid hrecorded (Nat.le_of_lt_succ hmoment)
  · intro value found hhands
    exact ⟨value, hhands.found (hleads.inside hroot), Value.same_equivalence.refl value⟩

/-- The expression that a text without errors consists of. -/
def Parsed.expression? : Parsed → Option Node
  | ⟨[.expression _ body], []⟩ => some body
  | _ => none

/-- A text that is a single expression. -/
theorem Parsed.eq_of_expression? {parsed : Parsed} {body : Node}
    (h : parsed.expression? = some body) :
    ∃ origin, parsed = ⟨[.expression origin body], []⟩ := by
  unfold expression? at h
  split at h
  · next origin other =>
      cases h
      exact ⟨origin, rfl⟩
  · cases h

/-- An array that is bound by one text and handed through a function by the next one is one array;
the literal of a third text makes another one, with the same text. -/
theorem session_identities_passed :
    let sources := ["let a = [1]; a", "fn(x) \x7b return x; \x7d(a)", "[1]"]
    let root := (Store.empty .recording).openRoot
    let sees := Session.Sees ⟨1, 1⟩ root.1 sources root.2
    root ∈ Store.freshRoots .recording ∧ ∃ bound passed made early late last,
      sees early bound ∧ sees late passed ∧ sees last made ∧ bound.Same passed ∧ bound = passed ∧
      made.Differs bound ∧ made.inspect = bound.inspect := by
  intro sources root sees
  have hroot : root ∈ Store.freshRoots .recording := List.mem_cons_self
  obtain ⟨hone, -, -, hway⟩ := session_identities ⟨1, 1⟩ .recording root hroot sources
  let first := submit ⟨1, 1⟩ root.1 "let a = [1]; a" root.2
  let second := submit ⟨1, 1⟩ root.1 "fn(x) \x7b return x; \x7d(a)" first.2
  have hfirst : first ∈ submitAll ⟨1, 1⟩ root.1 sources root.2 := List.mem_cons_self
  have hsecond : second ∈ submitAll ⟨1, 1⟩ root.1 sources root.2 :=
    List.mem_cons_of_mem _ List.mem_cons_self
  have hanswers : first.1.value?.bind (fun bound => second.1.value?.map fun passed =>
      (bound.equals passed, bound.inspect)) = some (true, "[1]") := by
    decide +kernel
  obtain ⟨bound, hbound, hrest⟩ := Option.bind_eq_some_iff.1 hanswers
  obtain ⟨passed, hpassed, hpair⟩ := Option.map_eq_some_iff.1 hrest
  obtain ⟨hequal, htext⟩ := Prod.mk.inj hpair
  have hearly : sees first.2.fresh bound := .answer hfirst hbound .self
  have hlate : sees second.2.fresh passed := .answer hsecond hpassed .self
  have hsame : bound.Same passed := Value.same_iff.2 (Value.equals_iff.1 hequal)
  -- The literal that the third text is made of, and what its evaluation gives.
  have hthird : ((parse "[1]").toOption.bind Parsed.expression?).bind (fun literal =>
      match Evaluation.run 1 ⟨1, root.1, literal, second.2⟩ with
      | .error _ _ => none
      | .ok made final =>
          some (literal.isObject, made.inspect, decide (first.2.fresh < final.fresh))) =
      some (true, "[1]", true) := by
    decide +kernel
  obtain ⟨literal, hliteral, hthird⟩ := Option.bind_eq_some_iff.1 hthird
  obtain ⟨parsed, hparsed, hexpression⟩ := Option.bind_eq_some_iff.1 hliteral
  obtain ⟨origin, rfl⟩ := Parsed.eq_of_expression? hexpression
  split at hthird
  · cases hthird
  · next made final hrun =>
      simp only [Option.some.injEq, Prod.mk.injEq, decide_eq_true_eq] at hthird
      obtain ⟨hobject, hmadeText, hmoment⟩ := hthird
      have hparse := parse_of_toOption hparsed
      have hbegins : Node.Yields (Closure.invoke 1 1) 1 root.1 [] second.2 [] second.2 := .nil
      have hleads : Session.Leads ⟨1, 1⟩ root.1 sources root.2 ⟨1, root.1, literal, second.2⟩ :=
        .later (.later (.here hparse rfl
          (.part (.statement hbegins) (.part .expression .refl))))
      obtain ⟨-, -, hfresh, -⟩ := hway _ hleads
      have hlast := Session.Sees.result hleads (Evaluation.value?_of_ok hrun) .self
      have hdiffers := (hfresh made final hobject hrun).2 _ bound hearly hmoment
      have hsingle := (hone _ _ bound passed hearly hlate hsame).1
      exact ⟨hroot, bound, passed, made, _, _, _, hearly, hlate, hlast, hsame, hsingle,
        hdiffers, hmadeText.trans htext.symm⟩

end Scriptlet
