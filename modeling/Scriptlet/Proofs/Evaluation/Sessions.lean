import Scriptlet.Proofs.Evaluation.Custody

/-!
# Sessions, and every evaluation in them

A session runs texts one behind the other in one scope, each in the store that the one before it has
left, whatever its end (`submitAll`). `Session.Leads` says which evaluations that contains, those in
the bodies of functions included, also where a function is called by a later text than the one it
was written in.

Rules that single steps of evaluation keep are kept throughout: whatever evaluation is on the way
begins with allowed code in a store that holds to the rules (`Discipline.ready_of_leads`,
`Discipline.ready_of_session`), and every text leaves such a store and ends as the rules say
(`Discipline.submitAll_keeps`).
-/

namespace Scriptlet

/-- What one evaluation contains, the evaluations around it do. -/
theorem Evaluation.Leads.trans {rounds : Nat} {first second third : Evaluation}
    (h : Leads rounds first second) (hnext : Leads rounds second third) :
    Leads rounds first third := by
  induction h with
  | refl => exact hnext
  | part henters _ ih => exact .part henters (ih hnext)
  | body hyields hstarts _ ih => exact .body hyields hstarts (ih hnext)

namespace Node

section Lists

variable {rounds calls : Nat} {scope : ScopeId} {allowed : Evaluation → Prop} {node : Node}
  {nodes rest : List Node} {child : Option Node} {pairs : List (Node × Node)} {store : Store}

/-- What a list of nodes allows, its front does. -/
theorem AllowsList.front (h : AllowsList rounds calls scope allowed (nodes ++ rest) store) :
    AllowsList rounds calls scope allowed nodes store := by
  intro before inner behind values middle hnodes hyields
  refine h before inner (behind ++ rest) ?_ hyields
  rw [hnodes, List.append_assoc, List.cons_append]

/-- What a list of pairs allows, its front does. -/
theorem AllowsPairs.front {more : List (Node × Node)}
    (h : AllowsPairs rounds calls scope allowed (pairs ++ more) store) :
    AllowsPairs rounds calls scope allowed pairs store where
  key := by
    intro before inner value behind middle hpairs hbefore
    refine h.key before inner value (behind ++ more) ?_ hbefore
    rw [hpairs, List.append_assoc, List.cons_append]
  keyed := by
    intro before key inner behind text next middle hpairs hbefore hkey
    refine h.keyed before key inner (behind ++ more) ?_ hbefore hkey
    rw [hpairs, List.append_assoc, List.cons_append]

/-- A list allows what its first node does and the others do behind it. -/
theorem allowsList_cons (h : Allows rounds calls scope allowed node store)
    (hnodes : ∀ value middle,
      node.eval (Closure.invoke rounds calls) rounds scope store = .ok value middle →
      AllowsList rounds calls scope allowed nodes middle) :
    AllowsList rounds calls scope allowed (node :: nodes) store := by
  intro before inner behind values final heq hyields
  cases hyields with
  | nil =>
      cases heq
      exact h
  | cons hnode hyields =>
      obtain ⟨hfirst, hrest⟩ := List.cons.inj heq
      subst hfirst
      exact hnodes _ _ hnode _ inner behind hrest hyields

/-- An optional child is a list of one node at most. -/
theorem AllowsOption.toList (h : AllowsOption rounds calls scope allowed child store) :
    AllowsList rounds calls scope allowed child.toList store := by
  cases child with
  | none =>
      intro before inner behind values middle hnodes
      exact absurd hnodes (by simp)
  | some node =>
      refine allowsList_cons (h node rfl) fun _ _ _ before inner behind values final hnodes => ?_
      exact absurd hnodes (by simp)

end Lists

/-- What the evaluation of a node comes to is one of its children. -/
theorem Enters.mem_children {model : CallModel} {rounds : Nat} {scope : ScopeId}
    {node inner : Node} {store middle : Store}
    (h : Enters model rounds scope node store inner middle) : inner ∈ node.children := by
  cases h <;> simp [children]

end Node

namespace Discipline

variable {rules : Discipline} {rounds calls : Nat} {scope : ScopeId} {store middle final : Store}

section Parts

variable {node inner body : Node} {nodes : List Node} {test step first : Option Node}
  {values : List Value} {pairs : List (Node × Node)} {origin : Origin} {start : Store}

/-- Where nodes have values, the store they leave holds to the rules, and the values fit. -/
theorem Ready.yields (h : rules.Ready scope store) (hcode : ∀ node ∈ nodes, rules.code node)
    (hallows : Node.AllowsList rounds calls scope (rules.Admits rounds) nodes store)
    (hyields : Node.Yields (Closure.invoke rounds calls) rounds scope nodes store values middle) :
    rules.Ready scope middle ∧ rules.FitsAll middle.scopes.size values := by
  have hends := evalList_keeps (invoke_ends calls) nodes hcode h hallows
  obtain ⟨hkeeps, hvalues⟩ := hends.ok (Node.evalList_of_yields hyields)
  exact ⟨h.later hkeeps, hvalues⟩

/-- Behind a node that has a value, evaluation is ready to go on. -/
theorem Ready.evaluated {value : Value} (h : rules.Ready scope store) (hcode : rules.code node)
    (hallows : Node.Allows rounds calls scope (rules.Admits rounds) node store)
    (hnode : node.eval (Closure.invoke rounds calls) rounds scope store = .ok value middle) :
    rules.Ready scope middle :=
  h.later ((eval_keeps (invoke_ends calls) node hcode h hallows).ok hnode).1

/-- Behind pairs that have keys and values, evaluation is ready to go on. -/
theorem Ready.yieldsPairs (h : rules.Ready scope store)
    (hcode : ∀ pair ∈ pairs, rules.code pair.1 ∧ rules.code pair.2)
    (hallows : Node.AllowsPairs rounds calls scope (rules.Admits rounds) pairs store)
    (hyields : Node.YieldsPairs (Closure.invoke rounds calls) rounds scope pairs store middle) :
    rules.Ready scope middle := by
  induction hyields with
  | nil => exact h
  | cons hpair _ ih =>
      obtain ⟨⟨hkey, hvalue⟩, hpairs⟩ := List.forall_mem_cons.1 hcode
      have htail := hallows.tail hpair
      obtain ⟨next, hname, hresult⟩ := hpair.pair
      have hturn := h.evaluated hkey hallows.head hname
      exact ih (hturn.evaluated hvalue (hallows.second hname) hresult) hpairs htail

/-- The pairs of a map before one that is reached. -/
theorem Ready.paired {more : List (Node × Node)} (h : rules.Ready scope store)
    (hcode : rules.code (.map origin (pairs ++ more)))
    (hallows : Node.Allows rounds calls scope (rules.Admits rounds) (.map origin (pairs ++ more))
      store)
    (hyields : Node.YieldsPairs (Closure.invoke rounds calls) rounds scope pairs store middle) :
    rules.Ready scope middle := by
  refine h.yieldsPairs (fun pair hpair => ?_) hallows.entries.front hyields
  exact code_map hcode (List.mem_append_left _ hpair)

/-- Whole rounds of a loop leave a store that is ready for the next test. -/
theorem Ready.completed {count : Nat} (h : rules.Ready scope store)
    (hcode : rules.code (.loop origin first test step body))
    (hallows : Node.Allows rounds calls scope (rules.Admits rounds)
      (.loop origin first test step body) store)
    (hfirst : Node.Yields (Closure.invoke rounds calls) rounds scope first.toList store values
      start)
    (hrounds : Node.Rounds (Closure.invoke rounds calls) rounds scope test step body count start
      middle)
    (hcount : count ≤ rounds) : rules.Ready scope middle := by
  induction hrounds with
  | zero =>
      exact (h.yields (fun _ hinner => code_loop hcode (.inl hinner)) hallows.loopFirst.toList
        hfirst).1
  | succ hbefore htests htruthy hround ih =>
      -- One round is a test that holds, the body and the step behind it.
      have hbegun := ih hfirst (by omega)
      have htested := hbegun.yields (fun _ hinner => code_loop hcode (.inr (.inl hinner)))
        (hallows.loopTest hfirst hbefore (by omega)).toList htests
      have hbody := hallows.part (.loopBody hfirst hbefore (by omega) htests htruthy)
      refine (htested.1.yields ?_ (Node.allowsList_cons hbody fun value next hdone => ?_) hround).1
      · exact List.forall_mem_cons.2
          ⟨code_loop hcode (.inr (.inr (.inr rfl))),
            fun _ hinner => code_loop hcode (.inr (.inr (.inl hinner)))⟩
      · exact (hallows.loopStep hfirst hbefore (by omega) htests htruthy hdone).toList

/-- The test of a loop that holds behind whole rounds. -/
theorem Ready.tested {count : Nat} {next : Store} {tests : List Value} (h : rules.Ready scope store)
    (hcode : rules.code (.loop origin first test step body))
    (hallows : Node.Allows rounds calls scope (rules.Admits rounds)
      (.loop origin first test step body) store)
    (hfirst : Node.Yields (Closure.invoke rounds calls) rounds scope first.toList store values
      start)
    (hrounds : Node.Rounds (Closure.invoke rounds calls) rounds scope test step body count start
      next)
    (hcount : count < rounds)
    (htests : Node.Yields (Closure.invoke rounds calls) rounds scope test.toList next tests
      middle) :
    rules.Ready scope middle := by
  have hbegun := h.completed hcode hallows hfirst hrounds (Nat.le_of_lt hcount)
  exact (hbegun.yields (fun _ hinner => code_loop hcode (.inr (.inl hinner)))
    (hallows.loopTest hfirst hrounds hcount).toList htests).1

/-- Behind a declaration, evaluation is ready to go on. -/
theorem Ready.declared {name : Name} (h : rules.Ready scope store)
    (hdeclare : store.declare scope name .null = .ok middle) : rules.Ready scope middle := by
  rw [Store.declare] at hdeclare
  split at hdeclare
  · cases hdeclare
  · cases hdeclare
    exact h.later (h.holds.append (fits_of_simple .null))

/-- Where the evaluation of a node comes to a part, the part may be evaluated and the store holds to
the rules. -/
theorem ready_of_enters (h : rules.Ready scope store) (hcode : rules.code node)
    (hallows : Node.Allows rounds calls scope (rules.Admits rounds) node store)
    (henters : Node.Enters (Closure.invoke rounds calls) rounds scope node store inner middle) :
    rules.code inner ∧ rules.Ready scope middle := by
  refine ⟨rules.part hcode henters.mem_children, ?_⟩
  have hchildren : ∀ {inner}, inner ∈ node.children → rules.code inner := rules.part hcode
  cases henters with
  | expression | returning | loopFirst | test | operand | left | callee | target | owner
  | assigned => exact h
  | statement hyields =>
      refine (h.yields (fun _ hmem => hchildren ?_) hallows.statements.front hyields).1
      exact List.mem_append_left _ hmem
  | blockStatement hyields =>
      refine (h.yields (fun _ hmem => hchildren ?_) hallows.blockStatements.front hyields).1
      exact List.mem_append_left _ hmem
  | element hyields =>
      refine (h.yields (fun _ hmem => hchildren ?_) hallows.elements.front hyields).1
      exact List.mem_append_left _ hmem
  | firstValue _ hdeclare => exact h.declared hdeclare
  | loopTest hfirst hrounds hcount =>
      exact h.completed hcode hallows hfirst hrounds (Nat.le_of_lt hcount)
  | loopBody hfirst hrounds hcount htests =>
      exact h.tested hcode hallows hfirst hrounds hcount htests
  | loopStep hfirst hrounds hcount htests htruthy hbody =>
      have htested := h.tested hcode hallows hfirst hrounds hcount htests
      exact htested.evaluated (code_loop hcode (.inr (.inr (.inr rfl))))
        (hallows.part (.loopBody hfirst hrounds hcount htests htruthy)) hbody
  | key hbefore => exact h.paired hcode hallows hbefore
  | keyed hbefore hkey =>
      have hpair := code_map hcode (List.mem_append_right _ List.mem_cons_self)
      exact (h.paired hcode hallows hbefore).evaluated hpair.1 (hallows.part (.key hbefore)) hkey
  | consequence htest | alternative htest =>
      exact h.evaluated (hchildren List.mem_cons_self) (hallows.part .test) htest
  | right hleft => exact h.evaluated (hchildren List.mem_cons_self) (hallows.part .left) hleft
  | position htarget =>
      exact h.evaluated (hchildren List.mem_cons_self) (hallows.part .target) htarget
  | argument hyields =>
      refine (h.yields ?_ (Node.allowsList_cons (hallows.part .callee) fun _ _ hcallee =>
        (hallows.arguments hcallee).front) hyields).1
      refine List.forall_mem_cons.2 ⟨hchildren List.mem_cons_self, fun _ hmem => hchildren ?_⟩
      exact List.mem_cons_of_mem _ (List.mem_append_left _ hmem)

/-- The body of a function that is applied may be evaluated, in a store that holds to the rules. -/
theorem ready_of_starts {id : ObjectId} {closure : Closure} {body : ScopeId}
    (hfunction : rules.fits store.scopes.size (.function id closure))
    (hvalues : rules.FitsAll store.scopes.size values) (h : rules.Holds store)
    (hstarts : closure.Starts values store body middle) :
    rules.code closure.body ∧ rules.Ready body middle := by
  obtain ⟨hcount, rfl, hbound⟩ := hstarts
  have hkeeps := ((starts_ends hfunction hvalues h hcount).ok hbound).1
  exact ⟨rules.body hfunction, (h.ready_openScope (rules.linked hfunction)).later hkeeps⟩

end Parts

/-- Every evaluation that one contains begins with allowed code in a store that holds to the
rules. -/
theorem ready_of_leads {outer inner : Evaluation} (hleads : Evaluation.Leads rounds outer inner)
    (hcode : rules.code outer.node) (h : rules.Ready outer.scope outer.store)
    (hallows : Node.Allows rounds outer.calls outer.scope (rules.Admits rounds) outer.node
      outer.store) :
    rules.code inner.node ∧ rules.Ready inner.scope inner.store := by
  induction hleads with
  | refl => exact ⟨hcode, h⟩
  | part henters _ ih =>
      obtain ⟨hpart, hready⟩ := ready_of_enters h hcode hallows henters
      exact ih hpart hready (hallows.part henters)
  | body hyields hstarts _ ih =>
      -- The function is a value of the call, so its body is allowed code, whatever text it is from.
      have hnodes := Node.allowsList_cons (hallows.part .callee) fun _ _ hcallee =>
        hallows.arguments hcallee
      obtain ⟨hready, hfits⟩ := h.yields (fun _ hmem => rules.part hcode hmem) hnodes hyields
      obtain ⟨hfunction, hvalues⟩ := List.forall_mem_cons.1 hfits
      obtain ⟨hbody, hbegun⟩ := ready_of_starts (hfunction _ .self) hvalues hready.holds hstarts
      refine ih hbody hbegun fun evaluation hinner => ?_
      exact hallows evaluation (.body hyields hstarts hinner)

end Discipline

/-- Run texts one behind the other in one scope: how each one ended, and the store that it left. -/
def submitAll (limits : Limits) (scope : ScopeId) : List String → Store → List (Verdict × Store)
  | [], _ => []
  | source :: sources, store =>
      let step := submit limits scope source store
      step :: submitAll limits scope sources step.2

/-- The evaluations that a session contains: those in the program of one of its texts, which is run
in the store that the texts before it have left. -/
inductive Session.Leads (limits : Limits) (scope : ScopeId) :
    List String → Store → Evaluation → Prop where
  | here {source sources store parsed evaluation} : parse source = .ok parsed →
      parsed.errors = [] →
      Evaluation.Leads limits.rounds ⟨limits.calls, scope, parsed.program, store⟩ evaluation →
      Leads limits scope (source :: sources) store evaluation
  | later {source sources store evaluation} :
      Leads limits scope sources (submit limits scope source store).2 evaluation →
      Leads limits scope (source :: sources) store evaluation

/-- What an evaluation of a session contains, the session does. -/
theorem Session.Leads.trans {limits : Limits} {scope : ScopeId} {sources : List String}
    {store : Store} {evaluation inner : Evaluation}
    (h : Leads limits scope sources store evaluation)
    (hinner : Evaluation.Leads limits.rounds evaluation inner) :
    Leads limits scope sources store inner := by
  induction h with
  | here hparse herrors hleads => exact .here hparse herrors (hleads.trans hinner)
  | later _ ih => exact .later (ih hinner)

namespace Discipline

variable {rules : Discipline} {limits : Limits} {scope : ScopeId} {source : String}
  {sources : List String} {store : Store}

/-- How a text that left the store may have ended under the rules. -/
def Concludes (rules : Discipline) (final : Store) : Verdict → Prop
  | .ran (.value value) => rules.Fits final.scopes.size value
  | .ran (.reported failure) => rules.failure failure ∧
      ∀ reason, failure = .sink reason → final.sink = .broken reason
  | .ran (.failed _) => False
  | .ran .exhausted => True
  | .rejected errors => errors ≠ []
  | .unreadable _ => True

/-- A program that is run keeps the rules and ends as they say. -/
theorem evaluate_keeps {statements : List Node} (h : rules.Ready scope store)
    (hcode : rules.code (.program statements))
    (hallows : Node.Allows limits.rounds limits.calls scope (rules.Admits limits.rounds)
      (.program statements) store) :
    let run := (Node.program statements).evaluate limits scope store
    rules.Keeps store run.2 ∧ rules.Concludes run.2 (.ran run.1) := by
  intro run
  have hends := eval_keeps (invoke_ends limits.calls) (.program statements) hcode h hallows
  cases hrun : (Node.program statements).eval limits.model limits.rounds scope store with
  | ok value final =>
      have heq : run = (.value value, final) := by
        simp only [run, Node.evaluate, hrun]
      rw [heq]
      exact hends.ok hrun
  | error exit final =>
      obtain ⟨hkeeps, hexit⟩ := hends.error hrun
      cases hexit with
      | @returned value hvalue =>
          have heq : run = (.value value, final) := by
            simp only [run, Node.evaluate, hrun]
          rw [heq]
          exact ⟨hkeeps, hvalue⟩
      | @failed failure hfailure hsink =>
          have heq : run = (.reported failure, final) := by
            simp only [run, Node.evaluate, hrun]
            rfl
          rw [heq]
          exact ⟨hkeeps, hfailure, hsink⟩
      | exhausted =>
          have heq : run = (.exhausted, final) := by
            simp only [run, Node.evaluate, hrun]
          rw [heq]
          exact ⟨hkeeps, trivial⟩

/-- A text that is submitted keeps the rules and ends as they say. -/
theorem submit_keeps (h : rules.Ready scope store)
    (hcode : ∀ parsed, parse source = .ok parsed → rules.code parsed.program)
    (hallows : ∀ parsed, parse source = .ok parsed → parsed.errors = [] →
      Node.Allows limits.rounds limits.calls scope (rules.Admits limits.rounds) parsed.program
        store) :
    rules.Keeps store (submit limits scope source store).2 ∧
      rules.Concludes (submit limits scope source store).2
        (submit limits scope source store).1 := by
  cases hparse : parse source with
  | error stop =>
      have heq : submit limits scope source store = (.unreadable stop, store) := by
        simp only [submit, hparse]
      rw [heq]
      exact ⟨h.holds.keeps, trivial⟩
  | ok parsed =>
      cases herrors : parsed.errors with
      | nil =>
          have heq : submit limits scope source store =
              (.ran (parsed.program.evaluate limits scope store).1,
                (parsed.program.evaluate limits scope store).2) := by
            simp only [submit, hparse, herrors]
          rw [heq]
          exact evaluate_keeps h (hcode parsed hparse) (hallows parsed hparse herrors)
      | cons error errors =>
          have heq : submit limits scope source store = (.rejected (error :: errors), store) := by
            simp only [submit, hparse, herrors]
          rw [heq]
          exact ⟨h.holds.keeps, List.cons_ne_nil _ _⟩

/-- Every text of a session keeps the rules and ends as they say. -/
theorem submitAll_keeps (h : rules.Ready scope store)
    (hcode : ∀ source ∈ sources, ∀ parsed, parse source = .ok parsed → rules.code parsed.program)
    (hadmits : ∀ evaluation, Session.Leads limits scope sources store evaluation →
      rules.Admits limits.rounds evaluation) :
    ∀ step ∈ submitAll limits scope sources store,
      rules.Keeps store step.2 ∧ rules.Concludes step.2 step.1 := by
  induction sources generalizing store with
  | nil =>
      intro step hstep
      cases hstep
  | cons source sources ih =>
      obtain ⟨hsource, hsources⟩ := List.forall_mem_cons.1 hcode
      have hallows (parsed : Parsed) (hparse : parse source = .ok parsed)
          (herrors : parsed.errors = []) : Node.Allows limits.rounds limits.calls scope
            (rules.Admits limits.rounds) parsed.program store :=
        fun evaluation hleads => hadmits evaluation (.here hparse herrors hleads)
      obtain ⟨hkeeps, hconcludes⟩ := submit_keeps h hsource hallows
      refine List.forall_mem_cons.2 ⟨⟨hkeeps, hconcludes⟩, fun step hstep => ?_⟩
      obtain ⟨hlater, hends⟩ := ih (h.later hkeeps) hsources
        (fun evaluation hleads => hadmits evaluation (.later hleads)) step hstep
      exact ⟨hkeeps.trans hlater, hends⟩

/-- Every evaluation that a session contains begins with allowed code in a store that holds to the
rules. -/
theorem ready_of_session {evaluation : Evaluation}
    (hleads : Session.Leads limits scope sources store evaluation) (h : rules.Ready scope store)
    (hcode : ∀ source ∈ sources, ∀ parsed, parse source = .ok parsed → rules.code parsed.program)
    (hadmits : ∀ evaluation, Session.Leads limits scope sources store evaluation →
      rules.Admits limits.rounds evaluation) :
    rules.code evaluation.node ∧ rules.Ready evaluation.scope evaluation.store := by
  induction hleads with
  | here hparse herrors hinner =>
      refine ready_of_leads hinner (hcode _ List.mem_cons_self _ hparse) h fun part hpart => ?_
      exact hadmits part (.here hparse herrors hpart)
  | @later source sources store evaluation _ ih =>
      obtain ⟨hsource, hsources⟩ := List.forall_mem_cons.1 hcode
      have hkeeps := submit_keeps h hsource fun parsed hparse herrors part hpart =>
        hadmits part (.here hparse herrors hpart)
      exact ih (h.later hkeeps.1) hsources fun part hpart => hadmits part (.later hpart)

/-- Every evaluation that a session contains keeps the rules. -/
theorem session_ends {evaluation : Evaluation}
    (hleads : Session.Leads limits scope sources store evaluation) (h : rules.Ready scope store)
    (hcode : ∀ source ∈ sources, ∀ parsed, parse source = .ok parsed → rules.code parsed.program)
    (hadmits : ∀ evaluation, Session.Leads limits scope sources store evaluation →
      rules.Admits limits.rounds evaluation) :
    rules.Ends rules.failure rules.Fits
      (evaluation.node.eval (Closure.invoke limits.rounds evaluation.calls) limits.rounds
        evaluation.scope) evaluation.store := by
  obtain ⟨hnode, hready⟩ := ready_of_session hleads h hcode hadmits
  refine eval_keeps (invoke_ends evaluation.calls) evaluation.node hnode hready ?_
  exact fun inner hinner => hadmits inner (hleads.trans hinner)

end Discipline

end Scriptlet
