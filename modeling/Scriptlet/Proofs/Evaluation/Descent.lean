import Scriptlet.Run

/-!
# The way down to a part of a node

`Enters` says how the evaluation of a node comes to one of its parts: everything that is evaluated
before the part has had an ordinary value. There is one rule for each place a part can stand in, a
loop's parts at any of its rounds. `Descends` is any number of such steps, all in one scope.

Whatever stops the evaluation of the part then stops that of the node, in the store that the part
has left (`Enters.eval_of_error`); only a fault that has no place yet gets one on its way. So a
pending return passes through all that surrounds it, and the call whose body it stands in has its
value (`returned_passes`).
-/

namespace Scriptlet

namespace Eval

variable {α β : Type} {action : Eval α} {next : α → Eval β} {store middle final : Store}
  {value : α} {exit : Exit}

/-- Behind an action that gives a result, the next one goes on. -/
theorem bind_of_ok (h : action store = .ok value middle) :
    (action >>= next) store = next value middle := by
  show EStateM.bind action next store = _
  rw [EStateM.bind, h]

/-- An action that stops leaves nothing to the next one. -/
theorem bind_of_error (h : action store = .error exit final) :
    (action >>= next) store = .error exit final := by
  show EStateM.bind action next store = _
  rw [EStateM.bind, h]

/-- A place is not given to results. -/
theorem located_of_ok (origin : Origin) (h : action store = .ok value final) :
    located origin action store = .ok value final := by
  rw [located, h]

end Eval

/-- The exit with the place of an origin, if it is a fault that has none yet. -/
def Exit.located (origin : Origin) : Exit → Exit
  | failed (.fault cause none) => failed (.fault cause origin.position?)
  | exit => exit

/-- Without an origin there is no place to give. -/
@[simp] theorem Exit.located_none (exit : Exit) : exit.located none = exit := by
  cases exit with
  | returned | exhausted => rfl
  | failed failure =>
      cases failure with
      | sink | flaw => rfl
      | fault cause position => cases position <;> rfl

/-- What passes a node on its way outward is given the place of the node. -/
theorem Eval.located_of_error {α : Type} {action : Eval α} {store final : Store} {exit : Exit}
    (origin : Origin) (h : action store = .error exit final) :
    located origin action store = .error (exit.located origin) final := by
  rw [located, h]
  cases exit with
  | returned | exhausted => rfl
  | failed failure =>
      cases failure with
      | sink | flaw => rfl
      | fault cause position => cases position <;> rfl

namespace Node

section Rules

variable (model : CallModel) (rounds : Nat) (scope : ScopeId)

/-- The nodes have ordinary values, one behind the other. -/
inductive Yields : List Node → Store → List Value → Store → Prop where
  | nil {store} : Yields [] store [] store
  | cons {node nodes store middle final value values} :
      node.eval model rounds scope store = .ok value middle → Yields nodes middle values final →
      Yields (node :: nodes) store (value :: values) final

/-- The keys and values of a map have ordinary values, one behind the other, and the keys have
strings. -/
inductive YieldsPairs : List (Node × Node) → Store → Store → Prop where
  | nil {store} : YieldsPairs [] store store
  | cons {key value pairs store middle final text result} :
      Yields model rounds scope [key, value] store [.string text, result] middle →
      YieldsPairs pairs middle final → YieldsPairs ((key, value) :: pairs) store final

/-- A loop makes so many whole rounds. -/
inductive Rounds (test step : Option Node) (body : Node) : Nat → Store → Store → Prop where
  | zero {store} : Rounds test step body 0 store store
  | succ {count store start middle final tests results} :
      Rounds test step body count store start →
      Yields model rounds scope test.toList start tests middle →
      (∀ value ∈ tests, value.truthy = true) →
      Yields model rounds scope (body :: step.toList) middle results final →
      Rounds test step body (count + 1) store final

/-- The evaluation of a node, begun in one store, comes to the evaluation of a part of it in
another one. -/
inductive Enters : Node → Store → Node → Store → Prop where
  | statement {before inner behind store values middle} :
      Yields model rounds scope before store values middle →
      Enters (program (before ++ inner :: behind)) store inner middle
  | blockStatement {origin before inner behind store values middle} :
      Yields model rounds scope before store values middle →
      Enters (block origin (before ++ inner :: behind)) store inner middle
  | expression {origin inner store} : Enters (expression origin inner) store inner store
  | firstValue {origin name text inner store middle} :
      name.naming = .ok text → store.declare scope text .null = .ok middle →
      Enters (declaration origin name (some inner)) store inner middle
  | returning {origin inner store} : Enters (returning origin (some inner)) store inner store
  | loopFirst {origin inner test step body store} :
      Enters (loop origin (some inner) test step body) store inner store
  | loopTest {origin first inner step body count store start middle values} :
      Yields model rounds scope first.toList store values start →
      Rounds model rounds scope (some inner) step body count start middle → count < rounds →
      Enters (loop origin first (some inner) step body) store inner middle
  | loopBody {origin first test step inner count store start next middle values tests} :
      Yields model rounds scope first.toList store values start →
      Rounds model rounds scope test step inner count start next → count < rounds →
      Yields model rounds scope test.toList next tests middle →
      (∀ value ∈ tests, value.truthy = true) →
      Enters (loop origin first test step inner) store inner middle
  | loopStep {origin first test inner body count store start next turn middle values tests result} :
      Yields model rounds scope first.toList store values start →
      Rounds model rounds scope test (some inner) body count start next → count < rounds →
      Yields model rounds scope test.toList next tests turn →
      (∀ value ∈ tests, value.truthy = true) →
      body.eval model rounds scope turn = .ok result middle →
      Enters (loop origin first test (some inner) body) store inner middle
  | element {origin before inner behind store values middle} :
      Yields model rounds scope before store values middle →
      Enters (array origin (before ++ inner :: behind)) store inner middle
  | key {origin before inner value behind store middle} :
      YieldsPairs model rounds scope before store middle →
      Enters (map origin (before ++ (inner, value) :: behind)) store inner middle
  | keyed {origin before key text inner behind store next middle} :
      YieldsPairs model rounds scope before store next →
      key.eval model rounds scope next = .ok (.string text) middle →
      Enters (map origin (before ++ (key, inner) :: behind)) store inner middle
  | test {origin inner consequence alternative store} :
      Enters (choice origin inner consequence alternative) store inner store
  | consequence {origin test inner alternative value store middle} :
      test.eval model rounds scope store = .ok value middle → value.truthy = true →
      Enters (choice origin test inner alternative) store inner middle
  | alternative {origin test consequence inner value store middle} :
      test.eval model rounds scope store = .ok value middle → value.truthy = false →
      Enters (choice origin test consequence (some inner)) store inner middle
  | operand {origin operator inner store} : Enters (unary origin operator inner) store inner store
  | left {origin operator inner right store} :
      Enters (binary origin inner operator right) store inner store
  | right {origin left operator inner value store middle} :
      left.eval model rounds scope store = .ok value middle →
      Enters (binary origin left operator inner) store inner middle
  | callee {origin inner arguments store} : Enters (call origin inner arguments) store inner store
  | argument {origin callee before inner behind store values middle} :
      Yields model rounds scope (callee :: before) store values middle →
      Enters (call origin callee (before ++ inner :: behind)) store inner middle
  | target {origin inner position store} : Enters (index origin inner position) store inner store
  | position {origin target inner value store middle} :
      target.eval model rounds scope store = .ok value middle →
      Enters (index origin target inner) store inner middle
  | owner {origin inner name store} : Enters (member origin inner name) store inner store
  | assigned {origin target name inner store} :
      target.identifier? = some name → store.has scope name = true →
      Enters (assign origin target inner) store inner store

/-- The evaluation of a node comes to that of a part at any depth. -/
inductive Descends : Node → Store → Node → Store → Prop where
  | refl {node store} : Descends node store node store
  | step {node store part middle inner final} :
      Enters model rounds scope node store part middle → Descends part middle inner final →
      Descends node store inner final

end Rules

variable {model : CallModel} {rounds : Nat} {scope : ScopeId} {node inner : Node}
  {before behind : List Node} {store middle final : Store} {value : Value} {values : List Value}
  {exit : Exit}

section Lists

/-- Two nodes have values one behind the other. -/
theorem Yields.pair {first second : Node} {left right : Value}
    (h : Yields model rounds scope [first, second] store [left, right] final) :
    ∃ middle, first.eval model rounds scope store = .ok left middle ∧
      second.eval model rounds scope middle = .ok right final := by
  cases h with
  | cons hfirst hrest =>
      cases hrest with
      | cons hsecond hnil =>
          cases hnil
          exact ⟨_, hfirst, hsecond⟩

/-- A list of nodes that have values is evaluated to them. -/
theorem evalList_of_yields (h : Yields model rounds scope before store values middle) :
    evalList model rounds scope before store = .ok values middle := by
  induction h with
  | nil => rfl
  | cons hnode _ ih =>
      rw [evalList, Eval.bind_of_ok hnode, Eval.bind_of_ok ih]
      rfl

/-- A list that is evaluated gives the values of its nodes. -/
theorem yields_of_evalList : ∀ {nodes : List Node} {store : Store} {values : List Value},
    evalList model rounds scope nodes store = .ok values final →
      Yields model rounds scope nodes store values final
  | [], _, _, h => by
      rw [evalList] at h
      cases h
      exact .nil
  | node :: nodes, store, _, h => by
      rw [evalList] at h
      cases hnode : node.eval model rounds scope store with
      | error exit middle =>
          rw [Eval.bind_of_error hnode] at h
          cases h
      | ok value middle =>
          rw [Eval.bind_of_ok hnode] at h
          cases hnodes : evalList model rounds scope nodes middle with
          | error exit finish =>
              rw [Eval.bind_of_error hnodes] at h
              cases h
          | ok rest finish =>
              rw [Eval.bind_of_ok hnodes] at h
              cases h
              exact .cons hnode (yields_of_evalList hnodes)

/-- The rest of a list is not evaluated behind an exit. -/
theorem evalList_of_error (h : Yields model rounds scope before store values middle)
    (hinner : inner.eval model rounds scope middle = .error exit final) :
    evalList model rounds scope (before ++ inner :: behind) store = .error exit final := by
  induction h with
  | nil => rw [List.nil_append, evalList, Eval.bind_of_error hinner]
  | cons hnode _ ih =>
      rw [List.cons_append, evalList, Eval.bind_of_ok hnode, Eval.bind_of_error (ih hinner)]

/-- The first statement that does not end well ends the list. -/
theorem evalStatements_of_error (h : Yields model rounds scope before store values middle)
    (hinner : inner.eval model rounds scope middle = .error exit final) (result : Value) :
    evalStatements model rounds scope result (before ++ inner :: behind) store =
      .error exit final := by
  induction h generalizing result with
  | nil => rw [List.nil_append, evalStatements, Eval.bind_of_error hinner]
  | cons hnode _ ih =>
      rw [List.cons_append, evalStatements, Eval.bind_of_ok hnode]
      exact ih hinner _

/-- An optional child has the value of the child. -/
theorem evalOption_of_yields {child : Option Node}
    (h : Yields model rounds scope child.toList store values middle) :
    evalOption model rounds scope child store = .ok values.head? middle := by
  cases child with
  | none =>
      cases h
      rfl
  | some node =>
      cases h with
      | cons hnode hnil =>
          cases hnil
          rw [evalOption, Eval.bind_of_ok hnode]
          rfl

/-- An optional child ends as the child does. -/
theorem evalOption_of_error (hinner : inner.eval model rounds scope store = .error exit final) :
    evalOption model rounds scope (some inner) store = .error exit final := by
  rw [evalOption, Eval.bind_of_error hinner]

theorem keyText_string (text : String) (store : Store) :
    keyText (.string text) store = .ok text store := rfl

/-- Pairs that have been evaluated leave the rest of a map literal to do. -/
theorem evalPairs_append {pairs : List (Node × Node)}
    (h : YieldsPairs model rounds scope pairs store middle) (rest : List (Node × Node))
    (entries : List (String × Value)) :
    ∃ more, evalPairs model rounds scope entries (pairs ++ rest) store =
      evalPairs model rounds scope more rest middle := by
  induction h generalizing entries with
  | nil => exact ⟨entries, rfl⟩
  | @cons key value pairs store middle final text result hpair _ ih =>
      obtain ⟨next, hkey, hvalue⟩ := hpair.pair
      obtain ⟨more, hmore⟩ := ih (Value.putEntry text result entries)
      refine ⟨more, ?_⟩
      rw [← hmore, List.cons_append, evalPairs, Eval.bind_of_ok hkey,
        Eval.bind_of_ok (keyText_string text next), Eval.bind_of_ok hvalue]

end Lists

section Loops

variable (model rounds scope)

/-- The test of a loop, which holds when there is none. -/
def loopTest (test : Option Node) : Eval Bool := do
  match ← evalOption model rounds scope test with
  | none => return true
  | some value => return value.truthy

/-- One round of a loop behind its test. -/
def loopRound (step : Option Node) (body : Node) : Eval Unit := do
  let _ ← body.eval model rounds scope
  let _ ← evalOption model rounds scope step
  return ()

/-- A loop is its first clause and then rounds of test, body and step. -/
theorem eval_loop (origin : Origin) (first test step : Option Node) (body : Node) :
    (loop origin first test step body).eval model rounds scope = Eval.located origin (do
      let _ ← evalOption model rounds scope first
      Eval.repeatWhile (loopTest model rounds scope test) (loopRound model rounds scope step body)
        rounds
      return .null) := by
  rw [eval]
  rfl

variable {model rounds scope} {test step : Option Node} {body : Node} {count : Nat}

/-- A test that is left out or has a value that counts as true holds. -/
theorem loopTest_of_yields (h : Yields model rounds scope test.toList store values middle)
    (hvalues : ∀ value ∈ values, value.truthy = true) :
    loopTest model rounds scope test store = .ok true middle := by
  rw [loopTest, Eval.bind_of_ok (evalOption_of_yields h)]
  cases values with
  | nil => rfl
  | cons value values =>
      simp only [List.head?_cons, hvalues value List.mem_cons_self]
      rfl

/-- A round is the body and then the step. -/
theorem loopRound_of_yields
    (h : Yields model rounds scope (body :: step.toList) store values final) :
    loopRound model rounds scope step body store = .ok () final := by
  cases h with
  | cons hbody hstep =>
      rw [loopRound, Eval.bind_of_ok hbody, Eval.bind_of_ok (evalOption_of_yields hstep)]
      rfl

/-- Whole rounds leave the rest of the rounds to do. -/
theorem repeatWhile_of_rounds (h : Rounds model rounds scope test step body count store middle)
    (more : Nat) :
    Eval.repeatWhile (loopTest model rounds scope test) (loopRound model rounds scope step body)
        (count + more) store =
      Eval.repeatWhile (loopTest model rounds scope test) (loopRound model rounds scope step body)
        more middle := by
  induction h generalizing more with
  | zero => rw [Nat.zero_add]
  | succ _ htest hholds hround ih =>
      rw [Nat.add_right_comm, Nat.add_assoc, ih (more + 1), Eval.repeatWhile,
        Eval.bind_of_ok (loopTest_of_yields htest hholds), if_pos rfl,
        Eval.bind_of_ok (loopRound_of_yields hround)]

/-- What stops a test or a round stops the loop. -/
theorem eval_loop_of_error {origin : Origin} {first : Option Node} {start : Store}
    (hfirst : Yields model rounds scope first.toList store values start)
    (hrounds : Rounds model rounds scope test step body count start middle)
    (hcount : count < rounds)
    (hstop : ∀ more, Eval.repeatWhile (loopTest model rounds scope test)
      (loopRound model rounds scope step body) (more + 1) middle = .error exit final) :
    (loop origin first test step body).eval model rounds scope store =
      .error (exit.located origin) final := by
  obtain ⟨more, rfl⟩ : ∃ more, rounds = count + (more + 1) := ⟨rounds - count - 1, by omega⟩
  rw [eval_loop]
  refine Eval.located_of_error origin ?_
  rw [Eval.bind_of_ok (evalOption_of_yields hfirst)]
  refine Eval.bind_of_error ?_
  rw [repeatWhile_of_rounds hrounds (more + 1)]
  exact hstop more

end Loops

/-- What stops the evaluation of a part stops that of the node around it. -/
theorem Enters.eval_of_error (h : Enters model rounds scope node store inner middle)
    (hinner : inner.eval model rounds scope middle = .error exit final) :
    node.eval model rounds scope store = .error (exit.located node.origin) final := by
  cases h with
  | statement hbefore =>
      rw [eval, origin, Exit.located_none]
      exact evalStatements_of_error hbefore hinner .null
  | blockStatement hbefore =>
      rw [eval]
      exact Eval.located_of_error _ (evalStatements_of_error hbefore hinner .null)
  | expression =>
      rw [eval]
      exact Eval.located_of_error _ hinner
  | @firstValue origin name text _ _ _ hname hdeclare =>
      rw [eval]
      refine Eval.located_of_error _ ?_
      have htext : Eval.nameOf name store = .ok text store := by rw [Eval.nameOf, hname]
      have hdeclared : Eval.declare scope text .null store = .ok () middle := by
        rw [Eval.declare, hdeclare]
      rw [Eval.bind_of_ok htext, Eval.bind_of_ok hdeclared]
      exact Eval.bind_of_error (evalOption_of_error hinner)
  | returning =>
      rw [eval]
      exact Eval.located_of_error _ (Eval.bind_of_error (evalOption_of_error hinner))
  | loopFirst =>
      rw [eval]
      exact Eval.located_of_error _ (Eval.bind_of_error (evalOption_of_error hinner))
  | loopTest hfirst hrounds hcount =>
      refine eval_loop_of_error hfirst hrounds hcount fun more => ?_
      rw [Eval.repeatWhile, Node.loopTest]
      exact Eval.bind_of_error (Eval.bind_of_error (evalOption_of_error hinner))
  | loopBody hfirst hrounds hcount htest hholds =>
      refine eval_loop_of_error hfirst hrounds hcount fun more => ?_
      rw [Eval.repeatWhile, Eval.bind_of_ok (loopTest_of_yields htest hholds), if_pos rfl,
        loopRound]
      exact Eval.bind_of_error (Eval.bind_of_error hinner)
  | loopStep hfirst hrounds hcount htest hholds hbody =>
      refine eval_loop_of_error hfirst hrounds hcount fun more => ?_
      rw [Eval.repeatWhile, Eval.bind_of_ok (loopTest_of_yields htest hholds), if_pos rfl,
        loopRound]
      refine Eval.bind_of_error ?_
      rw [Eval.bind_of_ok hbody]
      exact Eval.bind_of_error (evalOption_of_error hinner)
  | element hbefore =>
      rw [eval]
      exact Eval.located_of_error _ (Eval.bind_of_error (evalList_of_error hbefore hinner))
  | @key _ _ _ value behind _ _ hbefore =>
      rw [eval]
      refine Eval.located_of_error _ (Eval.bind_of_error ?_)
      obtain ⟨more, hmore⟩ := evalPairs_append hbefore ((inner, value) :: behind) []
      rw [hmore, evalPairs, Eval.bind_of_error hinner]
  | @keyed _ _ key text _ behind _ _ _ hbefore hkey =>
      rw [eval]
      refine Eval.located_of_error _ (Eval.bind_of_error ?_)
      obtain ⟨more, hmore⟩ := evalPairs_append hbefore ((key, inner) :: behind) []
      rw [hmore, evalPairs, Eval.bind_of_ok hkey, Eval.bind_of_ok (keyText_string text middle)]
      exact Eval.bind_of_error hinner
  | test =>
      rw [eval]
      exact Eval.located_of_error _ (Eval.bind_of_error hinner)
  | consequence htest htruthy =>
      rw [eval]
      refine Eval.located_of_error _ ?_
      rw [Eval.bind_of_ok htest, if_pos htruthy]
      exact hinner
  | alternative htest htruthy =>
      rw [eval]
      refine Eval.located_of_error _ ?_
      rw [Eval.bind_of_ok htest, htruthy]
      exact Eval.bind_of_error (evalOption_of_error hinner)
  | operand | left | callee | target | owner =>
      rw [eval]
      exact Eval.located_of_error _ (Eval.bind_of_error hinner)
  | right hleft | position hleft =>
      rw [eval]
      refine Eval.located_of_error _ ?_
      rw [Eval.bind_of_ok hleft]
      exact Eval.bind_of_error hinner
  | argument hbefore =>
      cases hbefore with
      | cons hcallee hbefore =>
          rw [eval]
          refine Eval.located_of_error _ ?_
          rw [Eval.bind_of_ok hcallee]
          exact Eval.bind_of_error (evalList_of_error hbefore hinner)
  | @assigned _ _ name _ _ hname hhas =>
      simp only [eval, hname]
      refine Eval.located_of_error _ ?_
      have hfound : Eval.has scope name store = .ok true store := by rw [Eval.has, hhas]
      rw [Eval.bind_of_ok hfound, if_pos rfl]
      exact Eval.bind_of_error hinner

/-- A pending return passes through every node around it, and no more is done on its way. -/
theorem Descends.eval_of_returned (h : Descends model rounds scope node store inner middle)
    (hinner : inner.eval model rounds scope middle = .error (.returned value) final) :
    node.eval model rounds scope store = .error (.returned value) final := by
  induction h with
  | refl => exact hinner
  | step henters _ ih => exact henters.eval_of_error (ih hinner)

end Node

/-- The application of a closure to arguments comes to its body, in a new scope. -/
structure Closure.Starts (closure : Closure) (arguments : List Value) (before : Store)
    (scope : ScopeId) (store : Store) : Prop where
  count : arguments.length = closure.parameters.length
  opened : scope = before.scopes.size
  bound : Closure.bind scope (closure.parameters.zip arguments)
    (before.openScope (some closure.scope)).2 = .ok () store

/-- A value that the body returns is the value of the call. -/
theorem Closure.Starts.invoke_of_returned {closure : Closure} {arguments : List Value}
    {before store final : Store} {scope : ScopeId} {rounds calls : Nat} {value : Value}
    (h : closure.Starts arguments before scope store)
    (hbody : closure.body.eval (Closure.invoke rounds calls) rounds scope store =
      .error (.returned value) final) :
    Closure.invoke rounds (calls + 1) closure arguments before = .ok value final := by
  obtain ⟨hcount, rfl, hbound⟩ := h
  rw [Closure.invoke, if_pos hcount]
  have hopened : Eval.openScope closure.scope before =
      .ok before.scopes.size (before.openScope (some closure.scope)).2 := rfl
  rw [Eval.bind_of_ok hopened, Eval.bind_of_ok hbound, Eval.catchReturn, hbody]

/-- Wherever a node stands inside another one, a return that is pending at its end is pending at the
end of the whole, in the very store it was met in. When the whole is the body of a function, the
call of the function has the value of the return. -/
theorem returned_passes (rounds calls : Nat) (scope : ScopeId) (node inner : Node)
    (store middle final : Store) (value : Value)
    (hdescends : Node.Descends (Closure.invoke rounds calls) rounds scope node store inner middle)
    (hreturn : inner.eval (Closure.invoke rounds calls) rounds scope middle =
      .error (.returned value) final) :
    node.eval (Closure.invoke rounds calls) rounds scope store = .error (.returned value) final ∧
    ∀ (outer : ScopeId) (origin : Origin) (callee : Node) (arguments : List Node)
      (start before : Store) (id : ObjectId) (closure : Closure) (values : List Value),
      Node.Yields (Closure.invoke rounds (calls + 1)) rounds outer (callee :: arguments) start
        (.function id closure :: values) before →
      closure.body = node → closure.Starts values before scope store →
      (Node.call origin callee arguments).eval (Closure.invoke rounds (calls + 1)) rounds outer
        start = .ok value final := by
  have hnode := hdescends.eval_of_returned hreturn
  refine ⟨hnode, ?_⟩
  intro outer origin callee arguments start before id closure values hyields hbody hstarts
  subst hbody
  cases hyields with
  | cons hcallee harguments =>
      rw [Node.eval]
      refine Eval.located_of_ok origin ?_
      rw [Eval.bind_of_ok hcallee, Eval.bind_of_ok (Node.evalList_of_yields harguments)]
      exact hstarts.invoke_of_returned hnode

/-- A function that returns from inside an array, before its last element prints. -/
def Closure.returningElement : Closure where
  parameters := []
  body := .block none [.expression none (.array none
    [.integer none 1, .unary none "-" (.returning none (some (.integer none 7))),
      .call none (.identifier none "print") []])]
  scope := 0

/-- The return passes through the operator, the array and the block, and nothing is printed. -/
theorem returned_passes_element :
    let store := (Store.empty .recording).openRoot.2
    let start := (store.newId.2.openScope (some 0)).2
    let inner : Node := .returning none (some (.integer none 7))
    Node.Descends (Closure.invoke 1 0) 1 1 Closure.returningElement.body start inner start ∧
    inner.eval (Closure.invoke 1 0) 1 1 start = .error (.returned (.integer 7)) start ∧
    (Node.call none (.function none [] Closure.returningElement.body) []).eval (Closure.invoke 1 1)
      1 0 store = .ok (.integer 7) start := by
  intro store start inner
  have hnone : Node.Yields (Closure.invoke 1 0) 1 1 [] start [] start := .nil
  have hone : Node.Yields (Closure.invoke 1 0) 1 1 [.integer none 1] start [.integer 1] start :=
    .cons rfl .nil
  have hdescends : Node.Descends (Closure.invoke 1 0) 1 1 Closure.returningElement.body start inner
      start :=
    .step (.blockStatement hnone) (.step .expression
      (.step (.element hone) (.step .operand .refl)))
  have hreturn : inner.eval (Closure.invoke 1 0) 1 1 start =
      .error (.returned (.integer 7)) start := rfl
  refine ⟨hdescends, hreturn, ?_⟩
  exact (returned_passes 1 0 1 _ inner start start start (.integer 7) hdescends hreturn).2 0 none
    (.function none [] Closure.returningElement.body) [] store store.newId.2 0
    Closure.returningElement [] (.cons rfl .nil) rfl ⟨rfl, rfl, rfl⟩

end Scriptlet
