import Scriptlet.Run

/-!
# What evaluations are made of

An evaluation is put together from operations on the store by sequencing, by giving faults a place
and by catching returns. A property of evaluations that holds of the operations and is kept by the
three ways of composing them (`Composes`) therefore holds of the evaluation of every node
(`Composes.eval`, one case for each form of node) and, by induction on the number of calls, of every
call (`Composes.invoke`).
-/

namespace Scriptlet

/-- The property holds of all operations on the store and is kept where they are composed. -/
structure Composes (holds : {α : Type} → Eval α → Prop) : Prop where
  pure : ∀ {α : Type} (value : α), holds (pure value : Eval α)
  throw : ∀ {α : Type} (exit : Exit), holds (throw exit : Eval α)
  bind : ∀ {α β : Type} {action : Eval α} {next : α → Eval β},
    holds action → (∀ value, holds (next value)) → holds (action >>= next)
  located : ∀ {α : Type} {action : Eval α} (origin : Origin),
    holds action → holds (Eval.located origin action)
  catchReturn : ∀ {action : Eval Value}, holds action → holds (Eval.catchReturn action)
  lookup : ∀ scope name, holds (Eval.lookup scope name)
  has : ∀ scope name, holds (Eval.has scope name)
  declare : ∀ scope name value, holds (Eval.declare scope name value)
  write : ∀ scope name value, holds (Eval.write scope name value)
  set : ∀ scope name value, holds (Eval.set scope name value)
  openScope : ∀ parent, holds (Eval.openScope parent)
  newId : holds Eval.newId
  print : ∀ arguments, holds (Eval.print arguments)

namespace Composes

variable {holds : {α : Type} → Eval α → Prop}

section Parts

variable (rules : Composes holds)
include rules

theorem fault {α : Type} (cause : Fault) : holds (Eval.fault cause : Eval α) :=
  rules.throw _

theorem ofExcept {α : Type} (result : Except Fault α) : holds (Eval.ofExcept result) := by
  cases result with
  | ok value => exact rules.pure value
  | error cause => exact rules.throw _

theorem nameOf (node : Node) : holds (Eval.nameOf node) := by
  unfold Eval.nameOf
  cases node.naming with
  | ok name => exact rules.pure name
  | error flaw => exact rules.throw _

/-- A loop of a test and a body, by induction on the rounds it may take. -/
theorem repeatWhile {test : Eval Bool} {body : Eval Unit} (htest : holds test)
    (hbody : holds body) (rounds : Nat) : holds (Eval.repeatWhile test body rounds) := by
  induction rounds with
  | zero => exact rules.throw .exhausted
  | succ rounds ih =>
      refine rules.bind htest fun found => ?_
      cases found with
      | true => exact rules.bind hbody fun _ => ih
      | false => exact rules.pure ()

/-- A key is a string, or it is a fault. -/
theorem keyText (key : Value) : holds (Node.keyText key) := by
  cases key with
  | string text => exact rules.pure text
  | _ => exact rules.fault _

theorem hostApply (host : Builtin) (arguments : List Value) : holds (host.apply arguments) := by
  cases host with
  | len => exact rules.ofExcept _
  | print => exact rules.bind (rules.print arguments) fun _ => rules.pure Value.null

variable {model : CallModel} (hmodel : ∀ closure arguments, holds (model closure arguments))
include hmodel

/-- Only applications of written functions depend on what the model does. -/
theorem apply (callee : Value) (arguments : List Value) :
    holds (callee.apply model arguments) := by
  cases callee with
  | function id closure => exact hmodel closure arguments
  | builtin host => exact rules.hostApply host arguments
  | _ => exact rules.fault .notCallable

end Parts

section Nodes

variable {model : CallModel} {rounds : Nat} {scope : ScopeId}

mutual

/-- The property holds of the evaluation of a node if it holds of calls. -/
theorem eval (rules : Composes holds) (hmodel : ∀ closure values, holds (model closure values)) :
    ∀ node : Node, holds (node.eval model rounds scope)
  | .hole => by
      rw [Node.eval]
      exact rules.throw _
  | .program statements => by
      rw [Node.eval]
      exact evalStatements rules hmodel statements .null
  | .expression origin body => by
      rw [Node.eval]
      exact rules.located origin (eval rules hmodel body)
  | .declaration origin name value => by
      rw [Node.eval]
      refine rules.located origin (rules.bind (rules.nameOf name) fun text => ?_)
      refine rules.bind (rules.declare scope text .null) fun _ => ?_
      refine rules.bind (evalOption rules hmodel value) fun first => ?_
      cases first with
      | none => exact rules.pure Value.null
      | some first => exact rules.bind (rules.write scope text first) fun _ => rules.pure Value.null
  | .returning origin value => by
      rw [Node.eval]
      exact rules.located origin (rules.bind (evalOption rules hmodel value) fun _ => rules.throw _)
  | .block origin statements => by
      rw [Node.eval]
      exact rules.located origin (evalStatements rules hmodel statements .null)
  | .loop origin first test step body => by
      rw [Node.eval]
      refine rules.located origin (rules.bind (evalOption rules hmodel first) fun _ => ?_)
      refine rules.bind (rules.repeatWhile ?_ ?_ rounds) fun _ => rules.pure Value.null
      · refine rules.bind (evalOption rules hmodel test) fun value => ?_
        cases value with
        | none => exact rules.pure true
        | some value => exact rules.pure value.truthy
      · exact rules.bind (eval rules hmodel body) fun _ =>
          rules.bind (evalOption rules hmodel step) fun _ => rules.pure ()
  | .integer _ value => by
      rw [Node.eval]
      exact rules.pure _
  | .boolean _ value => by
      rw [Node.eval]
      exact rules.pure _
  | .string _ value => by
      rw [Node.eval]
      exact rules.pure _
  | .identifier origin name => by
      rw [Node.eval]
      exact rules.located origin (rules.lookup scope name)
  | .array origin elements => by
      rw [Node.eval]
      exact rules.located origin (rules.bind (evalList rules hmodel elements) fun _ =>
        rules.bind rules.newId fun _ => rules.pure _)
  | .map origin pairs => by
      rw [Node.eval]
      exact rules.located origin (rules.bind (evalPairs rules hmodel pairs []) fun _ =>
        rules.bind rules.newId fun _ => rules.pure _)
  | .function _ parameters body => by
      rw [Node.eval]
      exact rules.bind rules.newId fun _ => rules.pure _
  | .choice origin test consequence alternative => by
      rw [Node.eval]
      refine rules.located origin (rules.bind (eval rules hmodel test) fun value => ?_)
      split
      · exact eval rules hmodel consequence
      · exact rules.bind (evalOption rules hmodel alternative) fun _ => rules.pure _
  | .unary origin operator operand => by
      rw [Node.eval]
      exact rules.located origin (rules.bind (eval rules hmodel operand) fun _ => rules.ofExcept _)
  | .binary origin left operator right => by
      rw [Node.eval]
      exact rules.located origin (rules.bind (eval rules hmodel left) fun _ =>
        rules.bind (eval rules hmodel right) fun _ => rules.ofExcept _)
  | .call origin callee arguments => by
      rw [Node.eval]
      refine rules.located origin (rules.bind (eval rules hmodel callee) fun function => ?_)
      exact rules.bind (evalList rules hmodel arguments) fun values =>
        rules.apply hmodel function values
  | .index origin target position => by
      rw [Node.eval]
      exact rules.located origin (rules.bind (eval rules hmodel target) fun _ =>
        rules.bind (eval rules hmodel position) fun _ => rules.ofExcept _)
  | .member origin target name => by
      rw [Node.eval]
      exact rules.located origin (rules.bind (eval rules hmodel target) fun _ =>
        rules.bind (rules.nameOf name) fun _ => rules.ofExcept _)
  | .assign origin target value => by
      rw [Node.eval]
      refine rules.located origin ?_
      cases target.identifier? with
      | none => exact rules.fault .badTarget
      | some name =>
          refine rules.bind (rules.has scope name) fun found => ?_
          cases found with
          | true =>
              exact rules.bind (eval rules hmodel value) fun result =>
                rules.bind (rules.set scope name result) fun _ => rules.pure result
          | false => exact rules.fault .badTarget

/-- A list is evaluated from front to back. -/
theorem evalList (rules : Composes holds)
    (hmodel : ∀ closure values, holds (model closure values)) :
    ∀ nodes : List Node, holds (Node.evalList model rounds scope nodes)
  | [] => by
      rw [Node.evalList]
      exact rules.pure []
  | node :: nodes => by
      rw [Node.evalList]
      exact rules.bind (eval rules hmodel node) fun _ =>
        rules.bind (evalList rules hmodel nodes) fun _ => rules.pure _

theorem evalStatements (rules : Composes holds)
    (hmodel : ∀ closure values, holds (model closure values)) :
    ∀ (nodes : List Node) (result : Value),
      holds (Node.evalStatements model rounds scope result nodes)
  | [], result => by
      rw [Node.evalStatements]
      exact rules.pure result
  | node :: nodes, result => by
      rw [Node.evalStatements]
      exact rules.bind (eval rules hmodel node) fun _ => evalStatements rules hmodel nodes _

theorem evalPairs (rules : Composes holds)
    (hmodel : ∀ closure values, holds (model closure values)) :
    ∀ (pairs : List (Node × Node)) (entries : List (String × Value)),
      holds (Node.evalPairs model rounds scope entries pairs)
  | [], entries => by
      rw [Node.evalPairs]
      exact rules.pure entries
  | (key, node) :: pairs, entries => by
      rw [Node.evalPairs]
      exact rules.bind (eval rules hmodel key) fun text => rules.bind (rules.keyText text) fun _ =>
        rules.bind (eval rules hmodel node) fun _ => evalPairs rules hmodel pairs _

theorem evalOption (rules : Composes holds)
    (hmodel : ∀ closure values, holds (model closure values)) :
    ∀ child : Option Node, holds (Node.evalOption model rounds scope child)
  | none => by
      rw [Node.evalOption]
      exact rules.pure none
  | some node => by
      rw [Node.evalOption]
      exact rules.bind (eval rules hmodel node) fun _ => rules.pure _

end

end Nodes

section Calls

variable (rules : Composes holds)
include rules

/-- Parameters are declared one by one. -/
theorem bindParameters (scope : ScopeId) :
    ∀ pairs : List (Node × Value), holds (Closure.bind scope pairs)
  | [] => rules.pure ()
  | (parameter, value) :: pairs => rules.bind (rules.nameOf parameter) fun name =>
      rules.bind (rules.declare scope name value) fun _ => bindParameters scope pairs

/-- The calls in a body may be nested one level less, which is the induction. -/
theorem invoke (rounds calls : Nat) (closure : Closure) (arguments : List Value) :
    holds (Closure.invoke rounds calls closure arguments) := by
  induction calls generalizing closure arguments with
  | zero => exact rules.throw .exhausted
  | succ calls ih =>
      rw [Closure.invoke]
      split
      · refine rules.bind (rules.openScope closure.scope) fun scope => ?_
        refine rules.bind (rules.bindParameters scope _) fun _ => ?_
        exact rules.catchReturn (rules.eval ih closure.body)
      · exact rules.fault _

/-- The property holds of every evaluation within limits. -/
theorem within (limits : Limits) (scope : ScopeId) (node : Node) :
    holds (node.eval limits.model limits.rounds scope) :=
  rules.eval (rules.invoke limits.rounds limits.calls) node

end Calls

end Composes

end Scriptlet
