import Scriptlet.Eval.Basic
import Scriptlet.Value.Operation

/-!
# Evaluation of nodes

`Node.eval` follows the shape of a node and takes the meaning of function calls as an argument.
`Closure.invoke` ties the knot: a call runs the body of its closure with one call less to spend.
-/

namespace Scriptlet

/-- The meaning of a call of a closure. -/
abbrev CallModel := Closure → List Value → Eval Value

/-- Apply a host function. -/
def Builtin.apply (host : Builtin) (arguments : List Value) : Eval Value :=
  match host with
  | .len => Eval.ofExcept (Value.length arguments)
  | .print => do
      Eval.print arguments
      return .null

/-- Apply a value to arguments. -/
def Value.apply (model : CallModel) (callee : Value) (arguments : List Value) : Eval Value :=
  match callee with
  | .function _ closure => model closure arguments
  | .builtin host => host.apply arguments
  | _ => Eval.fault .notCallable

namespace Node

/-- The text of a string used as a map key. -/
def keyText (key : Value) : Eval String :=
  match key with
  | .string text => return text
  | value => Eval.fault (.badKey value.type)

mutual

/-- The value of a node in a scope. A statement list has the value of its last statement that is no
declaration and no loop; declarations and loops have the value null. -/
def eval (model : CallModel) (rounds : Nat) (scope : ScopeId) : Node → Eval Value
  | hole => throw (.failed (.flaw .hole))
  | program statements => evalStatements model rounds scope .null statements
  | expression origin body => Eval.located origin (body.eval model rounds scope)
  | declaration origin name value => Eval.located origin do
      let text ← Eval.nameOf name
      Eval.declare scope text .null
      match ← evalOption model rounds scope value with
      | none => return .null
      | some first =>
          Eval.write scope text first
          return .null
  | returning origin value => Eval.located origin do
      let result ← evalOption model rounds scope value
      throw (.returned (result.getD .null))
  | block origin statements =>
      Eval.located origin (evalStatements model rounds scope .null statements)
  | loop origin first test step body => Eval.located origin do
      let _ ← evalOption model rounds scope first
      let holds : Eval Bool := do
        match ← evalOption model rounds scope test with
        | none => return true
        | some value => return value.truthy
      let round : Eval Unit := do
        let _ ← body.eval model rounds scope
        let _ ← evalOption model rounds scope step
        return ()
      Eval.repeatWhile holds round rounds
      return .null
  | integer _ value => return .integer value
  | boolean _ value => return .boolean value
  | string _ value => return .string value
  | identifier origin name => Eval.located origin (Eval.lookup scope name)
  | array origin elements => Eval.located origin do
      let values ← evalList model rounds scope elements
      return .array (← Eval.newId) values
  | map origin pairs => Eval.located origin do
      let entries ← evalPairs model rounds scope [] pairs
      return .map (← Eval.newId) entries
  | function _ parameters body => do
      return .function (← Eval.newId) ⟨parameters, body, scope⟩
  | choice origin test consequence alternative => Eval.located origin do
      let value ← test.eval model rounds scope
      if value.truthy then
        consequence.eval model rounds scope
      else
        let result ← evalOption model rounds scope alternative
        return result.getD .null
  | unary origin operator operand => Eval.located origin do
      let value ← operand.eval model rounds scope
      Eval.ofExcept (Value.unary operator value)
  | binary origin left operator right => Eval.located origin do
      let first ← left.eval model rounds scope
      let second ← right.eval model rounds scope
      Eval.ofExcept (Value.binary operator first second)
  | call origin callee arguments => Eval.located origin do
      let function ← callee.eval model rounds scope
      let values ← evalList model rounds scope arguments
      function.apply model values
  | index origin target position => Eval.located origin do
      let collection ← target.eval model rounds scope
      let place ← position.eval model rounds scope
      Eval.ofExcept (Value.index collection place)
  | member origin target name => Eval.located origin do
      let value ← target.eval model rounds scope
      let text ← Eval.nameOf name
      Eval.ofExcept (Value.member value text)
  | assign origin target value => Eval.located origin do
      match target.identifier? with
      | none => Eval.fault .badTarget
      | some name =>
          if ← Eval.has scope name then
            let result ← value.eval model rounds scope
            Eval.set scope name result
            return result
          else
            Eval.fault .badTarget

/-- The values of a list of nodes, left to right. -/
def evalList (model : CallModel) (rounds : Nat) (scope : ScopeId) :
    List Node → Eval (List Value)
  | [] => return []
  | node :: nodes => do
      let value ← node.eval model rounds scope
      let values ← evalList model rounds scope nodes
      return value :: values

/-- The value of a list of statements whose value so far is `result`. -/
def evalStatements (model : CallModel) (rounds : Nat) (scope : ScopeId) (result : Value) :
    List Node → Eval Value
  | [] => return result
  | node :: nodes => do
      let value ← node.eval model rounds scope
      evalStatements model rounds scope (if node.isSilent then result else value) nodes

/-- The entries of a map literal behind those already made: each key is looked at before its value
is evaluated. -/
def evalPairs (model : CallModel) (rounds : Nat) (scope : ScopeId)
    (entries : List (String × Value)) : List (Node × Node) → Eval (List (String × Value))
  | [] => return entries
  | (key, node) :: pairs => do
      let name ← keyText (← key.eval model rounds scope)
      let value ← node.eval model rounds scope
      evalPairs model rounds scope (Value.putEntry name value entries) pairs

/-- The value of an optional child. -/
def evalOption (model : CallModel) (rounds : Nat) (scope : ScopeId) :
    Option Node → Eval (Option Value)
  | none => return none
  | some node => do
      let value ← node.eval model rounds scope
      return some value

end

end Node

/-- Declare parameters with their arguments. -/
def Closure.bind (scope : ScopeId) : List (Node × Value) → Eval Unit
  | [] => return ()
  | (parameter, value) :: rest => do
      let name ← Eval.nameOf parameter
      Eval.declare scope name value
      Closure.bind scope rest

/-- Call a closure: its body runs in a new scope inside the one the closure was written in. The
number counts the calls that may still be nested in one another. -/
def Closure.invoke (rounds : Nat) : Nat → CallModel
  | 0, _, _ => throw .exhausted
  | calls + 1, closure, arguments =>
      if arguments.length = closure.parameters.length then do
        let scope ← Eval.openScope closure.scope
        Closure.bind scope (closure.parameters.zip arguments)
        Eval.catchReturn (closure.body.eval (Closure.invoke rounds calls) rounds scope)
      else
        Eval.fault (.argumentCount arguments.length closure.parameters.length)

end Scriptlet
