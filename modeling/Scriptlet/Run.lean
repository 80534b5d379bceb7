import Scriptlet.Eval.Node
import Scriptlet.Parser.Program

/-!
# Running programs

`Node.evaluate` runs a node in a scope of a store and says how it ended; a program is the boundary
at which a failure is reported. `submit` reads a source text first and runs it only if it has no
syntax errors. What a run has declared, assigned and printed stays in the store whatever its end.
-/

namespace Scriptlet

/-- How far an evaluation may go: calls nested in one another, and rounds of one loop. -/
structure Limits where
  calls : Nat
  rounds : Nat

/-- The limits in use. No run reaches the end of the rounds. -/
def Limits.standard : Limits := ⟨1500, 1000000000000000000⟩

/-- How the evaluation of a node ended. -/
inductive Outcome where
  | value (value : Value)
  /-- A failure of a node that is no program. -/
  | failed (failure : Failure)
  /-- A failure below a program, reported at its boundary. -/
  | reported (failure : Failure)
  | exhausted

/-- The meaning of calls within limits. -/
def Limits.model (limits : Limits) : CallModel :=
  Closure.invoke limits.rounds limits.calls

/-- Evaluate a node in a scope; a return that is pending at the end gives its value. -/
def Node.evaluate (limits : Limits) (scope : ScopeId) (node : Node) (store : Store) :
    Outcome × Store :=
  match node.eval limits.model limits.rounds scope store with
  | .ok value store => (.value value, store)
  | .error (.returned value) store => (.value value, store)
  | .error (.failed failure) store =>
      (if node.isProgram then .reported failure else .failed failure, store)
  | .error .exhausted store => (.exhausted, store)

/-- Apply a value of the store to arguments. -/
def Value.call (limits : Limits) (callee : Value) (arguments : List Value) (store : Store) :
    Outcome × Store :=
  match callee.apply limits.model arguments store with
  | .ok value store => (.value value, store)
  | .error (.returned value) store => (.value value, store)
  | .error (.failed failure) store => (.failed failure, store)
  | .error .exhausted store => (.exhausted, store)

/-- How the run of a source text ended. -/
inductive Verdict where
  /-- The text was run. -/
  | ran (outcome : Outcome)
  /-- The text has syntax errors and was not run. -/
  | rejected (errors : List SyntaxError)
  /-- The text could not be read to its end. -/
  | unreadable (stop : Stop)

/-- Read a source text and run it in a scope. -/
def submit (limits : Limits) (scope : ScopeId) (source : String) (store : Store) :
    Verdict × Store :=
  match parse source with
  | .error stop => (.unreadable stop, store)
  | .ok parsed =>
      match parsed.errors with
      | [] =>
          let (outcome, store) := parsed.program.evaluate limits scope store
          (.ran outcome, store)
      | errors => (.rejected errors, store)

namespace Store

/-- Open an outermost scope in which `print` is declared. -/
def openRoot (store : Store) : ScopeId × Store :=
  let (id, store) := store.openScope none
  (id, store.append id "print" (.builtin .print))

/-- Take what was printed out of the store. -/
def takePrinted (store : Store) : List (List Value) × Store :=
  (store.printed.toList, { store with printed := #[] })

end Store

/-- The text of printed arguments: one line a call, blanks between the arguments. -/
def printedText (calls : List (List Value)) : String :=
  String.join (calls.map fun arguments =>
    " ".intercalate (arguments.map Value.inspect) ++ "\n")

end Scriptlet
