import Scriptlet.Run
import Scriptlet.Transcript

/-!
# Diagnostics

What is written about a run: syntax errors, a reported failure with its optional trace, the result,
and the log lines of a verbose run.
-/

namespace Scriptlet.Diagnostic

/-- The last line of a trace: the class of the failure and its wording. -/
def traceLine : Failure → String
  | .fault cause _ => "funkey.types." ++ cause.faultClass.label ++ ": " ++ cause.message ++ "\n"
  | .sink reason => "ValueError: " ++ reason ++ "\n"
  | .flaw .hole => "AssertionError: " ++ Flaw.hole.message ++ "\n"
  | .flaw flaw => "AttributeError: " ++ flaw.message ++ "\n"

/-- A failure that was reported, followed by its trace when traces are on. -/
def failure (trace : Bool) (failure : Failure) : Transcript :=
  .error ("Error: " ++ failure.describe ++ "\n" ++
    if trace then "\nPython traceback:\n" ++ traceLine failure else "")

/-- The result of a run; null is not shown. -/
def result : Value → Transcript
  | .null => .empty
  | value => .output (value.inspect ++ "\n")

/-- Syntax errors, one a line behind an introduction. -/
def syntaxErrors (introduction : String) (errors : List SyntaxError) : Transcript :=
  .error (String.join (errors.map fun error => introduction ++ error.message ++ "\n"))

/-- The log line of a text that was read. -/
def readLog (verbose : Bool) (parsed : Parsed) : Transcript :=
  if verbose then
    match parsed.errors with
    | [] =>
        .error ("funkey.runner: parsed " ++ toString parsed.statements.length ++
          " top-level statement(s)\n")
    | errors =>
        .error ("funkey.runner: parse failed with " ++ toString errors.length ++ " error(s)\n")
  else
    .empty

/-- The log line of a run that gave a value. -/
def valueLog (verbose : Bool) (value : Value) : Transcript :=
  if verbose then
    .error ("funkey.runner: evaluated program to " ++ value.type.name ++ "\n")
  else
    .empty

end Scriptlet.Diagnostic
