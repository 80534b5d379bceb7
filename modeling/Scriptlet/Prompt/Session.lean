import Scriptlet.Diagnostic
import Scriptlet.Node.Tree
import Scriptlet.Prompt.Command
import Scriptlet.Switch

/-!
# Sessions at the prompt

A session keeps one store for all submissions and the settings that slash commands change.
-/

namespace Scriptlet.Prompt

/-- The state of a session. -/
structure Session where
  store : Store
  root : ScopeId
  /-- Trees are shown before results. -/
  showTree : Bool
  /-- Failures are followed by a trace. -/
  trace : Bool
  /-- Each step is logged. -/
  verbose : Bool

/-- What ends a session from inside a submission. -/
inductive Break where
  /-- The limits of evaluation are used up. -/
  | exhausted
  /-- The text of the submission could not be read to its end. -/
  | unreadable (stop : Stop)
deriving DecidableEq, Repr

/-- A text that was run, or refused, in a session: the verdict, what was printed, and the session
behind it. -/
structure Submission where
  verdict : Verdict
  printed : List (List Value)
  session : Session

/-- The break that a verdict causes. -/
def breakOf? : Verdict → Option Break
  | .ran .exhausted => some .exhausted
  | .unreadable stop => some (.unreadable stop)
  | _ => none

/-- What one line does: what is written, the session behind it, and whether it ends there. -/
structure Step where
  transcript : Transcript
  session : Session
  broken : Option Break

namespace Session

/-- A session with a fresh scope whose prints go to the given sink. -/
def start (sink : Sink) (trace verbose : Bool) : Session :=
  let (root, store) := (Store.empty sink).openRoot
  ⟨store, root, false, trace, verbose⟩

/-- The word for a setting. -/
def setting (value : Bool) : String :=
  if value then "on" else "off"

/-- Run a slash command. -/
def command (session : Session) (line : SlashLine) : Transcript × Session :=
  match Command.ofName? line.name with
  | some .clear => (.empty, session)
  | some .tree =>
      (.output ("Parse tree: " ++ setting (!session.showTree) ++ "\n"),
        { session with showTree := !session.showTree })
  | some .reset =>
      let (root, store) := (Store.empty .recording).openRoot
      (.output "Environment reset.\n", { session with store := store, root := root })
  | some .trace =>
      match if line.argument = "" then some (!session.trace) else Switch.read? line.argument with
      | some value =>
          (.output ("Python traceback: " ++ setting value ++ "\n"), { session with trace := value })
      | none => (.error "Usage: /py-traceback [on|off]\n", session)
  | none => (.error ("Unknown command: " ++ line.name ++ "\n"), session)

/-- Read a text and run it in the scope of the session. -/
def run (session : Session) (text : String) : Submission :=
  let (verdict, ran) := Scriptlet.submit Limits.standard session.root text session.store
  let (printed, store) := ran.takePrinted
  ⟨verdict, printed, { session with store := store }⟩

/-- What is written about the reading of a text before it is run: the log of a verbose session, and
the tree when trees are on, for which the text is read once more. -/
def preface (session : Session) (text : String) : Transcript :=
  match parse text with
  | .error _ => .empty
  | .ok parsed =>
      let log := Diagnostic.readLog session.verbose parsed
      if session.showTree && parsed.errors.isEmpty then
        log ++ .output parsed.program.toTree.pretty ++ log
      else
        log

/-- What is written behind the end of a run. -/
def conclusion (session : Session) : Outcome → Transcript
  | .value value => Diagnostic.valueLog session.verbose value ++ Diagnostic.result value
  | .failed failure => Diagnostic.failure session.trace failure
  | .reported failure => Diagnostic.failure session.trace failure
  | .exhausted => .empty

/-- What is written about a submission behind its preface. -/
def account (session : Session) (submission : Submission) : Transcript :=
  match submission.verdict with
  | .ran outcome => .output (printedText submission.printed) ++ session.conclusion outcome
  | .rejected errors => Diagnostic.syntaxErrors "Error: " errors
  | .unreadable _ => .empty

/-- Run a submission and write about it. -/
def submit (session : Session) (text : String) : Step :=
  let submission := session.run text
  ⟨session.preface text ++ session.account submission, submission.session,
    breakOf? submission.verdict⟩

/-- Take a line: a blank one does nothing, one whose first word begins with a slash is a command,
all else is a submission. -/
def dispatch (session : Session) (line : String) : Step :=
  if Text.allBlank line.toList then
    ⟨.empty, session, none⟩
  else
    match SlashLine.ofText? line with
    | some slash =>
        let (transcript, session) := session.command slash
        ⟨transcript, session, none⟩
    | none => session.submit line

end Session

end Scriptlet.Prompt
