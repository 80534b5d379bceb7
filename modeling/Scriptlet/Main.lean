import Scriptlet.CommandLine
import Scriptlet.Prompt.Keys
import Scriptlet.Switch

/-!
# The program

The outer layer: it reads the arguments, the standard input and files, and writes what the command
line or the prompt has to say.
-/

namespace Scriptlet.Main

/-- All that is left of a stream. -/
partial def readAll (stream : IO.FS.Stream) (bytes : ByteArray) : IO ByteArray := do
  let chunk ← stream.read 65536
  if chunk.isEmpty then
    return bytes
  else
    readAll stream (bytes ++ chunk)

/-- Write a transcript. -/
def write (transcript : Transcript) : IO Unit := do
  (← IO.getStdout).putStr transcript.out
  (← IO.getStdout).flush
  (← IO.getStderr).putStr transcript.err

/-- The prompt over whole lines: the end of a line is the Enter key. -/
partial def promptLoop (dialogue : Prompt.Dialogue) : IO UInt32 := do
  write dialogue.transcript
  let dialogue := { dialogue with transcript := .empty }
  match dialogue.ending with
  | some .finished => return 0
  | some (.broken _) => return 1
  | none =>
      IO.print (if dialogue.buffer.isEmpty then ">>> " else "... ")
      (← IO.getStdout).flush
      let line ← (← IO.getStdin).getLine
      if line.isEmpty then
        promptLoop (dialogue.press .finish)
      else
        let keys := (line.toList.filter (· != '\n')).map Prompt.Key.ofChar
        promptLoop ((dialogue.typeKeys keys).press .enter)

/-- The status of an end of the command line, and what is still to be written. -/
def conclude : CommandLine.Ending → UInt32 × String
  | .status code => (code.toUInt32, "")
  | .refused reason => (1, reason ++ "\n")
  | .undecodable => (1, "the program text is not UTF-8\n")
  | .unreadable _ => (1, "an integer literal has too many digits\n")
  | .exhausted => (1, "too many nested calls\n")

/-- The bytes of the file that an argument names, if there is one. -/
def readFile? (argument : String) : IO (Option ByteArray) := do
  try
    let bytes ← IO.FS.readBinFile (CommandLine.plainPath argument)
    return some bytes
  catch _ =>
    return none

/-- Write a report and give its status. -/
def finish (report : CommandLine.Report) : IO UInt32 := do
  let (status, reason) := conclude report.ending
  write (report.transcript ++ .error reason)
  return status

/-- Follow the arguments. -/
def start (arguments : List String) : IO UInt32 := do
  let trace := Switch.isOn ((← IO.getEnv "FUNKEY_DEBUG_PY_TRACE").getD "")
  let invocation := CommandLine.Invocation.ofArguments arguments
  let stdin ← IO.getStdin
  match invocation with
  | .run options =>
      if invocation.wantsPrompt && (← stdin.isTty) then
        let session := Prompt.Session.start .recording trace options.verbose
        promptLoop (Prompt.Dialogue.start session)
      else if CommandLine.readsInput options.argument then
        let input ← readAll stdin .empty
        finish (invocation.follow trace input fun _ => none)
      else
        let file ← readFile? (options.argument.getD "")
        finish (invocation.follow trace .empty fun _ => file)
  | _ => finish (invocation.follow trace .empty fun _ => none)

end Scriptlet.Main

/-- Follow the arguments of the command line. -/
def main (arguments : List String) : IO UInt32 :=
  Scriptlet.Main.start arguments
