import Scriptlet.Prompt.Line
import Scriptlet.Prompt.Session

/-!
# Keys at the prompt

Keys change a buffer whose cursor stays at its end. Enter submits the buffer, without its invisible
characters, unless brackets are open in it; then it opens a line indented by the open brackets.
-/

namespace Scriptlet.Prompt

/-- The keys of the prompt. -/
inductive Key where
  | enter
  | backspace
  /-- Drop the buffer. -/
  | interrupt
  /-- End the session. -/
  | finish
  | insert (char : Char)
deriving DecidableEq, Repr

/-- The key of a character that was typed. -/
def Key.ofChar : Char → Key
  | '\r' => enter
  | '\x7f' => backspace
  | '\x03' => interrupt
  | '\x04' => finish
  | char => insert char

/-- How the prompt ended. -/
inductive Ending where
  | finished
  | broken (cause : Break)
deriving DecidableEq, Repr

/-- A dialogue: the session, the buffer, what has been written, and the end once it is reached. -/
structure Dialogue where
  session : Session
  buffer : String
  transcript : Transcript
  ending : Option Ending

namespace Dialogue

/-- What the prompt says first. -/
def greeting : String :=
  "funkey repl, Ctrl-D to exit, / for commands\n"

/-- The dialogue of a new session. -/
def start (session : Session) : Dialogue :=
  ⟨session, "", .output greeting, none⟩

/-- The brackets that Enter finds open in a buffer; a command has none. -/
def openBrackets (buffer : String) : Nat :=
  if buffer.toList.head? = some '/' then 0 else depth buffer

/-- The line that Enter opens inside brackets: four blanks a bracket. -/
def continuation (brackets : Nat) : String :=
  "\n" ++ String.ofList (List.replicate (4 * brackets) ' ')

/-- One key. -/
def press (dialogue : Dialogue) (key : Key) : Dialogue :=
  match dialogue.ending with
  | some _ => dialogue
  | none =>
      match key with
      | .enter =>
          let brackets := openBrackets dialogue.buffer
          if brackets > 0 then
            { dialogue with buffer := dialogue.buffer ++ continuation brackets }
          else
            let step := dialogue.session.dispatch (clean dialogue.buffer)
            { session := step.session
              buffer := ""
              transcript := dialogue.transcript ++ step.transcript
              ending := step.broken.map Ending.broken }
      | .backspace =>
          { dialogue with buffer := String.ofList dialogue.buffer.toList.dropLast }
      | .interrupt =>
          { dialogue with
            buffer := "", transcript := dialogue.transcript ++ .output "KeyboardInterrupt\n" }
      | .finish =>
          { dialogue with
            transcript := dialogue.transcript ++ .output "\n", ending := some .finished }
      | .insert char => { dialogue with buffer := dialogue.buffer.push char }

/-- A run of keys. -/
def typeKeys (dialogue : Dialogue) (keys : List Key) : Dialogue :=
  keys.foldl press dialogue

end Dialogue

end Scriptlet.Prompt
