import Scriptlet.Node.Tree
import Scriptlet.Diagnostic
import Scriptlet.Text.Newline
import Scriptlet.Text.Quoted

/-!
# The command line

`Invocation.ofArguments` reads the arguments, `sourceFor` finds the program text they name, and
`Options.run` does what they ask for with it: show the tokens, show the tree, or run the program.
-/

namespace Scriptlet.CommandLine

/-- The options of an invocation and its only argument. -/
structure Options where
  tree : Bool
  tokens : Bool
  verbose : Bool
  argument : Option String
deriving DecidableEq, Repr

/-- What the arguments ask for. -/
inductive Invocation where
  | help
  /-- There is a second argument. -/
  | unexpected (argument : String)
  | run (options : Options)
deriving DecidableEq, Repr

namespace Invocation

/-- Read arguments from left to right; a request for help or a second argument ends the reading. -/
def read (options : Options) : List String → Invocation
  | [] => run options
  | word :: words =>
      if word = "-h" || word = "--help" then
        help
      else if word = "--ast" then
        read { options with tree := true } words
      else if word = "--tokens" then
        read { options with tokens := true } words
      else if word = "-v" || word = "--verbose" then
        read { options with verbose := true } words
      else
        match options.argument with
        | none => read { options with argument := some word } words
        | some _ => unexpected word

/-- What a list of arguments asks for. -/
def ofArguments (arguments : List String) : Invocation :=
  read ⟨false, false, false, none⟩ arguments

end Invocation

/-- How the command line ended. -/
inductive Ending where
  | status (code : Nat)
  /-- The invocation cannot be followed, for the reason given. -/
  | refused (reason : String)
  /-- The program text is no UTF-8. -/
  | undecodable
  /-- The program text could not be read to its end. -/
  | unreadable (stop : Stop)
  /-- The limits of evaluation are used up. -/
  | exhausted
deriving DecidableEq, Repr

/-- How the command line ended and what it wrote. -/
structure Report where
  ending : Ending
  transcript : Transcript

/-- The line that says how to call the program. -/
def usage : String :=
  "usage: funkey [--ast] [--tokens] [--verbose] [FILE | - | SOURCE]"

/-- The parts of a path that count: empty ones and single dots do not. -/
def pathParts (path : String) : List String :=
  (path.splitOn "/").filter fun part => part ≠ "" && part ≠ "."

/-- The shortest spelling of a path. -/
def plainPath (path : String) : String :=
  (if path.startsWith "/" then "/" else "") ++ "/".intercalate (pathParts path)

/-- The argument stands for the standard input. -/
def readsInput (argument : Option String) : Bool :=
  argument = none || argument = some "-"

/-- The program text: the standard input, the file of that name, or else the argument itself. -/
def sourceFor (argument : Option String) (input : ByteArray) (file? : String → Option ByteArray) :
    Except Ending String :=
  match argument with
  | none | some "-" =>
      match Text.ofBytes? input with
      | none => .error .undecodable
      | some "" => .error (.refused "No input provided on stdin")
      | some text => .ok text
  | some text =>
      match file? (plainPath text) with
      | none => .ok text
      | some bytes =>
          match Text.ofBytes? bytes with
          | none => .error .undecodable
          | some text => .ok text

/-- The row of a token in a token dump; the hidden characters of its text are shown by number. -/
def tokenRow (hidden : Char → Bool) (token : Token) : String :=
  toString token.position.line ++ ":" ++ toString token.position.column ++ "\t" ++
    token.kind.name ++ "\t" ++ Text.quotedBy hidden token.text ++ "\n"

/-- The token dump of a program text. -/
def tokenRows (hidden : Char → Bool) (source : String) : String :=
  String.join ((Token.ofText source).map (tokenRow hidden))

/-- What is written behind the end of a run, and the status. -/
def conclude (trace : Bool) : Outcome → Report
  | .value value => ⟨.status 0, Diagnostic.result value⟩
  | .failed failure => ⟨.status 1, Diagnostic.failure trace failure⟩
  | .reported failure => ⟨.status 1, Diagnostic.failure trace failure⟩
  | .exhausted => ⟨.exhausted, .empty⟩

/-- Run a program in a fresh scope. -/
def runProgram (trace : Bool) (program : Node) : Report :=
  let (root, store) := (Store.empty .recording).openRoot
  let (outcome, ran) := program.evaluate Limits.standard root store
  let report := conclude trace outcome
  { report with transcript := .output (printedText ran.takePrinted.1) ++ report.transcript }

/-- Do what the options ask for with a program text. -/
def Options.run (options : Options) (trace : Bool) (source : String) : Report :=
  if options.tokens then
    ⟨.status 0, .output (tokenRows Text.isUnprintable source)⟩
  else
    match parse source with
    | .error stop => ⟨.unreadable stop, .empty⟩
    | .ok parsed =>
        let log := Diagnostic.readLog options.verbose parsed
        match parsed.errors with
        | [] =>
            if options.tree then
              ⟨.status 0, log ++ .output parsed.program.toTree.pretty⟩
            else
              let report := runProgram trace parsed.program
              { report with transcript := log ++ report.transcript }
        | errors => ⟨.status 1, log ++ Diagnostic.syntaxErrors "" errors⟩

/-- Follow an invocation that does not start the prompt. -/
def Invocation.follow (invocation : Invocation) (trace : Bool) (input : ByteArray)
    (file? : String → Option ByteArray) : Report :=
  match invocation with
  | help => ⟨.status 0, .output (usage ++ "\n")⟩
  | unexpected argument => ⟨.refused ("Unexpected argument: " ++ argument), .empty⟩
  | run options =>
      match sourceFor options.argument input file? with
      | .error ending => ⟨ending, .empty⟩
      | .ok source => options.run trace source

/-- The invocation starts the prompt when the standard input is a terminal. -/
def Invocation.wantsPrompt : Invocation → Bool
  | run options => options.argument.isNone
  | _ => false

end Scriptlet.CommandLine
