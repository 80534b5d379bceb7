import Scriptlet.Text.Blank

/-!
# Slash commands

The commands of the prompt, how a line names one, and what is offered while one is being typed.
-/

namespace Scriptlet.Prompt

/-- The commands of the prompt. -/
inductive Command where
  /-- Show or hide the tree of each submission. -/
  | tree
  /-- Clear the screen. -/
  | clear
  /-- Show or hide the trace of failures. -/
  | trace
  /-- Start again with a fresh scope. -/
  | reset
deriving DecidableEq, Repr

namespace Command

/-- All commands, in the order in which they are offered. -/
def all : List Command := [tree, clear, trace, reset]

/-- The word of a command. -/
def name : Command → String
  | tree => "/ast"
  | clear => "/clear"
  | trace => "/py-traceback"
  | reset => "/reset"

/-- What a command does, in a few words. -/
def help : Command → String
  | tree => "Print the parse tree before each result"
  | clear => "Clear the screen"
  | trace => "Show the Python traceback of evaluation errors"
  | reset => "Drop every binding and start from a fresh environment"

/-- The arguments of a command. -/
def hint : Command → String
  | trace => "[on|off]"
  | _ => ""

/-- The command of a word. -/
def ofName? (word : String) : Option Command :=
  all.find? fun command => command.name = word

end Command

/-- A line that is a command: its first word begins with a slash. -/
structure SlashLine where
  name : String
  argument : String

/-- The command line in a text, if it is one. -/
def SlashLine.ofText? (text : String) : Option SlashLine :=
  let (word, argument) := Text.firstWord text.toList
  if word.head? = some '/' then
    some ⟨String.ofList word, String.ofList argument⟩
  else
    none

/-- A command that is offered while it is being typed. -/
structure Suggestion where
  text : String
  /-- Where the text goes, counted from the cursor. -/
  start : Int
  display : String
  help : String
deriving DecidableEq, Repr

/-- The commands that begin with what has been typed, as soon as it begins with a slash. -/
def suggestions (typed : String) : List Suggestion :=
  if typed.toList.head? = some '/' then
    (Command.all.filter fun command => typed.toList.isPrefixOf command.name.toList).map
      fun command =>
        { text := command.name
          start := -(typed.length : Int)
          display := if command.hint = "" then command.name else command.name ++ " " ++ command.hint
          help := command.help }
  else
    []

end Scriptlet.Prompt
