import Scriptlet.CommandLine
import Scriptlet.Diagnostic
import Scriptlet.Eval.Basic
import Scriptlet.Eval.Node
import Scriptlet.Fault
import Scriptlet.Main
import Scriptlet.Node.Basic
import Scriptlet.Node.Flaw
import Scriptlet.Node.Name
import Scriptlet.Node.Render
import Scriptlet.Node.Sameness
import Scriptlet.Node.Tree
import Scriptlet.Parser.Basic
import Scriptlet.Parser.Expression
import Scriptlet.Parser.Program
import Scriptlet.Parser.Statement
import Scriptlet.Prompt.Command
import Scriptlet.Prompt.Highlight
import Scriptlet.Prompt.Keys
import Scriptlet.Prompt.Line
import Scriptlet.Prompt.Session
import Scriptlet.Run
import Scriptlet.Store
import Scriptlet.Switch
import Scriptlet.Text.Blank
import Scriptlet.Text.Newline
import Scriptlet.Text.Quoted
import Scriptlet.Text.Unprintable
import Scriptlet.Token.Basic
import Scriptlet.Token.Cursor
import Scriptlet.Token.Lexer
import Scriptlet.Transcript
import Scriptlet.Value.Basic
import Scriptlet.Value.Integer
import Scriptlet.Value.Operation
import Scriptlet.Proofs.Grammar.Rules
import Scriptlet.Proofs.Parser.Runs
import Scriptlet.Proofs.Grammar.Tokens
import Scriptlet.Proofs.Parser.Soundness
import Scriptlet.Proofs.Parser.Completeness
import Scriptlet.Proofs.Parser.Acceptance
import Scriptlet.Proofs.Lockstep
import Scriptlet.Proofs.Relocation.Nodes
import Scriptlet.Proofs.Relocation.Values
import Scriptlet.Proofs.Evaluation.Pairing
import Scriptlet.Proofs.Evaluation.Simulation
import Scriptlet.Proofs.Evaluation.Locality
import Scriptlet.Proofs.Relocation.Parsing
import Scriptlet.Proofs.Relocation.Running
import Scriptlet.Proofs.Evaluation.Descent
import Scriptlet.Proofs.Evaluation.Growth
import Scriptlet.Proofs.Parts
import Scriptlet.Proofs.Evaluation.Custody
import Scriptlet.Proofs.Evaluation.Sessions
import Scriptlet.Proofs.Evaluation.Scoping
import Scriptlet.Proofs.Parser.Formation
import Scriptlet.Proofs.Token.Tiling
import Scriptlet.Proofs.Token.Spelling
import Scriptlet.Proofs.Token.Respelling
import Scriptlet.Proofs.Parser.Tracing
import Scriptlet.Proofs.Evaluation.Layout
import Scriptlet.Proofs.Token.LineBreaks
import Scriptlet.Proofs.Parser.Widening
import Scriptlet.Proofs.Parser.Joining
import Scriptlet.Proofs.Parser.Precedence
import Scriptlet.Proofs.Parser.Calls
import Scriptlet.Proofs.Parser.Reporting
import Scriptlet.Proofs.Evaluation.Submission
import Scriptlet.Proofs.Evaluation.Placement
import Scriptlet.Proofs.Grammar.Canonical
import Scriptlet.Proofs.Parser.Rereading
import Scriptlet.Proofs.Evaluation.Flawless
import Scriptlet.Proofs.Evaluation.Bounds
import Scriptlet.Proofs.Evaluation.Ledger
import Scriptlet.Proofs.Prompt.Brackets
import Scriptlet.Proofs.Prompt.Commands
import Scriptlet.Proofs.Store.Chart
import Scriptlet.Proofs.Evaluation.Carrying
import Scriptlet.Proofs.Evaluation.Identity
import Scriptlet.Proofs.Parser.Progress
import Scriptlet.Proofs.Value.Arithmetic
import Scriptlet.Proofs.Evaluation.Reckoning
import Scriptlet.Proofs.Evaluation.Assignment
import Scriptlet.Proofs.Prompt.Highlighting
import Scriptlet.Proofs.Text.Numeral
import Scriptlet.Proofs.Node.Projection
import Scriptlet.Proofs.Evaluation.Dictionary
import Scriptlet.Proofs.CommandLine.Dump
import Scriptlet.Proofs.Evaluation.Composition
import Scriptlet.Proofs.Evaluation.Sinks
import Scriptlet.Proofs.Token.Adjacency
import Scriptlet.Proofs.Prompt.Cleaning
