import StackScript.Command
import StackScript.Command.Files
import StackScript.Diagnostic
import StackScript.Diagnostic.Snippet
import StackScript.Expression
import StackScript.Expression.Read
import StackScript.Fault
import StackScript.FileTree
import StackScript.Flag
import StackScript.GitSource
import StackScript.Instruction
import StackScript.Instruction.Listing
import StackScript.LogLevel
import StackScript.Machine
import StackScript.Machine.Action
import StackScript.Machine.Dump
import StackScript.Machine.Exec
import StackScript.Machine.Perform
import StackScript.Main
import StackScript.Manifest
import StackScript.Manifest.Decode
import StackScript.Manifest.Load
import StackScript.Native
import StackScript.Native.Arithmetic
import StackScript.Native.Clock
import StackScript.Native.Console
import StackScript.Native.Library
import StackScript.Native.Sequence
import StackScript.Number.Binary64
import StackScript.Number.FloatText
import StackScript.Number.Integer
import StackScript.Number.Prefixed
import StackScript.Number.Real
import StackScript.Number.Shortest
import StackScript.Number.Word
import StackScript.Operator
import StackScript.ParseFault
import StackScript.Path
import StackScript.Program
import StackScript.Reader
import StackScript.Repl
import StackScript.Scope
import StackScript.Session
import StackScript.Statement
import StackScript.Statement.Read
import StackScript.Text.Blank
import StackScript.Text.Column
import StackScript.Text.Printable
import StackScript.Text.Quoted
import StackScript.Text.Utf8
import StackScript.Token
import StackScript.Token.Scan
import StackScript.Value
import StackScript.Value.Raw
import StackScript.ValueStack
import StackScript.Yaml.Cursor
import StackScript.Yaml.Lexeme
import StackScript.Yaml.Node
import StackScript.Yaml.Scalar
import StackScript.Yaml.ScalarText
import StackScript.Yaml.Timestamp
import StackScript.Proofs.Expression.Grammar
import StackScript.Proofs.Expression.Reading
import StackScript.Proofs.Statement.Grammar
import StackScript.Proofs.Statement.Brackets
import StackScript.Proofs.Statement.Reading
import StackScript.Proofs.Program.Compilation
import StackScript.Proofs.Machine.Balance
import StackScript.Proofs.Machine.Typing
import StackScript.Proofs.Machine.Functions
import StackScript.Proofs.Machine.Invariant
import StackScript.Proofs.Machine.Outcomes
import StackScript.Proofs.Machine.Frames
import StackScript.Proofs.Machine.Locality
import StackScript.Proofs.Machine.PlainStack
import StackScript.Proofs.Expression.Evaluation
import StackScript.Proofs.Machine.Moments
import StackScript.Proofs.Session.Reach
import StackScript.Proofs.Program.Refusal
import StackScript.Proofs.Expression.Beginnings
import StackScript.Proofs.Statement.Beginnings
import StackScript.Proofs.Program.Beginnings
import StackScript.Proofs.Expression.Completion
import StackScript.Proofs.Statement.Rechecks
import StackScript.Proofs.Statement.Stuck
import StackScript.Proofs.Statement.Completion
import StackScript.Proofs.Token.Continuing
import StackScript.Proofs.Program.Completion
import StackScript.Proofs.Machine.Failures
import StackScript.Proofs.Session.Soundness
import StackScript.Proofs.Session.Requests
import StackScript.Proofs.Session.Stack
import StackScript.Proofs.Token.Layout
import StackScript.Proofs.Value.Printing
import StackScript.Proofs.Program.Places
import StackScript.Proofs.Machine.Origins
import StackScript.Proofs.Session.Origins
import StackScript.Proofs.Program.Lines
import StackScript.Proofs.Machine.Settings
import StackScript.Proofs.Session.Nesting
import StackScript.Proofs.Machine.Trace
import StackScript.Proofs.Machine.Importing
import StackScript.Proofs.Machine.Signals
import StackScript.Proofs.Session.Modules
import StackScript.Proofs.Program.Control
import StackScript.Proofs.Session.Signals
import StackScript.Proofs.Session.ReturnModes
import StackScript.Proofs.Session.Marks
import StackScript.Proofs.Session.Imports
import StackScript.Proofs.Path.Clean
import StackScript.Proofs.Reader.Checkouts
import StackScript.Proofs.Program.Joining
import StackScript.Proofs.Program.Heights
import StackScript.Proofs.Machine.Fuel
import StackScript.Proofs.Session.Entries
import StackScript.Proofs.Token.Spacing
import StackScript.Proofs.Machine.OuterScopes
import StackScript.Proofs.Diagnostic.Marking
import StackScript.Proofs.Repl.Snippets
import StackScript.Proofs.Program.ErrorPlaces
import StackScript.Proofs.Reader.SharedCheckouts
import StackScript.Proofs.Number.Powers
import StackScript.Proofs.Number.Signs
import StackScript.Proofs.Token.KeptLines
import StackScript.Proofs.Program.Parameters
import StackScript.Proofs.Machine.Residue
import StackScript.Proofs.Session.Arguments
import StackScript.Proofs.Session.SurplusArguments
import StackScript.Proofs.FileTree.Changes
import StackScript.Proofs.Reader.Fetching
import StackScript.Proofs.Reader.CheckoutFolders
import StackScript.Proofs.Reader.FailedCheckouts
import StackScript.Proofs.Operator.Integers
import StackScript.Proofs.Text.Utf8
import StackScript.Proofs.Value.Raw
