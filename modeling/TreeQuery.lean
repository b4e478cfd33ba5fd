import TreeQuery.Combination
import TreeQuery.Combination.Search
import TreeQuery.CommandLine.Arguments
import TreeQuery.CommandLine.Report
import TreeQuery.CommandLine.Run
import TreeQuery.Edit.Dispatch
import TreeQuery.Edit.Pass
import TreeQuery.Edit.Plan
import TreeQuery.Edit.Rule
import TreeQuery.Edit.Script
import TreeQuery.Edit.Template
import TreeQuery.Experiment.Basic
import TreeQuery.Experiment.Command
import TreeQuery.Experiment.Failure
import TreeQuery.Experiment.Policy
import TreeQuery.Experiment.Registry
import TreeQuery.Experiment.Runner
import TreeQuery.Experiment.Workers
import TreeQuery.Fault
import TreeQuery.File.Path
import TreeQuery.File.Standard
import TreeQuery.File.System
import TreeQuery.Lab
import TreeQuery.Log
import TreeQuery.Main
import TreeQuery.Match.Attempt
import TreeQuery.Match.Judge
import TreeQuery.Match.Observe
import TreeQuery.Match.Search
import TreeQuery.Match.Trace
import TreeQuery.Number.Binary64
import TreeQuery.Number.Decimal
import TreeQuery.Number.Integer
import TreeQuery.Pattern
import TreeQuery.Pattern.Descent
import TreeQuery.Pattern.Error
import TreeQuery.Pattern.Parser
import TreeQuery.Pattern.Token
import TreeQuery.Pattern.Walk
import TreeQuery.Proofs.Combination.Calls
import TreeQuery.Proofs.Combination.Dialogue
import TreeQuery.Proofs.Combination.Largest
import TreeQuery.Proofs.Combination.Limit
import TreeQuery.Proofs.Combination.Loop
import TreeQuery.Proofs.Combination.Members
import TreeQuery.Proofs.Combination.Round
import TreeQuery.Proofs.Combination.Run
import TreeQuery.Proofs.Combination.Units
import TreeQuery.Proofs.CommandLine.Flags
import TreeQuery.Proofs.Edit.Applied
import TreeQuery.Proofs.Edit.Dispatch
import TreeQuery.Proofs.Edit.Local
import TreeQuery.Proofs.Edit.Pass
import TreeQuery.Proofs.Edit.Patch
import TreeQuery.Proofs.Edit.Plan
import TreeQuery.Proofs.Edit.Reparse
import TreeQuery.Proofs.Edit.Rule
import TreeQuery.Proofs.Edit.Splice
import TreeQuery.Proofs.Edit.Template
import TreeQuery.Proofs.Edit.Trace
import TreeQuery.Proofs.Edit.Weave
import TreeQuery.Proofs.Experiment.Cancellation
import TreeQuery.Proofs.Experiment.Candidate
import TreeQuery.Proofs.Experiment.Clash
import TreeQuery.Proofs.Experiment.Cleanup
import TreeQuery.Proofs.Experiment.Commit
import TreeQuery.Proofs.Experiment.Guard
import TreeQuery.Proofs.Experiment.Rounds
import TreeQuery.Proofs.Experiment.Rule
import TreeQuery.Proofs.Experiment.Sources
import TreeQuery.Proofs.Experiment.Steady
import TreeQuery.Proofs.Experiment.Transcript
import TreeQuery.Proofs.Experiment.Workers
import TreeQuery.Proofs.Fault
import TreeQuery.Proofs.File.Path
import TreeQuery.Proofs.File.System
import TreeQuery.Proofs.Match.Algebra
import TreeQuery.Proofs.Match.Attempt
import TreeQuery.Proofs.Match.Bare
import TreeQuery.Proofs.Match.Below
import TreeQuery.Proofs.Match.Captures
import TreeQuery.Proofs.Match.Likeness
import TreeQuery.Proofs.Match.Topmost
import TreeQuery.Proofs.Match.Trace
import TreeQuery.Proofs.Number.Integer
import TreeQuery.Proofs.Number.NaN
import TreeQuery.Proofs.Number.Ratio
import TreeQuery.Proofs.Number.Reading
import TreeQuery.Proofs.Number.Shortest
import TreeQuery.Proofs.Pattern.Closing
import TreeQuery.Proofs.Pattern.Descent
import TreeQuery.Proofs.Pattern.Example
import TreeQuery.Proofs.Pattern.Expression
import TreeQuery.Proofs.Pattern.Grammar
import TreeQuery.Proofs.Pattern.Lookahead
import TreeQuery.Proofs.Pattern.Offsets
import TreeQuery.Proofs.Pattern.Recompile
import TreeQuery.Proofs.Pattern.Rendering
import TreeQuery.Proofs.Pattern.Scan
import TreeQuery.Proofs.Pattern.Spacing
import TreeQuery.Proofs.Pattern.Walk
import TreeQuery.Proofs.Sexp.Grammar
import TreeQuery.Proofs.Sexp.Notation
import TreeQuery.Proofs.Sexp.Offsets
import TreeQuery.Proofs.Sexp.Places
import TreeQuery.Proofs.Sexp.Reader
import TreeQuery.Proofs.Sexp.Rendering
import TreeQuery.Proofs.Sexp.Rereading
import TreeQuery.Proofs.Sexp.Scan
import TreeQuery.Proofs.Sexp.Source
import TreeQuery.Proofs.Sexp.Walk
import TreeQuery.Proofs.Text.Class
import TreeQuery.Proofs.Text.Order
import TreeQuery.Proofs.Text.Position
import TreeQuery.Proofs.Text.Utf8
import TreeQuery.Proofs.Text.Walk
import TreeQuery.Proofs.Tree.Every
import TreeQuery.Proofs.Tree.Spans
import TreeQuery.Proofs.Walks
import TreeQuery.Query
import TreeQuery.Settings
import TreeQuery.Settings.Document
import TreeQuery.Settings.Load
import TreeQuery.Settings.Scalar
import TreeQuery.Settings.Variable
import TreeQuery.Sexp.Lexeme
import TreeQuery.Sexp.Reader
import TreeQuery.Sexp.Walk
import TreeQuery.Shell.Arithmetic
import TreeQuery.Shell.Attachment
import TreeQuery.Shell.Builtin
import TreeQuery.Shell.Bytes
import TreeQuery.Shell.Condition
import TreeQuery.Shell.Control
import TreeQuery.Shell.Expansion
import TreeQuery.Shell.FileTools
import TreeQuery.Shell.Glob
import TreeQuery.Shell.Grep
import TreeQuery.Shell.Lines
import TreeQuery.Shell.Options
import TreeQuery.Shell.Printing
import TreeQuery.Shell.Reader
import TreeQuery.Shell.Regex
import TreeQuery.Shell.Run
import TreeQuery.Shell.Script
import TreeQuery.Shell.Session
import TreeQuery.Shell.Wrapper
import TreeQuery.Span
import TreeQuery.Text.Alphabetic
import TreeQuery.Text.Class
import TreeQuery.Text.Escaped
import TreeQuery.Text.Find
import TreeQuery.Text.Numeric
import TreeQuery.Text.Position
import TreeQuery.Text.Quoted
import TreeQuery.Text.Unprintable
import TreeQuery.Text.Utf8
import TreeQuery.Text.Walk
import TreeQuery.Tree
import TreeQuery.Tree.Site
