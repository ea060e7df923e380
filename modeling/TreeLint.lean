import TreeLint.Analysis.Analyzer
import TreeLint.Analysis.Engine
import TreeLint.Analyzers.EqualsHashCode
import TreeLint.Analyzers.PropertyChanged
import TreeLint.Analyzers.SwitchEnum
import TreeLint.CommandLine.Arguments
import TreeLint.CommandLine.Help
import TreeLint.CommandLine.Rules
import TreeLint.CommandLine.Run
import TreeLint.Config.Basic
import TreeLint.Config.Document
import TreeLint.Config.Load
import TreeLint.Diagnostic
import TreeLint.Dict
import TreeLint.Diff.Patch
import TreeLint.Diff.Script
import TreeLint.Expectation
import TreeLint.FilePattern
import TreeLint.FileTree
import TreeLint.Fix.MissingCases
import TreeLint.Fix.NameOf
import TreeLint.Fix.Plan
import TreeLint.Fix.Provider
import TreeLint.Format
import TreeLint.Format.Json
import TreeLint.Format.Style
import TreeLint.Format.Text
import TreeLint.Glob
import TreeLint.Glob.Expression
import TreeLint.Glob.Set
import TreeLint.Json.Basic
import TreeLint.Json.Parser
import TreeLint.Json.Printer
import TreeLint.Json.Reader
import TreeLint.Main
import TreeLint.Named
import TreeLint.Path
import TreeLint.PathMap
import TreeLint.Registry
import TreeLint.Report
import TreeLint.Rule
import TreeLint.Snapshot
import TreeLint.Span
import TreeLint.Symbol.Basic
import TreeLint.Symbol.Bindings
import TreeLint.Symbol.Codec
import TreeLint.Symbol.Members
import TreeLint.Symbol.Table
import TreeLint.Text.Case
import TreeLint.Text.CaseTable
import TreeLint.Text.Fixed
import TreeLint.Text.Hidden
import TreeLint.Text.LineIndex
import TreeLint.Text.Lines
import TreeLint.Text.Literal
import TreeLint.Text.Quoted
import TreeLint.Tree.Basic
import TreeLint.Tree.Builder
import TreeLint.Tree.Codec
import TreeLint.Tree.Edits
import TreeLint.Tree.Element
import TreeLint.Tree.Kind
import TreeLint.Tree.Phrase
import TreeLint.Tree.Query
import TreeLint.Yaml.Basic
import TreeLint.Yaml.Cell
import TreeLint.Yaml.Lexer
import TreeLint.Yaml.Parser
import TreeLint.Yaml.Scalar
import TreeLint.Yaml.Token
import TreeLint.Proofs.Tree.Layout
import TreeLint.Proofs.Tree.Table
import TreeLint.Proofs.Scan
import TreeLint.Proofs.Tree.Acceptance
import TreeLint.Proofs.Tree.Spans
import TreeLint.Proofs.Tree.Building
import TreeLint.Proofs.Tree.Builds
import TreeLint.Proofs.Tree.Rewriting
import TreeLint.Proofs.Diagnostic
import TreeLint.Proofs.Dict
import TreeLint.Proofs.Analysis.Runs
import TreeLint.Proofs.FileTree
import TreeLint.Proofs.Analysis.Schedule
import TreeLint.Proofs.Tree.Lookup
import TreeLint.Proofs.Tree.Tracing
import TreeLint.Proofs.Tree.TextEdits
import TreeLint.Proofs.Tree.Copies
import TreeLint.Proofs.Fix.Switches
import TreeLint.Proofs.Tree.Phrases
import TreeLint.Proofs.Fix.Amending
import TreeLint.Proofs.Fix.Steps
import TreeLint.Proofs.Analysis.Builtin
import TreeLint.Proofs.PathMap
import TreeLint.Proofs.Fix.BackToFront
import TreeLint.Proofs.Fix.MissingCases
import TreeLint.Proofs.Fix.NameOf
import TreeLint.Proofs.Analysis.Unbinding
import TreeLint.Proofs.Analysis.Locality
import TreeLint.Proofs.Json.Text
import TreeLint.Proofs.Json.Records
import TreeLint.Proofs.Snapshot
import TreeLint.Proofs.Config.Inheritance
import TreeLint.Proofs.Tree.Renumbering
import TreeLint.Proofs.Analysis.Renumbering
import TreeLint.Proofs.Analysis.Settings
import TreeLint.Proofs.Analysis.Calls
import TreeLint.Proofs.Analysis.Dispatch
import TreeLint.Proofs.Analysis.Stopping
import TreeLint.Proofs.Config.Layers
import TreeLint.Proofs.Config.Chains
import TreeLint.Proofs.Analysis.Policy
import TreeLint.Proofs.Report
import TreeLint.Proofs.Timekeeping
import TreeLint.Proofs.Path.Joining
import TreeLint.Proofs.FileTree.Writing
import TreeLint.Proofs.CommandLine.Jobs
import TreeLint.Proofs.CommandLine.Output
import TreeLint.Proofs.CommandLine.Settings
import TreeLint.Proofs.Fix.Ledger
import TreeLint.Proofs.Fix.Preview
import TreeLint.Proofs.Registry
import TreeLint.Proofs.Fix.Accounting
import TreeLint.Proofs.Diff.Script
import TreeLint.Proofs.Diff.Hunks
import TreeLint.Proofs.Diff.Reading
import TreeLint.Proofs.Diff.Patch
import TreeLint.Proofs.Diff.Shortest
import TreeLint.Proofs.Analysis.Verdicts
import TreeLint.Proofs.Symbol.Chains
import TreeLint.Proofs.Symbol.Overrides
import TreeLint.Proofs.Symbol.Keys
import TreeLint.Proofs.Symbol.Members
import TreeLint.Proofs.Symbol.Table
import TreeLint.Proofs.Analyzers.EqualsHashCode
import TreeLint.Proofs.Analyzers.PropertyChanged
import TreeLint.Proofs.Analyzers.SwitchEnum
import TreeLint.Proofs.Text.Literal
import TreeLint.Proofs.Text.LineIndex
import TreeLint.Proofs.Format.Carets
import TreeLint.Proofs.Fix.AddedCases
import TreeLint.Proofs.Rule
import TreeLint.Proofs.Text.Grammar
import TreeLint.Proofs.Tree.Ends
import TreeLint.Proofs.Expectation
