import StLint.Text.Basic
import StLint.Text.Word
import StLint.Text.Nesting
import StLint.Source.Comment
import StLint.Number.Machine
import StLint.Decimal.Spelling
import StLint.Text.Unicode
import StLint.Json.Basic
import StLint.Json.Printer
import StLint.Json.Reader
import StLint.Text.Folding
import StLint.Json.Decode
import StLint.Language.Words
import StLint.Pou.Basic
import StLint.Expression.Basic
import StLint.Section.Header
import StLint.Source.Declaration
import StLint.Section.Declaration
import StLint.Section.Table
import StLint.Statement.Block
import StLint.Statement.Header
import StLint.Statement.Body
import StLint.Pou.Dependencies
import StLint.Pou.Parse
import StLint.Pou.Json
import StLint.Digest.Sha256
import StLint.Issue.Basic
import StLint.Issue.Json
import StLint.Analysis.Error
import StLint.Settings.Validation
import StLint.Store.Basic
import StLint.Graph.Basic
import StLint.Graph.Build
import StLint.Graph.Json
import StLint.Time.Timestamp
import StLint.Check.All
import StLint.Check.Request
import StLint.Log.Json
import StLint.Analysis.Engine
import StLint.Report.Json
import StLint.Yaml.Basic
import StLint.Yaml.Reader
import StLint.Settings.File
import StLint.Settings.Json
import StLint.Settings.Yaml
import StLint.Collection.Basic
import StLint.Store.Memory
import StLint.Store.Json
import StLint.Store.Tables
import StLint.CommandLine.Argument
import StLint.CommandLine.Command
import StLint.CommandLine.FileTree
import StLint.CommandLine.Run
import StLint.Main
import StLint.Proofs.Text.Blank
import StLint.Proofs.Text.Lines
import StLint.Proofs.Source.Comment
import StLint.Proofs.Source.Line
import StLint.Proofs.Pou.Label
import StLint.Proofs.Pou.Tree
import StLint.Proofs.Expression.Place
import StLint.Proofs.Statement.Shift
import StLint.Proofs.Section.Shift
import StLint.Proofs.Source.Declaration
import StLint.Proofs.Pou.Translation
import StLint.Proofs.Pou.Segment
import StLint.Proofs.Pou.File
import StLint.Proofs.Pou.Seam
import StLint.Proofs.Pou.Concatenation
import StLint.Proofs.Text.Word
import StLint.Proofs.Text.Nesting
import StLint.Proofs.Text.Pattern
import StLint.Proofs.Statement.Header
import StLint.Proofs.Statement.Program
import StLint.Proofs.Statement.Row
import StLint.Proofs.Statement.Print
import StLint.Proofs.Collection.Sorted
import StLint.Proofs.Analysis.Selection
import StLint.Proofs.Text.Cut
import StLint.Proofs.Expression.Form
import StLint.Proofs.Expression.Text
import StLint.Proofs.Expression.Shape
import StLint.Proofs.Statement.Order
import StLint.Proofs.Section.Order
import StLint.Proofs.Source.Span
import StLint.Proofs.Pou.WellFormed
import StLint.Proofs.Source.Literal
import StLint.Proofs.Source.Quote
import StLint.Proofs.Pou.Literal
import StLint.Proofs.Collection.Keyed
import StLint.Proofs.Store.Agreement
import StLint.Proofs.Graph.Component
import StLint.Proofs.Graph.Cycle
import StLint.Proofs.Pou.Comment
import StLint.Proofs.Section.Written
import StLint.Proofs.Section.Value
import StLint.Proofs.Section.Declaration
import StLint.Proofs.Section.Print
import StLint.Proofs.Pou.Partition
import StLint.Proofs.Text.Bytes
import StLint.Proofs.Store.History
import StLint.Proofs.Store.Lawful
import StLint.Proofs.Store.Interleaving
import StLint.Proofs.Statement.Trace
import StLint.Proofs.Pou.Trace
import StLint.Proofs.Collection.Distinct
import StLint.Proofs.Report.Count
import StLint.Proofs.Pou.FirstUnit
import StLint.Proofs.Text.Occurrence
import StLint.Proofs.Source.LineEnd
import StLint.Proofs.Check.LineEnd
import StLint.Proofs.Analysis.LineEnd
import StLint.Proofs.Expression.Words
import StLint.Proofs.Statement.Words
import StLint.Proofs.Statement.Part
import StLint.Proofs.Suggestion.Unused
import StLint.Proofs.Graph.Unit
import StLint.Proofs.Graph.File
import StLint.Proofs.Graph.Order
import StLint.Proofs.Analysis.Order
import StLint.Proofs.Settings.Export
import StLint.Proofs.Source.Escape
import StLint.Proofs.Source.Removal
import StLint.Proofs.Check.Comment
import StLint.Proofs.Statement.Until
import StLint.Proofs.Statement.Account
import StLint.Proofs.Expression.Literal
import StLint.Proofs.Expression.Depth
import StLint.Proofs.Text.Search
import StLint.Proofs.Expression.Leftmost
import StLint.Proofs.Expression.Quoted
import StLint.Proofs.Statement.Counting
import StLint.Proofs.Statement.Condition
import StLint.Proofs.Source.Collapse
import StLint.Proofs.Section.Overwrite
import StLint.Proofs.Pou.Callee
import StLint.Proofs.Graph.Spelling
import StLint.Proofs.Graph.Queue
import StLint.Proofs.Graph.Topological
import StLint.Proofs.Analysis.Failure
import StLint.Proofs.Statement.Call
import StLint.Proofs.Pou.Standard
import StLint.Proofs.Number.Order
import StLint.Proofs.Analysis.Confidence
import StLint.Proofs.Suggestion.Distinct
import StLint.Proofs.Check.Access
import StLint.Proofs.Check.Indexing
import StLint.Proofs.Source.Upward
import StLint.Proofs.Source.Drawn
import StLint.Proofs.Text.TopLevel
import StLint.Proofs.Check.Runtime
import StLint.Proofs.Suggestion.Reply
import StLint.Proofs.Issue.Identity
import StLint.Proofs.Text.Call
import StLint.Proofs.Statement.Stack
import StLint.Proofs.Section.Integer
import StLint.Proofs.Text.Octet
import StLint.Proofs.Text.Offset
import StLint.Proofs.Expression.Sliced
import StLint.Proofs.Statement.Sliced
import StLint.Proofs.Section.Sliced
import StLint.Proofs.Pou.Sliced
import StLint.Proofs.Pou.Traversal
import StLint.Proofs.Analysis.Traversal
