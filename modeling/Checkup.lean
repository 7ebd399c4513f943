import Checkup.Cli.Arguments
import Checkup.Cli.Run
import Checkup.Cli.Usage
import Checkup.Decimal.Power
import Checkup.Decimal.Round
import Checkup.Decimal.Text
import Checkup.Dependency.Check
import Checkup.Dependency.Issue
import Checkup.Finding
import Checkup.Glob.Basic
import Checkup.Glob.Parse
import Checkup.Glob.PathFilter
import Checkup.Json.Basic
import Checkup.Json.Lenient
import Checkup.Json.Numeral
import Checkup.Json.Record
import Checkup.Json.Token
import Checkup.Json.Tree
import Checkup.Main
import Checkup.Pattern.Basic
import Checkup.Pattern.Class
import Checkup.Policy
import Checkup.Project.ConfigCheck
import Checkup.Project.Folder
import Checkup.Project.IgnoreFile
import Checkup.Project.Manifest
import Checkup.Project.Stats
import Checkup.Project.Survey
import Checkup.Project.TsConfig
import Checkup.Project.Walk
import Checkup.Project.Write
import Checkup.Proofs.Aggregation
import Checkup.Proofs.Await.Binding
import Checkup.Proofs.Await.Loop
import Checkup.Proofs.Await.LoopBody
import Checkup.Proofs.Await.Neighbours
import Checkup.Proofs.Await.Pairs
import Checkup.Proofs.Await.Run
import Checkup.Proofs.Await.Stretch
import Checkup.Proofs.Cli.Gate
import Checkup.Proofs.Decimal.Shortest
import Checkup.Proofs.Decimal.Text
import Checkup.Proofs.Dependency.Unused
import Checkup.Proofs.Double.Range
import Checkup.Proofs.Double.Round
import Checkup.Proofs.Json.Commented
import Checkup.Proofs.Json.Lenient
import Checkup.Proofs.Json.Machine
import Checkup.Proofs.Json.Member
import Checkup.Proofs.Json.Numeral
import Checkup.Proofs.Json.Pretty
import Checkup.Proofs.Json.Record
import Checkup.Proofs.Json.Token
import Checkup.Proofs.Json.Value
import Checkup.Proofs.LineBreak.Crlf
import Checkup.Proofs.LineBreak.Fits
import Checkup.Proofs.LineBreak.Hold
import Checkup.Proofs.LineBreak.Import
import Checkup.Proofs.LineBreak.Loop
import Checkup.Proofs.LineBreak.Markup
import Checkup.Proofs.LineBreak.Match
import Checkup.Proofs.LineBreak.Repetition
import Checkup.Proofs.LineBreak.Rule
import Checkup.Proofs.LineBreak.Search
import Checkup.Proofs.LineBreak.State
import Checkup.Proofs.LineBreak.Sweep
import Checkup.Proofs.Location.Await
import Checkup.Proofs.Location.Basic
import Checkup.Proofs.Location.Boundary
import Checkup.Proofs.Location.Catalog
import Checkup.Proofs.Location.Column
import Checkup.Proofs.Location.Component
import Checkup.Proofs.Pattern.Demand
import Checkup.Proofs.Pattern.Head
import Checkup.Proofs.Pattern.Name
import Checkup.Proofs.Pattern.Scan
import Checkup.Proofs.Pattern.Search
import Checkup.Proofs.Pattern.Shape
import Checkup.Proofs.Pattern.Takes
import Checkup.Proofs.Project.Ignored
import Checkup.Proofs.Project.Malformed
import Checkup.Proofs.Project.Path
import Checkup.Proofs.Project.Removal
import Checkup.Proofs.Project.Walk
import Checkup.Proofs.Ranked
import Checkup.Proofs.Related
import Checkup.Proofs.Report.Data
import Checkup.Proofs.Report.Groups
import Checkup.Proofs.Report.Listing
import Checkup.Proofs.Report.Shown
import Checkup.Proofs.Report.ShownFinding
import Checkup.Proofs.Report.Table
import Checkup.Proofs.Report.TableRow
import Checkup.Proofs.Rule.Clue
import Checkup.Proofs.Rule.FunctionHead
import Checkup.Proofs.Rule.Navigation
import Checkup.Proofs.Rule.NestedComponent
import Checkup.Proofs.Rule.Ownership
import Checkup.Proofs.Rule.ParameterBreak
import Checkup.Proofs.Rule.PropsBlock
import Checkup.Proofs.Rule.PropsMember
import Checkup.Proofs.Rule.ServerAction
import Checkup.Proofs.Rule.ServerImport
import Checkup.Proofs.Rule.Suppression
import Checkup.Proofs.Score
import Checkup.Proofs.Source.BraceBalance
import Checkup.Proofs.Source.BraceDepth
import Checkup.Proofs.Source.BraceFloor
import Checkup.Proofs.Source.BraceReach
import Checkup.Proofs.Source.BraceScope
import Checkup.Proofs.Source.BraceTwin
import Checkup.Proofs.Source.Directive
import Checkup.Proofs.Source.DirectiveMark
import Checkup.Proofs.Source.ImportForm
import Checkup.Proofs.Source.ImportLine
import Checkup.Proofs.Source.ImportMark
import Checkup.Proofs.Source.ImportMatch
import Checkup.Proofs.Source.ReturnBlock
import Checkup.Proofs.Sweep.Disabled
import Checkup.Proofs.Sweep.Fault
import Checkup.Proofs.Text.Block
import Checkup.Proofs.Text.Boundary
import Checkup.Proofs.Text.Bracket
import Checkup.Proofs.Text.ByteOrder
import Checkup.Proofs.Text.Bytes
import Checkup.Proofs.Text.Encoding
import Checkup.Proofs.Text.Lines
import Checkup.Proofs.Text.Mention
import Checkup.Proofs.Text.Occurrence
import Checkup.Proofs.Text.Piece
import Checkup.Proofs.Text.Position
import Checkup.Proofs.Text.PositionWord
import Checkup.Proofs.Text.Run
import Checkup.Proofs.Tool.Audit
import Checkup.Proofs.Tool.Installed
import Checkup.Proofs.Tool.Output
import Checkup.Proofs.Tool.RelativePath
import Checkup.Report.Data
import Checkup.Report.Format
import Checkup.Report.Markdown
import Checkup.Report.RuleList
import Checkup.Report.Style
import Checkup.Report.Terminal
import Checkup.Report.View
import Checkup.Rule.Await
import Checkup.Rule.Basic
import Checkup.Rule.Boundary
import Checkup.Rule.Bundle
import Checkup.Rule.Catalog
import Checkup.Rule.Composition
import Checkup.Rule.Iteration
import Checkup.Rule.Rendering
import Checkup.Rule.Rerender
import Checkup.Rule.Route
import Checkup.Rule.Suppression
import Checkup.Rule.Sweep
import Checkup.Rule.Tables
import Checkup.Scan
import Checkup.ScanResult
import Checkup.Score
import Checkup.Settings
import Checkup.Severity
import Checkup.Source.BraceScope
import Checkup.Source.Directive
import Checkup.Source.File
import Checkup.Source.Import
import Checkup.Source.Line
import Checkup.Source.Path
import Checkup.Source.ReturnBlock
import Checkup.Text.Basic
import Checkup.Text.Identifier
import Checkup.Text.Lowercase
import Checkup.Text.Position
import Checkup.Text.Utf8
import Checkup.Text.Word
import Checkup.Toml.Basic
import Checkup.Toml.Document
import Checkup.Toml.Quoted
import Checkup.Toml.Scalar
import Checkup.Tool.Audit
import Checkup.Tool.Basic
import Checkup.Tool.Installed
import Checkup.Tool.Linter
import Checkup.Vulnerability
