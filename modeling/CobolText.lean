import CobolText.CommandLine.Arguments
import CobolText.CommandLine.Batch
import CobolText.CommandLine.Console
import CobolText.CommandLine.Execute
import CobolText.CommandLine.Locate
import CobolText.CommandLine.Request
import CobolText.Config
import CobolText.Copybook.Cache
import CobolText.Copybook.Inclusion
import CobolText.Copybook.Search
import CobolText.Diagnostic
import CobolText.Dialect
import CobolText.Directive.Clause
import CobolText.Directive.Item
import CobolText.Expansion
import CobolText.Fault
import CobolText.Files.Access
import CobolText.Files.Directory
import CobolText.Files.Encoding
import CobolText.Files.Path
import CobolText.Files.Tree
import CobolText.Format
import CobolText.LogicalLine.Basic
import CobolText.LogicalLine.CommentEntry
import CobolText.LogicalLine.Continuation
import CobolText.LogicalLine.Indicator
import CobolText.LogicalLine.Marking
import CobolText.LogicalLine.Written
import CobolText.Main
import CobolText.Options
import CobolText.Origin.Bisection
import CobolText.Origin.Extent
import CobolText.Origin.LineView
import CobolText.Origin.Map
import CobolText.Origin.TracedText
import CobolText.PhysicalLine
import CobolText.Preprocess
import CobolText.Proofs.BatchOutputs
import CobolText.Proofs.Bisection
import CobolText.Proofs.BuiltMaps
import CobolText.Proofs.CandidateOrder
import CobolText.Proofs.CarriedText
import CobolText.Proofs.CharacterSources
import CobolText.Proofs.CommentBlocks
import CobolText.Proofs.CommentSurvival
import CobolText.Proofs.CommentWords
import CobolText.Proofs.ContinuationChains
import CobolText.Proofs.CopybookLoads
import CobolText.Proofs.DirectiveGrammar
import CobolText.Proofs.DocumentScan
import CobolText.Proofs.EntryFlags
import CobolText.Proofs.EntryKeywords
import CobolText.Proofs.EntryProse
import CobolText.Proofs.EntryUnits
import CobolText.Proofs.ExecBlocks
import CobolText.Proofs.FailedRuns
import CobolText.Proofs.FaultKeywords
import CobolText.Proofs.FaultPositions
import CobolText.Proofs.FileTrees
import CobolText.Proofs.GuardedComments
import CobolText.Proofs.InclusionBounds
import CobolText.Proofs.InclusionPaths
import CobolText.Proofs.InertComments
import CobolText.Proofs.JoinedLines
import CobolText.Proofs.LeftmostReplacement
import CobolText.Proofs.LineAreas
import CobolText.Proofs.LineBreaks
import CobolText.Proofs.LineFidelity
import CobolText.Proofs.LineOrder
import CobolText.Proofs.LineTokens
import CobolText.Proofs.MadeUpText
import CobolText.Proofs.MainFile
import CobolText.Proofs.MapLookups
import CobolText.Proofs.NestingLimit
import CobolText.Proofs.OpenLiterals
import CobolText.Proofs.OutputColumns
import CobolText.Proofs.OutputLines
import CobolText.Proofs.PastedSlices
import CobolText.Proofs.PrintedDirectives
import CobolText.Proofs.RejectedCycles
import CobolText.Proofs.ReportedFaults
import CobolText.Proofs.RunFidelity
import CobolText.Proofs.Runs
import CobolText.Proofs.SharedCache
import CobolText.Proofs.ShieldedText
import CobolText.Proofs.SourceOrder
import CobolText.Proofs.Spellings
import CobolText.Proofs.Stages
import CobolText.Proofs.Stretches
import CobolText.Proofs.TextAfterCopy
import CobolText.Proofs.Tiling
import CobolText.Proofs.Trace
import CobolText.Proofs.UncutMarks
import CobolText.Proofs.WellFormed
import CobolText.Proofs.WholeMarks
import CobolText.Proofs.WordPatterns
import CobolText.Proofs.WrittenLines
import CobolText.Proofs.WrittenNames
import CobolText.Replacement.Apply
import CobolText.Replacement.Pattern
import CobolText.Replacement.Shield
import CobolText.Report.Datum
import CobolText.Report.Json
import CobolText.Report.Writer
import CobolText.SourceUnit
import CobolText.Text.Alphanumeric
import CobolText.Text.Blank
import CobolText.Text.Case
import CobolText.Text.CaseTable
import CobolText.Text.Delimiter
import CobolText.Text.Lines
import CobolText.Text.Numeral
import CobolText.Text.Printable
import CobolText.Text.Slice
import CobolText.Token.Basic
import CobolText.Token.Lexer
import CobolText.Value
import CobolText.Yaml.Character
import CobolText.Yaml.Cursor
import CobolText.Yaml.Defect
import CobolText.Yaml.Document
import CobolText.Yaml.Node.Basic
import CobolText.Yaml.Node.Reader
import CobolText.Yaml.Scalar.Block
import CobolText.Yaml.Scalar.Plain
import CobolText.Yaml.Scalar.Quoted
import CobolText.Yaml.Schema
import CobolText.Yaml.Tag
import CobolText.Yaml.Token.Basic
import CobolText.Yaml.Token.Scan
