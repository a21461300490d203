import CodeAtlas.Alias.Basic
import CodeAtlas.Alias.Mapping
import CodeAtlas.Analysis
import CodeAtlas.Analyze
import CodeAtlas.Cache.Basic
import CodeAtlas.Cache.Fingerprint
import CodeAtlas.Cache.Sha256
import CodeAtlas.Catalog
import CodeAtlas.CommandLine.Arguments
import CodeAtlas.CommandLine.Command
import CodeAtlas.CommandLine.Run
import CodeAtlas.CommandLine.Table
import CodeAtlas.Config.Moment
import CodeAtlas.Config.Value
import CodeAtlas.ConfigFile
import CodeAtlas.Disk
import CodeAtlas.FileMap
import CodeAtlas.Graph.Assembly
import CodeAtlas.Graph.Basic
import CodeAtlas.Graph.Document
import CodeAtlas.Graph.Dot
import CodeAtlas.Graph.EdgeStore
import CodeAtlas.Graph.Exports
import CodeAtlas.Inference.Enrich
import CodeAtlas.Inference.Merge
import CodeAtlas.Inference.Prompt
import CodeAtlas.Inference.Proposal
import CodeAtlas.Inference.Reply
import CodeAtlas.Json.Basic
import CodeAtlas.Json.Comments
import CodeAtlas.Json.Literal
import CodeAtlas.Json.Reader
import CodeAtlas.Json.Writer
import CodeAtlas.Language
import CodeAtlas.Main
import CodeAtlas.Number.Binary64
import CodeAtlas.Number.Decimal
import CodeAtlas.Number.Integer
import CodeAtlas.Pattern.Basic
import CodeAtlas.Pattern.Extraction
import CodeAtlas.Pattern.Languages
import CodeAtlas.Pattern.Specifier
import CodeAtlas.Progress
import CodeAtlas.Proofs.AliasMatching
import CodeAtlas.Proofs.Assembly
import CodeAtlas.Proofs.CacheHistory
import CodeAtlas.Proofs.CachedAnalysis
import CodeAtlas.Proofs.CallBindings
import CodeAtlas.Proofs.CallEdges
import CodeAtlas.Proofs.CallTrace
import CodeAtlas.Proofs.ClassMethods
import CodeAtlas.Proofs.Clock
import CodeAtlas.Proofs.Delimited
import CodeAtlas.Proofs.Directories
import CodeAtlas.Proofs.DotReading
import CodeAtlas.Proofs.EdgeHistory
import CodeAtlas.Proofs.EdgeKeys
import CodeAtlas.Proofs.Enrichment
import CodeAtlas.Proofs.ExactDifferences
import CodeAtlas.Proofs.ExportChains
import CodeAtlas.Proofs.ExportIndex
import CodeAtlas.Proofs.ExportNames
import CodeAtlas.Proofs.ExportedCalls
import CodeAtlas.Proofs.Fingerprints
import CodeAtlas.Proofs.ImportEdges
import CodeAtlas.Proofs.ImportedCalls
import CodeAtlas.Proofs.InputOrder
import CodeAtlas.Proofs.JsonBlanks
import CodeAtlas.Proofs.JsonComments
import CodeAtlas.Proofs.JsonPasses
import CodeAtlas.Proofs.JsonReading
import CodeAtlas.Proofs.JsonText
import CodeAtlas.Proofs.JsonWriting
import CodeAtlas.Proofs.Literals
import CodeAtlas.Proofs.LocalNames
import CodeAtlas.Proofs.LowerCase
import CodeAtlas.Proofs.MappingFiles
import CodeAtlas.Proofs.ModuleImports
import CodeAtlas.Proofs.ModuleReexports
import CodeAtlas.Proofs.MovedImports
import CodeAtlas.Proofs.Numerals
import CodeAtlas.Proofs.NumericSettings
import CodeAtlas.Proofs.PackageImports
import CodeAtlas.Proofs.PathMappings
import CodeAtlas.Proofs.Paths
import CodeAtlas.Proofs.PatternMatches
import CodeAtlas.Proofs.PatternRecords
import CodeAtlas.Proofs.ProgressEvents
import CodeAtlas.Proofs.ProviderAnswers
import CodeAtlas.Proofs.RecordIds
import CodeAtlas.Proofs.RegisteredExtensions
import CodeAtlas.Proofs.RelativeSpecifiers
import CodeAtlas.Proofs.Renumbering
import CodeAtlas.Proofs.RepeatedMerge
import CodeAtlas.Proofs.ReplyRepair
import CodeAtlas.Proofs.ReplyWrapping
import CodeAtlas.Proofs.ReportReading
import CodeAtlas.Proofs.Reports
import CodeAtlas.Proofs.Resolution
import CodeAtlas.Proofs.Rounding
import CodeAtlas.Proofs.Schedules
import CodeAtlas.Proofs.ShadowedCalls
import CodeAtlas.Proofs.ShownRecords
import CodeAtlas.Proofs.Sites
import CodeAtlas.Proofs.StarExports
import CodeAtlas.Proofs.SymbolNames
import CodeAtlas.Proofs.SyntaxFaults
import CodeAtlas.Proofs.Unplaced
import CodeAtlas.Proofs.UnreadFiles
import CodeAtlas.Proofs.Walk
import CodeAtlas.Proofs.WrittenDoubles
import CodeAtlas.Provider.Basic
import CodeAtlas.Provider.Failure
import CodeAtlas.Resolver.Basic
import CodeAtlas.Resolver.Session
import CodeAtlas.Scan
import CodeAtlas.Script.Analyze
import CodeAtlas.Script.Automaton
import CodeAtlas.Script.Cursor
import CodeAtlas.Script.Extraction
import CodeAtlas.Script.Fault
import CodeAtlas.Script.Grammar
import CodeAtlas.Script.Grammar.Expressions
import CodeAtlas.Script.Grammar.Functions
import CodeAtlas.Script.Grammar.Markup
import CodeAtlas.Script.Grammar.Statements
import CodeAtlas.Script.Grammar.TypedExpressions
import CodeAtlas.Script.Grammar.TypedFunctions
import CodeAtlas.Script.Grammar.TypedStatements
import CodeAtlas.Script.Grammar.Types
import CodeAtlas.Script.Kind
import CodeAtlas.Script.Lexeme
import CodeAtlas.Script.Lexicon
import CodeAtlas.Script.Parse
import CodeAtlas.Script.Production
import CodeAtlas.Script.Rule
import CodeAtlas.Script.Scope
import CodeAtlas.Script.Semicolon
import CodeAtlas.Script.Site
import CodeAtlas.Script.Tree
import CodeAtlas.Seconds
import CodeAtlas.Settings
import CodeAtlas.Text.Basic
import CodeAtlas.Text.Cased
import CodeAtlas.Text.Lower
import CodeAtlas.Text.Path
import CodeAtlas.Text.Printable
import CodeAtlas.Text.Word
import CodeAtlas.Toml.Basic
import CodeAtlas.Toml.Layout
import CodeAtlas.Toml.Line
import CodeAtlas.Toml.Moment
import CodeAtlas.Toml.Quoted
import CodeAtlas.Toml.Reader
import CodeAtlas.Toml.Writer
import CodeAtlas.WorkerPool
