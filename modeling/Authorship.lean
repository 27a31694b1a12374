import Authorship.Analysis.Basic
import Authorship.Analysis.Complexity
import Authorship.Analysis.Extraction
import Authorship.Analysis.Idiom
import Authorship.Analysis.Naming
import Authorship.Analysis.Redundancy
import Authorship.Analysis.Structure
import Authorship.Analysis.Style
import Authorship.Baseline.Accumulator
import Authorship.Baseline.Comparison
import Authorship.Baseline.Instant
import Authorship.Baseline.Profile
import Authorship.Baseline.Stats
import Authorship.Baseline.Store
import Authorship.Command.Arguments
import Authorship.Command.Calibration
import Authorship.Command.Disk
import Authorship.Command.Footprint
import Authorship.Command.Glob
import Authorship.Command.Ignore
import Authorship.Command.IgnoreRule
import Authorship.Command.Inputs
import Authorship.Command.Outcome
import Authorship.Command.Reporting
import Authorship.Command.Run
import Authorship.Command.Walk
import Authorship.Config.Decode
import Authorship.Config.Settings
import Authorship.Config.Template
import Authorship.Counting
import Authorship.Decimal.Binary
import Authorship.Decimal.Literal
import Authorship.Decimal.Shortest
import Authorship.Decimal.Text
import Authorship.Detection.BaselineAware
import Authorship.Detection.Blend
import Authorship.Detection.Engine
import Authorship.Detection.Heuristic
import Authorship.Detection.Indicator
import Authorship.Detection.Result
import Authorship.Detection.Signal
import Authorship.Detection.Verdict
import Authorship.Document.Decode
import Authorship.Document.Node
import Authorship.Feature.Bound
import Authorship.Feature.Schema
import Authorship.Feature.Vector
import Authorship.Json.Number
import Authorship.Json.Reader
import Authorship.Json.Value
import Authorship.Json.Writer
import Authorship.Lexicon.Brace
import Authorship.Lexicon.Declaration
import Authorship.Lexicon.Function
import Authorship.Lexicon.Identifier
import Authorship.Lexicon.Line
import Authorship.Lexicon.Naming
import Authorship.Lexicon.Nesting
import Authorship.Lexicon.Words
import Authorship.Main
import Authorship.Path
import Authorship.Pattern
import Authorship.Report.Critical
import Authorship.Report.Features
import Authorship.Report.Format
import Authorship.Report.Terminal
import Authorship.Report.Verdicts
import Authorship.Scalar
import Authorship.Sorting
import Authorship.Source.Language
import Authorship.Source.Prepared
import Authorship.Source.Scan
import Authorship.Table
import Authorship.Text.Character
import Authorship.Text.CharacterTable
import Authorship.Text.Lines
import Authorship.Text.Utf8
import Authorship.Toml.Document
import Authorship.Toml.Reader
import Authorship.Toml.Scalar
import Authorship.Toml.Value
import Authorship.Proofs.ScanSegments
import Authorship.Proofs.DoubleOrder
import Authorship.Proofs.FeatureVectors
import Authorship.Proofs.ExtractedVector
import Authorship.Proofs.MergedCorpora
import Authorship.Proofs.JsonText
import Authorship.Proofs.StatisticsFile
import Authorship.Proofs.StoreHistory
import Authorship.Proofs.ExactArithmetic
import Authorship.Proofs.Verdicts
import Authorship.Proofs.CodeLines
import Authorship.Proofs.DoubleSign
import Authorship.Proofs.InsufficientSignal
import Authorship.Proofs.CopiedBlocks
import Authorship.Proofs.DoubledText
import Authorship.Proofs.TextLines
import Authorship.Proofs.LineEndings
import Authorship.Proofs.PreparedAgain
import Authorship.Proofs.ReplacedSegments
import Authorship.Proofs.CommentContents
import Authorship.Proofs.LineBeginnings
import Authorship.Proofs.LiteralContents
import Authorship.Proofs.Ranking
import Authorship.Proofs.RuleDirections
import Authorship.Proofs.CriticalVotes
import Authorship.Proofs.Contributions
import Authorship.Proofs.ScoreAtMeans
import Authorship.Proofs.DoubleSymmetry
import Authorship.Proofs.ExchangedMeans
import Authorship.Proofs.LineCounts
import Authorship.Proofs.BraceMatching
import Authorship.Proofs.PatternMatches
import Authorship.Proofs.FunctionNames
import Authorship.Proofs.FunctionBodies
import Authorship.Proofs.DoubleCounts
import Authorship.Proofs.DoubleShares
import Authorship.Proofs.MeasuredSizes
import Authorship.Proofs.CountedItems
import Authorship.Proofs.CountedShares
import Authorship.Proofs.CopiedPositions
import Authorship.Proofs.ByteOffsets
import Authorship.Proofs.Declarators
import Authorship.Proofs.DeclaratorOffsets
import Authorship.Proofs.DefinitionOffsets
import Authorship.Proofs.PatternPlaces
import Authorship.Proofs.LocalPatterns
import Authorship.Proofs.DeclaredTypes
import Authorship.Proofs.DeclaratorParts
import Authorship.Proofs.DeclaratorLists
import Authorship.Proofs.RepeatedLines
import Authorship.Proofs.NestingDepths
import Authorship.Proofs.Totals
import Authorship.Proofs.Directives
import Authorship.Proofs.BodyTokens
import Authorship.Proofs.FunctionShapes
import Authorship.Proofs.JoinedTexts
import Authorship.Proofs.CommentedLines
import Authorship.Proofs.MaskedLines
import Authorship.Proofs.CriticalFeatures
import Authorship.Proofs.FeatureScores
import Authorship.Proofs.BlendedScore
import Authorship.Proofs.CheckDirections
import Authorship.Proofs.ReadMeans
import Authorship.Proofs.JsonMembers
import Authorship.Proofs.FeatureSpellings
import Authorship.Proofs.SpelledMeans
import Authorship.Proofs.WrittenValues
import Authorship.Proofs.OpenLevels
import Authorship.Proofs.OperandPatterns
import Authorship.Proofs.OperandChains
import Authorship.Proofs.DoubleForms
import Authorship.Proofs.DoubleSizes
import Authorship.Proofs.DoubleSides
import Authorship.Proofs.FiniteTerms
import Authorship.Proofs.RankedReasons
import Authorship.Proofs.DoubleHalves
import Authorship.Proofs.NameClasses
import Authorship.Proofs.LongLines
import Authorship.Proofs.ExtendedNumbers
import Authorship.Proofs.RepairedSettings
import Authorship.Proofs.StringMatches
import Authorship.Proofs.StringLiterals
import Authorship.Proofs.RelativeDifferences
import Authorship.Proofs.DoubleValues
import Authorship.Proofs.DoubleErrors
import Authorship.Proofs.NormalizedBlend
import Authorship.Proofs.IncomparableEffects
import Authorship.Proofs.NumberParts
import Authorship.Proofs.ShortestDigits
import Authorship.Proofs.ScaledNumbers
import Authorship.Proofs.RealText
import Authorship.Proofs.ReportLines
import Authorship.Proofs.FeatureGroups
import Authorship.Proofs.BracePairs
