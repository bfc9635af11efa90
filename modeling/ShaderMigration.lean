import ShaderMigration.Arnold.Schemas
import ShaderMigration.Arnold.Sheet
import ShaderMigration.Arnold.Temperature
import ShaderMigration.Binary64
import ShaderMigration.Catalog
import ShaderMigration.CommandLine.Arguments
import ShaderMigration.CommandLine.Run
import ShaderMigration.Config
import ShaderMigration.Conversion
import ShaderMigration.Data
import ShaderMigration.Data.Fields
import ShaderMigration.Decimal.Scaled
import ShaderMigration.Decimal.Shortest
import ShaderMigration.Entries
import ShaderMigration.Error
import ShaderMigration.Expr
import ShaderMigration.Expr.Document
import ShaderMigration.Files.Glob
import ShaderMigration.Files.Path
import ShaderMigration.Files.Tree
import ShaderMigration.Graph.Cleanup
import ShaderMigration.Graph.Consumer
import ShaderMigration.Graph.Edge
import ShaderMigration.Graph.Memo
import ShaderMigration.Graph.Walk
import ShaderMigration.Hex
import ShaderMigration.Host
import ShaderMigration.Host.Fault
import ShaderMigration.Json.Printer
import ShaderMigration.Json.Token
import ShaderMigration.Json.Written
import ShaderMigration.KeyOrder
import ShaderMigration.Main
import ShaderMigration.Mapping
import ShaderMigration.Naming
import ShaderMigration.Naming.Search
import ShaderMigration.NodeId
import ShaderMigration.NodeSpec
import ShaderMigration.NodeSpec.Build
import ShaderMigration.NodeSpec.Document
import ShaderMigration.Processor.Run
import ShaderMigration.Processor.Script
import ShaderMigration.Proofs.ArrayBridges
import ShaderMigration.Proofs.AssignmentOrder
import ShaderMigration.Proofs.AtomicActions
import ShaderMigration.Proofs.AttributeViews
import ShaderMigration.Proofs.BuildAcyclic
import ShaderMigration.Proofs.BuildAppends
import ShaderMigration.Proofs.BuildDescribed
import ShaderMigration.Proofs.BuildLedger
import ShaderMigration.Proofs.BuildOrigins
import ShaderMigration.Proofs.BuildReplay
import ShaderMigration.Proofs.BuildScript
import ShaderMigration.Proofs.BuildSteps
import ShaderMigration.Proofs.BuiltNetwork
import ShaderMigration.Proofs.BuriedPlugs
import ShaderMigration.Proofs.CleanupEdges
import ShaderMigration.Proofs.CleanupInvariant
import ShaderMigration.Proofs.CleanupLoops
import ShaderMigration.Proofs.CleanupSettled
import ShaderMigration.Proofs.CompiledSheets
import ShaderMigration.Proofs.ConsultedTags
import ShaderMigration.Proofs.ConversionInvariant
import ShaderMigration.Proofs.ConversionLineage
import ShaderMigration.Proofs.ConversionStep
import ShaderMigration.Proofs.ConversionTurns
import ShaderMigration.Proofs.DescribedNodes
import ShaderMigration.Proofs.DocumentReferences
import ShaderMigration.Proofs.ExprRoundTrip
import ShaderMigration.Proofs.FailedCalls
import ShaderMigration.Proofs.FiniteNumbers
import ShaderMigration.Proofs.FoundConsumers
import ShaderMigration.Proofs.FreeNames
import ShaderMigration.Proofs.HostCalls
import ShaderMigration.Proofs.HostProjection
import ShaderMigration.Proofs.IntegerConversions
import ShaderMigration.Proofs.IntegerMatching
import ShaderMigration.Proofs.JsonParsing
import ShaderMigration.Proofs.JsonRoundTrip
import ShaderMigration.Proofs.JsonTokens
import ShaderMigration.Proofs.LaidScripts
import ShaderMigration.Proofs.LazyWalks
import ShaderMigration.Proofs.LeastSuffix
import ShaderMigration.Proofs.LightColors
import ShaderMigration.Proofs.MappedColors
import ShaderMigration.Proofs.MappedSlots
import ShaderMigration.Proofs.MappingAttempts
import ShaderMigration.Proofs.MappingInvariant
import ShaderMigration.Proofs.MappingIsolation
import ShaderMigration.Proofs.MappingRuns
import ShaderMigration.Proofs.MappingTargets
import ShaderMigration.Proofs.MemoTransparency
import ShaderMigration.Proofs.MigrationOutcome
import ShaderMigration.Proofs.NearestDoubles
import ShaderMigration.Proofs.NodeTags
import ShaderMigration.Proofs.OfferedValues
import ShaderMigration.Proofs.OneByOne
import ShaderMigration.Proofs.OptionalLists
import ShaderMigration.Proofs.PairOrder
import ShaderMigration.Proofs.PathNames
import ShaderMigration.Proofs.PathVariables
import ShaderMigration.Proofs.PatternExpansion
import ShaderMigration.Proofs.PatternMatches
import ShaderMigration.Proofs.PlainPaths
import ShaderMigration.Proofs.PlugFreeSheets
import ShaderMigration.Proofs.PlugGraph
import ShaderMigration.Proofs.PrintedDocuments
import ShaderMigration.Proofs.ReadDescriptions
import ShaderMigration.Proofs.RealizedTree
import ShaderMigration.Proofs.RecordedRequests
import ShaderMigration.Proofs.RecordedRun
import ShaderMigration.Proofs.ReferenceResolution
import ShaderMigration.Proofs.RefusedWrites
import ShaderMigration.Proofs.RepeatedMappings
import ShaderMigration.Proofs.ReplacementChain
import ShaderMigration.Proofs.ReplaySteps
import ShaderMigration.Proofs.ResultSteps
import ShaderMigration.Proofs.SavableScenes
import ShaderMigration.Proofs.SceneEdits
import ShaderMigration.Proofs.SceneFloats
import ShaderMigration.Proofs.SceneFrame
import ShaderMigration.Proofs.SceneRoundTrip
import ShaderMigration.Proofs.ScriptFollows
import ShaderMigration.Proofs.ScriptMoves
import ShaderMigration.Proofs.ScriptRun
import ShaderMigration.Proofs.SelfPlugs
import ShaderMigration.Proofs.SheetLiterals
import ShaderMigration.Proofs.SheetRoundTrip
import ShaderMigration.Proofs.SlotOverwrites
import ShaderMigration.Proofs.SortedDocuments
import ShaderMigration.Proofs.SortedLiterals
import ShaderMigration.Proofs.StepOverflow
import ShaderMigration.Proofs.StoredPlugs
import ShaderMigration.Proofs.TreeRoundTrip
import ShaderMigration.Proofs.UniqueNames
import ShaderMigration.Proofs.ValueReadBack
import ShaderMigration.Proofs.WalkReach
import ShaderMigration.Proofs.WellFormedRuns
import ShaderMigration.Proofs.WellFormedScenes
import ShaderMigration.Proofs.WrittenParts
import ShaderMigration.Proofs.WrittenTrees
import ShaderMigration.Rule
import ShaderMigration.Scene
import ShaderMigration.Scene.Document
import ShaderMigration.Scene.InPlace
import ShaderMigration.Scene.Live
import ShaderMigration.Sheet.Document
import ShaderMigration.Table
import ShaderMigration.Table.Document
import ShaderMigration.Tags
import ShaderMigration.Text.Blank
import ShaderMigration.Text.Replace
import ShaderMigration.Texture
import ShaderMigration.Texture.Pattern
import ShaderMigration.Texture.Scanner
import ShaderMigration.Toml.Quoted
import ShaderMigration.Toml.Reader
import ShaderMigration.Toml.Section
import ShaderMigration.Toml.Word
import ShaderMigration.Value
import ShaderMigration.Value.Document
import ShaderMigration.Value.Extract
import ShaderMigration.Value.Literal
