import PackageModularity.Batch.ChildProcess
import PackageModularity.Batch.Dataset
import PackageModularity.Batch.Run
import PackageModularity.Batch.ScoreTable
import PackageModularity.CommandLine.Arguments
import PackageModularity.CommandLine.Command
import PackageModularity.Coupling.Edge
import PackageModularity.Coupling.EdgeMultiset
import PackageModularity.Coupling.Modularity
import PackageModularity.Dict
import PackageModularity.Files.Entry
import PackageModularity.Files.FileSystem
import PackageModularity.Files.Path
import PackageModularity.Files.Pattern
import PackageModularity.Main
import PackageModularity.Number.Binary64
import PackageModularity.Number.Notation
import PackageModularity.Number.Shortest
import PackageModularity.Package.Config
import PackageModularity.Package.Registry
import PackageModularity.Package.SourceFilter
import PackageModularity.Project.Index
import PackageModularity.Project.Log
import PackageModularity.Project.Run
import PackageModularity.Proofs.Batch.CollectedFiles
import PackageModularity.Proofs.Batch.CollectedScores
import PackageModularity.Proofs.Batch.ExactListing
import PackageModularity.Proofs.Batch.ForwardedOutput
import PackageModularity.Proofs.Batch.ListedProjects
import PackageModularity.Proofs.Batch.ObservedOutcomes
import PackageModularity.Proofs.Batch.PlainPlaces
import PackageModularity.Proofs.Batch.PoolOutcome
import PackageModularity.Proofs.Batch.ReportedScores
import PackageModularity.Proofs.Batch.ScorePlaces
import PackageModularity.Proofs.Batch.SharedFolders
import PackageModularity.Proofs.Batch.SingleRuns
import PackageModularity.Proofs.Batch.UnlinkedPlaces
import PackageModularity.Proofs.Batch.WorkerPool
import PackageModularity.Proofs.Batch.WrittenScores
import PackageModularity.Proofs.CommandLine.ChildArguments
import PackageModularity.Proofs.Coupling.Incidence
import PackageModularity.Proofs.Coupling.IncidenceSums
import PackageModularity.Proofs.Coupling.ListScore
import PackageModularity.Proofs.Coupling.MeetingPairs
import PackageModularity.Proofs.Coupling.PackageSet
import PackageModularity.Proofs.Coupling.PairCounts
import PackageModularity.Proofs.Coupling.ScoreChanges
import PackageModularity.Proofs.Coupling.ScoreRange
import PackageModularity.Proofs.DictEntries
import PackageModularity.Proofs.Files.EntryAt
import PackageModularity.Proofs.Files.EntryOperations
import PackageModularity.Proofs.Files.FileExtension
import PackageModularity.Proofs.Files.JoinedPath
import PackageModularity.Proofs.Files.NewFolders
import PackageModularity.Proofs.Files.ReplacedFile
import PackageModularity.Proofs.Files.Resolution
import PackageModularity.Proofs.Files.TreeFiles
import PackageModularity.Proofs.Number.FiniteQuotient
import PackageModularity.Proofs.Number.WrittenNumber
import PackageModularity.Proofs.Package.DiscoveredFiles
import PackageModularity.Proofs.Package.FolderNames
import PackageModularity.Proofs.Package.FoundPackages
import PackageModularity.Proofs.Package.PlainExtensions
import PackageModularity.Proofs.Project.FolderPackages
import PackageModularity.Proofs.Project.ParseMisses
import PackageModularity.Proofs.Project.ParsedFiles
import PackageModularity.Proofs.Resolution.BreadthFirst
import PackageModularity.Proofs.Resolution.DeclaredTypes
import PackageModularity.Proofs.Resolution.HierarchyWalk
import PackageModularity.Proofs.Resolution.LastDeclaration
import PackageModularity.Proofs.Resolution.LocalChains
import PackageModularity.Proofs.Resolution.NamesakeTypes
import PackageModularity.Proofs.Resolution.NestedPackages
import PackageModularity.Proofs.Resolution.NoPhantomEdges
import PackageModularity.Proofs.Resolution.QualifiedChains
import PackageModularity.Proofs.Resolution.UnitOrder
import PackageModularity.Proofs.Resolution.WrittenNames
import PackageModularity.Proofs.Source.AddedComments
import PackageModularity.Proofs.Source.AnnotatedTypes
import PackageModularity.Proofs.Source.DepthBound
import PackageModularity.Proofs.Source.ErasedTypes
import PackageModularity.Proofs.Source.HeaderOccurrences
import PackageModularity.Proofs.Source.LocalOwners
import PackageModularity.Proofs.Source.NestedTypes
import PackageModularity.Proofs.Source.NumberedVisits
import PackageModularity.Proofs.Source.PairedBrackets
import PackageModularity.Proofs.Source.RecordedOccurrences
import PackageModularity.Proofs.Source.ScopeChains
import PackageModularity.Proofs.Source.ScopedLocals
import PackageModularity.Proofs.Source.Visits
import PackageModularity.Proofs.Text.CutText
import PackageModularity.Proofs.Text.DottedName
import PackageModularity.Proofs.Text.EncodedText
import PackageModularity.Resolution.Hierarchy
import PackageModularity.Resolution.ReferenceTarget
import PackageModularity.Resolution.TypeName
import PackageModularity.Resolution.TypeTable
import PackageModularity.Resolution.UnitEdges
import PackageModularity.Source.Declaration
import PackageModularity.Source.Header
import PackageModularity.Source.Reading
import PackageModularity.Source.SourceUnit
import PackageModularity.Source.SyntaxTree
import PackageModularity.Source.TreeRows
import PackageModularity.Source.TypeText
import PackageModularity.Text.Blank
import PackageModularity.Text.Name
import PackageModularity.Text.Quoted
import PackageModularity.Text.Unprintable
import PackageModularity.Text.Utf8
import PackageModularity.Toml.Document
import PackageModularity.Toml.Quotation
import PackageModularity.Toml.Scalar
import PackageModularity.Toml.Value
