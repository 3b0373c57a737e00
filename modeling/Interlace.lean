import Interlace.Aspect.Basic
import Interlace.Aspect.Builtin
import Interlace.Aspect.Codec
import Interlace.Aspect.JoinPoint
import Interlace.Aspect.Template
import Interlace.Aspect.TypeMatch
import Interlace.Aspect.Verdict
import Interlace.Aspect.WrapPattern
import Interlace.Cache.Entry
import Interlace.Cache.Key
import Interlace.Cancellation
import Interlace.Comment.Directive
import Interlace.Comment.Marker
import Interlace.Config.Document
import Interlace.Config.Graph
import Interlace.Config.Loader
import Interlace.Dict
import Interlace.Dict.Lemmas
import Interlace.Digest
import Interlace.Disk
import Interlace.Double
import Interlace.Edit.Buffer
import Interlace.Edit.Splice
import Interlace.Failure
import Interlace.Json.Basic
import Interlace.Json.Decode
import Interlace.Json.Parse
import Interlace.Package.Injector
import Interlace.Package.Output
import Interlace.Package.Source
import Interlace.Path
import Interlace.SourceFile
import Interlace.Syntax.Expressions
import Interlace.Syntax.Grammar
import Interlace.Syntax.Kind
import Interlace.Syntax.Parse
import Interlace.Syntax.Scan
import Interlace.Syntax.Statements
import Interlace.Syntax.Tree
import Interlace.Syntax.Types
import Interlace.Syntax.Walk
import Interlace.Text.Alphanumeric
import Interlace.Text.Basic
import Interlace.Text.Decimal
import Interlace.Text.Hidden
import Interlace.Text.Identifier
import Interlace.Text.Lemmas
import Interlace.Text.Lines
import Interlace.Text.Quoted
import Interlace.Text.Utf8
import Interlace.Text.White
import Interlace.Typing.Archive
import Interlace.Typing.Check
import Interlace.Typing.ImportMap
import Interlace.Typing.Importer
import Interlace.Typing.Package
import Interlace.Typing.Reference
import Interlace.Typing.Scope
import Interlace.Version
import Interlace.Weave.Applying
import Interlace.Weave.Draft
import Interlace.Weave.File
import Interlace.Weave.Imports
import Interlace.Weave.Margin
import Interlace.Weave.Matching
import Interlace.Weave.Positions
import Interlace.Weave.References
import Interlace.Weave.Removal
import Interlace.Proofs.CheckedPackage
import Interlace.Proofs.Occurrence
import Interlace.Proofs.FileEstimate
import Interlace.Proofs.PackageEstimate
import Interlace.Proofs.DraftGrowth
import Interlace.Proofs.Walking
import Interlace.Proofs.Recognition
import Interlace.Proofs.RemovalReach
import Interlace.Proofs.Sorting
import Interlace.Proofs.EditMeaning
import Interlace.Proofs.SegmentMap
import Interlace.Proofs.Injecting
import Interlace.Proofs.FileFilter
import Interlace.Proofs.Decimals
import Interlace.Proofs.JsonReading
import Interlace.Proofs.StoredEntries
import Interlace.Proofs.CachedCalls
import Interlace.Proofs.Writing
import Interlace.Proofs.Workers
import Interlace.Proofs.DiskRecord
import Interlace.Proofs.ImportMemory
import Interlace.Proofs.Targets
import Interlace.Proofs.Interleaving
import Interlace.Proofs.WrapRemoval
import Interlace.Proofs.Annotation
import Interlace.Proofs.AcyclicGraph
import Interlace.Proofs.MergeOrder
import Interlace.Proofs.AdviceOrder
import Interlace.Proofs.AliasSteps
import Interlace.Proofs.DeclaredNames
import Interlace.Proofs.ScopeAgreement
import Interlace.Proofs.SpelledTypes
import Interlace.Proofs.FileOrder
import Interlace.Proofs.TypeReferences
import Interlace.Proofs.AspectReading
import Interlace.Proofs.WrappedExpressions
import Interlace.Proofs.AdviceLog
import Interlace.Proofs.EditPlaces
import Interlace.Proofs.EndMarkers
import Interlace.Proofs.NestedWraps
import Interlace.Proofs.NamedPlaceholders
import Interlace.Proofs.ImportBlock
import Interlace.Proofs.RevertedText
import Interlace.Proofs.BoundNames
import Interlace.Proofs.Localizing
import Interlace.Proofs.NameClashes
import Interlace.Proofs.TypeResolution
import Interlace.Proofs.LocalNames
import Interlace.Proofs.FailedLoads
import Interlace.Proofs.StatementPlaces
import Interlace.Proofs.RestoredSource
import Interlace.Proofs.InjectedOnce
import Interlace.Proofs.KeptSplices
import Interlace.Proofs.CharacterCuts
import Interlace.Proofs.PatternLanguage
import Interlace.Proofs.AssignedValues
import Interlace.Proofs.SpanDeclarations
import Interlace.Proofs.BuiltReferences
import Interlace.Proofs.KeyFraming
import Interlace.Proofs.RenamedPlaces
import Interlace.Proofs.ArchiveReading
import Interlace.Proofs.MergedReferences
import Interlace.Proofs.ImporterCalls
import Interlace.Proofs.MemberSearch
import Interlace.Proofs.PackageClauses
import Interlace.Proofs.WalkTraces
import Interlace.Proofs.WrittenDirectives
import Interlace.Proofs.SameWeaving
import Interlace.Proofs.ServedCalls
