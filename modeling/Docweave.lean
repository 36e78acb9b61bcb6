import Docweave.Artifact
import Docweave.Command.Flag
import Docweave.Command.Line
import Docweave.Command.Run
import Docweave.Compile
import Docweave.ComponentName
import Docweave.Config.Decode
import Docweave.Config.Layer
import Docweave.Config.Load
import Docweave.Disk.Basic
import Docweave.Disk.Walk
import Docweave.Editor.Documents
import Docweave.Editor.Server
import Docweave.Editor.Uri
import Docweave.Failure
import Docweave.Frontmatter
import Docweave.Highlight
import Docweave.Highlight.Pool
import Docweave.Ignore.Glob
import Docweave.Ignore.Rule
import Docweave.Json
import Docweave.Main
import Docweave.Markdown.BlockPass
import Docweave.Markdown.Cursor
import Docweave.Markdown.Document
import Docweave.Markdown.Draft
import Docweave.Markdown.HtmlTag
import Docweave.Markdown.InlineItem
import Docweave.Markdown.InlinePass
import Docweave.Markdown.LinkReference
import Docweave.Markdown.ListMarker
import Docweave.Markdown.Parse
import Docweave.Markdown.Reader
import Docweave.Markdown.Segment
import Docweave.Markdown.Table
import Docweave.Number.Binary64
import Docweave.Number.Decimal
import Docweave.Number.Duration
import Docweave.Number.Integer
import Docweave.Path
import Docweave.Project.Build
import Docweave.Project.Watch
import Docweave.Project.Workspace
import Docweave.Proofs.AlikeDisks
import Docweave.Proofs.ArtifactEmbedding
import Docweave.Proofs.ArtifactPlaces
import Docweave.Proofs.BuildFootprint
import Docweave.Proofs.BuildPhases
import Docweave.Proofs.BuildSteps
import Docweave.Proofs.CacheFreshness
import Docweave.Proofs.CacheShape
import Docweave.Proofs.CachedArtifacts
import Docweave.Proofs.CleanupVisits
import Docweave.Proofs.ColumnReferences
import Docweave.Proofs.CompileAgreement
import Docweave.Proofs.Composition
import Docweave.Proofs.DiskAnswers
import Docweave.Proofs.DiskTree
import Docweave.Proofs.DiskWalks
import Docweave.Proofs.DocumentPool
import Docweave.Proofs.ExcerptRows
import Docweave.Proofs.FailedTransforms
import Docweave.Proofs.FaultLine
import Docweave.Proofs.HighlightPool
import Docweave.Proofs.IsolatedDocuments
import Docweave.Proofs.JsonStrings
import Docweave.Proofs.Markers
import Docweave.Proofs.Nesting
import Docweave.Proofs.OpenDocuments
import Docweave.Proofs.OrphanCleanup
import Docweave.Proofs.ParagraphLines
import Docweave.Proofs.ParagraphSource
import Docweave.Proofs.PathPlaces
import Docweave.Proofs.Placeholders
import Docweave.Proofs.ProjectDocuments
import Docweave.Proofs.QueuedCode
import Docweave.Proofs.RepeatedBuilds
import Docweave.Proofs.RootedPaths
import Docweave.Proofs.SourceLines
import Docweave.Proofs.TableColumns
import Docweave.Proofs.TableScan
import Docweave.Proofs.TextLaws
import Docweave.Proofs.TransformSteps
import Docweave.Proofs.TreeRendering
import Docweave.Proofs.ValidatedBuild
import Docweave.Proofs.WatchOrder
import Docweave.Proofs.WatchTasks
import Docweave.Qualifier.Basic
import Docweave.Qualifier.Braces
import Docweave.Report
import Docweave.Script.Check
import Docweave.Script.Imports
import Docweave.Script.Plain
import Docweave.Source.Code
import Docweave.Source.Fence
import Docweave.Source.Sections
import Docweave.Text.Basic
import Docweave.Text.CaseFold
import Docweave.Text.Escape
import Docweave.Text.Excerpt
import Docweave.Text.JsonString
import Docweave.Text.Quoted
import Docweave.Text.Space
import Docweave.Text.Symbol
import Docweave.Text.Utf8
import Docweave.Token.Basic
import Docweave.Token.Stream
import Docweave.Tree.Brackets
import Docweave.Tree.Build
import Docweave.Tree.Marker
import Docweave.Tree.Node
import Docweave.Tree.Resolve
import Docweave.Yaml.Base64
import Docweave.Yaml.Cursor
import Docweave.Yaml.Decode
import Docweave.Yaml.Fault
import Docweave.Yaml.Node
import Docweave.Yaml.Property
import Docweave.Yaml.Resolve
import Docweave.Yaml.Scalar
import Docweave.Yaml.Scanner
import Docweave.Yaml.Timestamp
import Docweave.Yaml.Token
import Docweave.Yaml.Value
import Docweave.Proofs.HiddenText
import Docweave.Proofs.ByteLayout
import Docweave.Proofs.ElementSearch
import Docweave.Proofs.SpreadSearch
import Docweave.Proofs.ExtractedBlocks
import Docweave.Proofs.RawBlocks
import Docweave.Proofs.ScriptPlaces
import Docweave.Proofs.BracketEscapes
import Docweave.Proofs.EscapedBrackets
import Docweave.Proofs.TableLookahead
import Docweave.Proofs.StaticTables
import Docweave.Proofs.WordPlaces
import Docweave.Proofs.DataSources
import Docweave.Proofs.BraceGroups
import Docweave.Proofs.BracketPieces
import Docweave.Proofs.LocalRewriting
import Docweave.Proofs.CodeRuns
import Docweave.Proofs.QualifierOwners
import Docweave.Proofs.PoolRuns
import Docweave.Proofs.QualifierGrammar
import Docweave.Proofs.AttributeLists
import Docweave.Proofs.MarkerWords
import Docweave.Proofs.ComponentNames
import Docweave.Proofs.ComponentImports
import Docweave.Proofs.ImportNames
import Docweave.Proofs.ScriptStatements
import Docweave.Proofs.HoistedImports
import Docweave.Proofs.Literals
import Docweave.Proofs.GlobalDeclarations
import Docweave.Proofs.BlockElements
import Docweave.Proofs.PathLiterals
import Docweave.Proofs.ReferencePlaces
import Docweave.Proofs.MetadataFaults
import Docweave.Proofs.UriPaths
import Docweave.Proofs.TokenPairs
import Docweave.Proofs.BraceMatching
import Docweave.Proofs.CodeSpans
import Docweave.Proofs.SpanBytes
import Docweave.Proofs.FencedBlocks
import Docweave.Proofs.MarkupEntities
import Docweave.Proofs.ExcerptWindow
