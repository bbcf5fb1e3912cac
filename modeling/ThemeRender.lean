import ThemeRender.Command.Arguments
import ThemeRender.Command.Finding
import ThemeRender.Command.Run
import ThemeRender.Data.Fields
import ThemeRender.Data.JsonFault
import ThemeRender.Data.JsonReader
import ThemeRender.Data.Locals
import ThemeRender.Data.Value
import ThemeRender.Decimal.Binary64
import ThemeRender.Decimal.Layout
import ThemeRender.Decimal.Shortest
import ThemeRender.Diagnostic.Ink
import ThemeRender.Diagnostic.Report
import ThemeRender.Diagnostic.SourceLine
import ThemeRender.Main
import ThemeRender.Markup.Attribute
import ThemeRender.Markup.CompileError
import ThemeRender.Markup.Compiler
import ThemeRender.Markup.Dialect
import ThemeRender.Markup.Emission
import ThemeRender.Markup.HamlLines
import ThemeRender.Markup.Item
import ThemeRender.Markup.JadeLines
import ThemeRender.Markup.LineTree
import ThemeRender.Markup.Piece
import ThemeRender.Page.Frames
import ThemeRender.Page.Script
import ThemeRender.Page.Stage
import ThemeRender.Store.Basic
import ThemeRender.Store.Disk
import ThemeRender.Store.Memory
import ThemeRender.Store.Path
import ThemeRender.Store.PathMap
import ThemeRender.Template.Block
import ThemeRender.Template.Expr
import ThemeRender.Template.ExprReader
import ThemeRender.Template.Host
import ThemeRender.Template.Lexeme
import ThemeRender.Template.Parse
import ThemeRender.Template.Reader
import ThemeRender.Template.Recorder
import ThemeRender.Template.Run
import ThemeRender.Template.Segment
import ThemeRender.Template.SyntaxError
import ThemeRender.Template.Tag
import ThemeRender.Template.Token
import ThemeRender.Text.Blank
import ThemeRender.Text.Cut
import ThemeRender.Text.Digits
import ThemeRender.Text.Html
import ThemeRender.Text.Span
import ThemeRender.Text.Width
import ThemeRender.Theme.Artifact
import ThemeRender.Theme.Composition
import ThemeRender.Theme.Lookup
import ThemeRender.Theme.Page
import ThemeRender.Theme.RenderError
import ThemeRender.Theme.Settings
import ThemeRender.Theme.SettingsFile
import ThemeRender.Theme.ViewOptions
import ThemeRender.Toml.Datetime
import ThemeRender.Toml.Document
import ThemeRender.Toml.Item
import ThemeRender.Toml.Number
import ThemeRender.Toml.Quoted
import ThemeRender.Toml.Scan
import ThemeRender.Proofs.Markup.Agreement
import ThemeRender.Proofs.Markup.Correctness
import ThemeRender.Proofs.Outcome
import ThemeRender.Proofs.Store.Components
import ThemeRender.Proofs.Store.MemoryFiles
import ThemeRender.Proofs.Template.Composition
import ThemeRender.Proofs.Template.FaultLines
import ThemeRender.Proofs.Template.KeptText
import ThemeRender.Proofs.Template.Related
import ThemeRender.Proofs.Template.RoundTrip
import ThemeRender.Proofs.Theme.Appending
import ThemeRender.Proofs.Theme.ArtifactPath
import ThemeRender.Proofs.Theme.CacheHistory
import ThemeRender.Proofs.Theme.CacheTransparency
import ThemeRender.Proofs.Theme.Delivery
import ThemeRender.Proofs.Theme.Visits
import ThemeRender.Proofs.Theme.Depth
import ThemeRender.Proofs.Template.Recast
import ThemeRender.Proofs.Theme.Edited
import ThemeRender.Proofs.Theme.Captured
import ThemeRender.Proofs.Template.CodeErrors
import ThemeRender.Proofs.Template.ErrorPlaces
import ThemeRender.Proofs.Markup.Complaints
import ThemeRender.Proofs.Command.Checking
import ThemeRender.Proofs.Theme.ArtifactSharing
import ThemeRender.Proofs.Markup.KeptLines
import ThemeRender.Proofs.Markup.CodeLines
import ThemeRender.Proofs.Command.CheckedRenders
import ThemeRender.Proofs.Template.LoopVariables
import ThemeRender.Proofs.Theme.Fetching
import ThemeRender.Proofs.Theme.CacheOnly
import ThemeRender.Proofs.Theme.RepeatedRender
import ThemeRender.Proofs.Theme.FaithfulRender
import ThemeRender.Proofs.Theme.YieldedText
import ThemeRender.Proofs.Template.FreeNames
import ThemeRender.Proofs.Template.FirstRefusal
import ThemeRender.Proofs.Markup.SourceLines
import ThemeRender.Proofs.Markup.Indentation
import ThemeRender.Proofs.Store.MemoryHistory
import ThemeRender.Proofs.Theme.WritableDirs
import ThemeRender.Proofs.Theme.FailedCompile
import ThemeRender.Proofs.Markup.OutlineOnly
import ThemeRender.Proofs.Markup.BlockBodies
import ThemeRender.Proofs.Markup.MalformedText
import ThemeRender.Proofs.Markup.EscapedMarks
import ThemeRender.Proofs.Markup.SpelledElements
import ThemeRender.Proofs.Theme.Precedence
import ThemeRender.Proofs.Theme.ResolvedArtifacts
import ThemeRender.Proofs.Markup.ControlLines
import ThemeRender.Proofs.Markup.OpenTags
import ThemeRender.Proofs.Theme.MergedOptions
import ThemeRender.Proofs.Template.QuotedText
import ThemeRender.Proofs.Template.Partition
import ThemeRender.Proofs.Template.ExprPlaces
import ThemeRender.Proofs.Theme.ErrorPages
import ThemeRender.Proofs.Template.ListItems
import ThemeRender.Proofs.Store.OrderedClock
import ThemeRender.Proofs.Theme.LockedDirs
import ThemeRender.Proofs.Data.LastGiven
import ThemeRender.Proofs.Page.Captures
import ThemeRender.Proofs.Theme.Partials
