import StaticSite.Build
import StaticSite.Build.Session
import StaticSite.Cause
import StaticSite.CommandLine
import StaticSite.CommandLine.Command
import StaticSite.CommandLine.Refusal
import StaticSite.Compile
import StaticSite.Config.Effective
import StaticSite.Config.Fields
import StaticSite.Config.Load
import StaticSite.Config.Page
import StaticSite.Config.Site
import StaticSite.Config.Values
import StaticSite.Decimal.Double
import StaticSite.Decimal.Notation
import StaticSite.Decimal.Shortest
import StaticSite.Disk
import StaticSite.Extension
import StaticSite.FileSystem
import StaticSite.FileSystem.Error
import StaticSite.FileSystem.Resolve
import StaticSite.FileSystem.Walk
import StaticSite.FrontMatter
import StaticSite.Keyed
import StaticSite.Layout.Inject
import StaticSite.Layout.Name
import StaticSite.Layout.Template
import StaticSite.Log
import StaticSite.Main
import StaticSite.Markdown
import StaticSite.Markdown.Autolink
import StaticSite.Markdown.Block
import StaticSite.Markdown.Contents
import StaticSite.Markdown.Definition
import StaticSite.Markdown.Document
import StaticSite.Markdown.Emphasis
import StaticSite.Markdown.Entity
import StaticSite.Markdown.Escape
import StaticSite.Markdown.Html
import StaticSite.Markdown.Inline
import StaticSite.Markdown.Leaf
import StaticSite.Markdown.Link
import StaticSite.Markdown.Margin
import StaticSite.Markdown.Mark
import StaticSite.Markdown.Marker
import StaticSite.Markdown.Outline
import StaticSite.Markdown.Source
import StaticSite.Markdown.Table
import StaticSite.Markdown.Tag
import StaticSite.Markdown.Token
import StaticSite.Page
import StaticSite.Path
import StaticSite.Proofs.Build.Begun
import StaticSite.Proofs.Build.Clean
import StaticSite.Proofs.Build.Collision
import StaticSite.Proofs.Build.Compile
import StaticSite.Proofs.Build.Confined
import StaticSite.Proofs.Build.Directories
import StaticSite.Proofs.Build.FailFast
import StaticSite.Proofs.Build.Failure
import StaticSite.Proofs.Build.Image
import StaticSite.Proofs.Build.Mirror
import StaticSite.Proofs.Build.Output
import StaticSite.Proofs.Build.OwnOutput
import StaticSite.Proofs.Build.Perform
import StaticSite.Proofs.Build.Places
import StaticSite.Proofs.Build.Prepare
import StaticSite.Proofs.Build.Processed
import StaticSite.Proofs.Build.Rebuild
import StaticSite.Proofs.Build.Refused
import StaticSite.Proofs.Build.Remaining
import StaticSite.Proofs.Build.Repeat
import StaticSite.Proofs.Build.SourceKept
import StaticSite.Proofs.Build.Spelling
import StaticSite.Proofs.Build.Steps
import StaticSite.Proofs.Build.Unpublished
import StaticSite.Proofs.CommandLine.Clean
import StaticSite.Proofs.CommandLine.Layers
import StaticSite.Proofs.Compile.Ends
import StaticSite.Proofs.Config.Blank
import StaticSite.Proofs.Config.Lookup
import StaticSite.Proofs.Config.Merge
import StaticSite.Proofs.Config.Override
import StaticSite.Proofs.Disk.Adds
import StaticSite.Proofs.Disk.Again
import StaticSite.Proofs.Disk.Below
import StaticSite.Proofs.Disk.Canonical
import StaticSite.Proofs.Disk.Growth
import StaticSite.Proofs.Disk.Made
import StaticSite.Proofs.Disk.Missing
import StaticSite.Proofs.Disk.Remove
import StaticSite.Proofs.Execution
import StaticSite.Proofs.Extension.Pieces
import StaticSite.Proofs.Extension.References
import StaticSite.Proofs.Extension.Replacement
import StaticSite.Proofs.FileSystem.Below
import StaticSite.Proofs.FileSystem.Canonical
import StaticSite.Proofs.FileSystem.Children
import StaticSite.Proofs.FileSystem.Growth
import StaticSite.Proofs.FileSystem.Lexical
import StaticSite.Proofs.FileSystem.Links
import StaticSite.Proofs.FileSystem.Steps
import StaticSite.Proofs.FrontMatter.Grammar
import StaticSite.Proofs.FrontMatter.LineBreaks
import StaticSite.Proofs.Layout.Composition
import StaticSite.Proofs.Layout.Confined
import StaticSite.Proofs.Layout.Parts
import StaticSite.Proofs.Layout.Replacement
import StaticSite.Proofs.Path.Below
import StaticSite.Proofs.Path.Canonical
import StaticSite.Proofs.Path.Last
import StaticSite.Proofs.Path.Parent
import StaticSite.Proofs.Path.Steps
import StaticSite.Proofs.Skeleton.Create
import StaticSite.Proofs.Skeleton.Made
import StaticSite.Proofs.Skeleton.Occupied
import StaticSite.Proofs.Skeleton.Site
import StaticSite.Proofs.Skeleton.Texts
import StaticSite.Proofs.Text.Bytes
import StaticSite.Proofs.Text.Lines
import StaticSite.Proofs.Unlogged
import StaticSite.Proofs.Walk.Complete
import StaticSite.Proofs.Walk.Effects
import StaticSite.Proofs.Walk.Order
import StaticSite.Proofs.Walk.Parents
import StaticSite.Proofs.Walk.Visits
import StaticSite.Proofs.Yaml.Blanks
import StaticSite.Proofs.Yaml.Decoding
import StaticSite.Proofs.Yaml.Document
import StaticSite.Proofs.Yaml.Printed
import StaticSite.Proofs.Yaml.PrintedEnds
import StaticSite.Proofs.Yaml.PrintedNodes
import StaticSite.Proofs.Yaml.PrintedScalars
import StaticSite.Proofs.Yaml.Reads
import StaticSite.Proofs.Yaml.Scalars
import StaticSite.Proofs.Yaml.Steps
import StaticSite.Skeleton
import StaticSite.Text.Alphanumeric
import StaticSite.Text.Blank
import StaticSite.Text.CaseFold
import StaticSite.Text.CharRanges
import StaticSite.Text.Digits
import StaticSite.Text.Punctuation
import StaticSite.Text.Similarity
import StaticSite.Url
import StaticSite.Url.Domain
import StaticSite.Url.Host
import StaticSite.Url.Percent
import StaticSite.Url.Punycode
import StaticSite.World
import StaticSite.Yaml.Cursor
import StaticSite.Yaml.Error
import StaticSite.Yaml.Node
import StaticSite.Yaml.Token
import StaticSite.Yaml.Token.Block
import StaticSite.Yaml.Token.Label
import StaticSite.Yaml.Token.Plain
import StaticSite.Yaml.Token.Quoted
import StaticSite.Yaml.Token.Stream
import StaticSite.Yaml.Value
import StaticSite.Yaml.Value.OfNode
import StaticSite.Yaml.Value.Plain
import StaticSite.Yaml.Value.Printer
