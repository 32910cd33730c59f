import Treeline.Argument
import Treeline.Base64
import Treeline.Calendar
import Treeline.Cluster.Connect
import Treeline.Cluster.Fetch
import Treeline.Cluster.Find
import Treeline.Cluster.Kind
import Treeline.Cluster.Resource
import Treeline.CommandLine.Command
import Treeline.CommandLine.Flag
import Treeline.CommandLine.Reading
import Treeline.CommandLine.Usage
import Treeline.CommandLine.Word
import Treeline.Data
import Treeline.Data.Key
import Treeline.Data.OfGraph
import Treeline.Data.OfScalar
import Treeline.Data.Outline
import Treeline.Decode
import Treeline.Documents
import Treeline.Event
import Treeline.Fault
import Treeline.Flatten
import Treeline.Folder
import Treeline.Main
import Treeline.Number.Binary
import Treeline.Number.Decimal
import Treeline.Number.Integer
import Treeline.Number.Shortest
import Treeline.Numeral
import Treeline.Path
import Treeline.Path.Parse
import Treeline.Path.Render
import Treeline.Path.Trail
import Treeline.Resolve
import Treeline.Run
import Treeline.Session
import Treeline.Settings
import Treeline.Text.CodePoints
import Treeline.Text.CodePoints.Digits
import Treeline.Text.CodePoints.Letters
import Treeline.Text.CodePoints.Unprintable
import Treeline.Text.Digit
import Treeline.Text.Hex
import Treeline.Text.Lowercase
import Treeline.Text.Newline
import Treeline.Text.Printable
import Treeline.Text.Quoted
import Treeline.Text.Split
import Treeline.Text.Utf16
import Treeline.Text.Utf8
import Treeline.Timeout
import Treeline.Traced
import Treeline.Tree
import Treeline.Unfold
import Treeline.Yaml.Character
import Treeline.Yaml.Cursor
import Treeline.Yaml.Graph
import Treeline.Yaml.Graph.Read
import Treeline.Yaml.Load
import Treeline.Yaml.Mark
import Treeline.Yaml.Outline
import Treeline.Yaml.Page
import Treeline.Yaml.Problem
import Treeline.Yaml.ScalarStyle
import Treeline.Yaml.Source
import Treeline.Yaml.Tag
import Treeline.Yaml.Timestamp
import Treeline.Yaml.Token
import Treeline.Yaml.Token.BlockText
import Treeline.Yaml.Token.Directive
import Treeline.Yaml.Token.Name
import Treeline.Yaml.Token.PlainText
import Treeline.Yaml.Token.QuotedText
import Treeline.Yaml.Token.Stream
import Treeline.Yaml.Token.Tag
import Treeline.Yaml.Write
import Treeline.Proofs.Tree.Children
import Treeline.Proofs.Tree.Descent
import Treeline.Proofs.Flatten.Scalars
import Treeline.Proofs.Unfold.Unfolding
import Treeline.Proofs.Unfold.Acceptance
import Treeline.Proofs.Numeral
import Treeline.Proofs.Path.Token
import Treeline.Proofs.Text.Split
import Treeline.Proofs.Path.RoundTrip
import Treeline.Proofs.Folder.Write
import Treeline.Proofs.Run.Lines
import Treeline.Proofs.Run.Delivery
import Treeline.Proofs.Flatten.Window
import Treeline.Proofs.Decode.Trees
import Treeline.Proofs.Decode.Addresses
import Treeline.Proofs.Yaml.Cursor
import Treeline.Proofs.Yaml.Scan.State
import Treeline.Proofs.Yaml.Scan.Step
import Treeline.Proofs.Yaml.PlainText
import Treeline.Proofs.Yaml.QuotedText
import Treeline.Proofs.Yaml.Scan.Between
import Treeline.Proofs.Yaml.Scan.Entry
import Treeline.Proofs.Json.Scalars
import Treeline.Proofs.Yaml.Graph.Shape
import Treeline.Proofs.Yaml.Graph.Complete
import Treeline.Proofs.Decode.Shapes
import Treeline.Proofs.Json.Tokens
import Treeline.Proofs.Json.Decode
import Treeline.Proofs.Yaml.Scan.Facing
import Treeline.Proofs.Yaml.Scan.Block
import Treeline.Proofs.Yaml.BlockNode
import Treeline.Proofs.Yaml.PlainRuns
import Treeline.Proofs.Yaml.Leaf
import Treeline.Proofs.Yaml.Write.Page
import Treeline.Proofs.Yaml.Write.Plain
import Treeline.Proofs.Yaml.Write.SingleQuoted
import Treeline.Proofs.Text.Hex
import Treeline.Proofs.Yaml.Write.DoubleQuoted
import Treeline.Proofs.Yaml.Write.Scalar
import Treeline.Proofs.Data.Order
import Treeline.Proofs.Data.Plain
import Treeline.Proofs.Yaml.Write.Block
import Treeline.Proofs.Yaml.Tag
import Treeline.Proofs.Run.Requests
import Treeline.Proofs.Run.Entry
import Treeline.Proofs.Run.Precedence
import Treeline.Proofs.Run.Unreadable
import Treeline.Proofs.Decode.Data
import Treeline.Proofs.Run.Verbosity
import Treeline.Proofs.Path.Grammar
import Treeline.Proofs.Flatten.Documents
import Treeline.Proofs.Run.LineFeeds
import Treeline.Proofs.Path.Canonical
import Treeline.Proofs.Resolve.Refusal
import Treeline.Proofs.Resolve.Relocation
import Treeline.Proofs.Flatten.Stack
import Treeline.Proofs.Flatten.Depth
import Treeline.Proofs.Flatten.Pruning
import Treeline.Proofs.Path.Joining
import Treeline.Proofs.Flatten.Absolute
import Treeline.Proofs.Resolve.SignedIndex
import Treeline.Proofs.Session
import Treeline.Proofs.Cluster.Find
import Treeline.Proofs.Decode.Reordering
import Treeline.Proofs.Data.DistinctKeys
import Treeline.Proofs.Settings.Entries
import Treeline.Proofs.Settings.WellTyped
import Treeline.Proofs.Text.Utf8
import Treeline.Proofs.Data.Making
import Treeline.Proofs.Data.Misread
import Treeline.Proofs.Data.Faults
import Treeline.Proofs.Data.Simple
import Treeline.Proofs.Settings.Faults
import Treeline.Proofs.Run.Misconfigured
