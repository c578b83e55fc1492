import Asciidoc.Text.Basic
import Asciidoc.Text.Case
import Asciidoc.Text.Digit
import Asciidoc.Text.Printable
import Asciidoc.Text.Decimal
import Asciidoc.Text.Numeral
import Asciidoc.Text.Quoted
import Asciidoc.Text.CodePoint
import Asciidoc.Entries
import Asciidoc.Number.Binary64
import Asciidoc.Json.Basic
import Asciidoc.Json.Reading
import Asciidoc.Json.Written
import Asciidoc.Token.Basic
import Asciidoc.Token.OfLine
import Asciidoc.Token.Shape
import Asciidoc.BlockAttributes
import Asciidoc.Element.Basic
import Asciidoc.Rules
import Asciidoc.Table.Cells
import Asciidoc.Element.Cursor
import Asciidoc.Element.Lines
import Asciidoc.Element.OfTokens
import Asciidoc.Element.Document
import Asciidoc.Settings.Basic
import Asciidoc.Settings.OfTable
import Asciidoc.Span.Basic
import Asciidoc.Span.Source
import Asciidoc.Span.Finder
import Asciidoc.Node.Basic
import Asciidoc.Node.Label
import Asciidoc.Node.Traversal
import Asciidoc.Node.Interchange
import Asciidoc.Node.Check
import Asciidoc.Node.OfElement
import Asciidoc.Log
import Asciidoc.Conversion
import Asciidoc.Processor
import Asciidoc.Config.Toml
import Asciidoc.Config.Yaml
import Asciidoc.Text.Utf8
import Asciidoc.Files.Path
import Asciidoc.Files.Tree
import Asciidoc.Config.File
import Asciidoc.Command.Arguments
import Asciidoc.Command.Overrides
import Asciidoc.Command.Session
import Asciidoc.Command.Run
import Asciidoc.Main
import Asciidoc.Proofs.Span.Places
import Asciidoc.Proofs.Span.Found
import Asciidoc.Proofs.Text.Pieces
import Asciidoc.Proofs.Token.Captures
import Asciidoc.Proofs.Span.Taken
import Asciidoc.Proofs.Span.Search
import Asciidoc.Proofs.Token.InText
import Asciidoc.Proofs.Element.Parts
import Asciidoc.Proofs.Element.Prose
import Asciidoc.Proofs.Element.Spans
import Asciidoc.Proofs.Node.Preorder
import Asciidoc.Proofs.Node.Kept
import Asciidoc.Proofs.Node.Placed
import Asciidoc.Proofs.Node.Told
import Asciidoc.Proofs.Node.InOrder
import Asciidoc.Proofs.Reading.Reads
import Asciidoc.Proofs.Reading.Lines
import Asciidoc.Proofs.Reading.OnLines
import Asciidoc.Proofs.Node.Shown
import Asciidoc.Proofs.Element.Apart
import Asciidoc.Proofs.Node.Apart
import Asciidoc.Proofs.Reading.Levels
import Asciidoc.Proofs.Node.Valid
import Asciidoc.Proofs.Element.Conflict
import Asciidoc.Proofs.Table.Pieces
import Asciidoc.Proofs.Reading.Faults
import Asciidoc.Proofs.Reading.FromText
import Asciidoc.Proofs.Reading.Progress
import Asciidoc.Proofs.Element.Hints
import Asciidoc.Proofs.Table.Numbers
import Asciidoc.Proofs.Node.Refused
import Asciidoc.Proofs.Reading.Hints
import Asciidoc.Proofs.Node.InStep
import Asciidoc.Proofs.Json.RoundTrip
import Asciidoc.Proofs.Node.RoundTrip
import Asciidoc.Proofs.Node.Lists
import Asciidoc.Proofs.Element.Down
import Asciidoc.Proofs.Reading.Down
import Asciidoc.Proofs.Reading.Below
import Asciidoc.Proofs.Element.Spelled
import Asciidoc.Proofs.Node.Moved
import Asciidoc.Proofs.Node.Alike
import Asciidoc.Proofs.Node.Below
import Asciidoc.Proofs.Text.Returns
import Asciidoc.Proofs.Node.Returns
import Asciidoc.Proofs.Element.Outside
import Asciidoc.Proofs.Reading.Verbatim
import Asciidoc.Proofs.Node.Outermost
import Asciidoc.Proofs.Span.Early
import Asciidoc.Proofs.Node.Columns
import Asciidoc.Proofs.Node.Verbatim
import Asciidoc.Proofs.Table.Gathered
import Asciidoc.Proofs.Reading.Tables
import Asciidoc.Proofs.Span.Begins
import Asciidoc.Proofs.Table.InPlace
import Asciidoc.Proofs.Node.Cells
import Asciidoc.Proofs.Span.Offsets
import Asciidoc.Proofs.Node.Consistent
import Asciidoc.Proofs.Node.Stray
import Asciidoc.Proofs.Node.Strict
import Asciidoc.Proofs.Node.Judged
import Asciidoc.Proofs.Reading.Roles
import Asciidoc.Proofs.Reading.Silent
import Asciidoc.Proofs.Node.Grammar
import Asciidoc.Proofs.Table.Rows
import Asciidoc.Proofs.Reading.Sections
import Asciidoc.Proofs.Reading.Pending
import Asciidoc.Proofs.Token.Marks
import Asciidoc.Proofs.Element.Nesting
import Asciidoc.Proofs.Reading.Bullets
import Asciidoc.Proofs.Reading.Nesting
import Asciidoc.Proofs.Table.Single
import Asciidoc.Proofs.Node.Rows
import Asciidoc.Proofs.Node.Traversal
import Asciidoc.Proofs.Settings.Accepted
import Asciidoc.Proofs.Settings.Merged
import Asciidoc.Proofs.Config.Load
import Asciidoc.Proofs.Token.Trimmed
import Asciidoc.Proofs.Config.Discovery
import Asciidoc.Proofs.Files.Append
import Asciidoc.Proofs.Command.Inputs
import Asciidoc.Proofs.Command.Isolated
import Asciidoc.Proofs.Text.LineEnds
import Asciidoc.Proofs.Command.Spans
import Asciidoc.Proofs.Table.Specifiers
import Asciidoc.Proofs.Table.Lossless
