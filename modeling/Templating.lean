import Templating.Base.Ambient
import Templating.Base.Forwarding
import Templating.Code.Expression
import Templating.Code.Grammar
import Templating.Code.Item
import Templating.Code.Lexeme
import Templating.Code.Phrase
import Templating.Code.Reader
import Templating.Code.Scan
import Templating.Code.Token
import Templating.Code.Type
import Templating.CommandLine.Arguments
import Templating.CommandLine.Imports
import Templating.CommandLine.Program
import Templating.Compiler
import Templating.Diagnostic
import Templating.Directive
import Templating.Disk.Basic
import Templating.Disk.Tree
import Templating.Main
import Templating.Markup.Implicit
import Templating.Markup.Node
import Templating.Markup.Piece
import Templating.Markup.Reading
import Templating.Markup.Region
import Templating.Markup.Tag
import Templating.Naming
import Templating.Number.Binary
import Templating.Number.Shortest
import Templating.Options
import Templating.Page.Build
import Templating.Page.Document
import Templating.Page.Statement
import Templating.Proofs.Base.Applicability
import Templating.Proofs.Base.Default
import Templating.Proofs.Base.Instantiation
import Templating.Proofs.Base.Parameters
import Templating.Proofs.Base.Signature
import Templating.Proofs.Code.Balanced
import Templating.Proofs.Code.Boundary
import Templating.Proofs.Code.Crossing
import Templating.Proofs.Code.Extent
import Templating.Proofs.Code.Grain
import Templating.Proofs.Code.Lexing
import Templating.Proofs.Code.Name
import Templating.Proofs.Code.Outline
import Templating.Proofs.Code.Pairing
import Templating.Proofs.Code.Run
import Templating.Proofs.Code.Scan
import Templating.Proofs.Code.Spells
import Templating.Proofs.Code.Takes
import Templating.Proofs.Code.TypePath
import Templating.Proofs.Code.Unique
import Templating.Proofs.Code.UseTree
import Templating.Proofs.CommandLine.Delivery
import Templating.Proofs.CommandLine.Imports
import Templating.Proofs.Compiler.Balance
import Templating.Proofs.Compiler.Cache
import Templating.Proofs.Compiler.Listing
import Templating.Proofs.Compiler.Names
import Templating.Proofs.Compiler.Namespace
import Templating.Proofs.Compiler.Reported
import Templating.Proofs.Compiler.Returns
import Templating.Proofs.Disk.Change
import Templating.Proofs.Disk.Tree
import Templating.Proofs.Markup.Advance
import Templating.Proofs.Markup.Announced
import Templating.Proofs.Markup.Body
import Templating.Proofs.Markup.Codes
import Templating.Proofs.Markup.Comment
import Templating.Proofs.Markup.Denoted
import Templating.Proofs.Markup.Implicit
import Templating.Proofs.Markup.Kept
import Templating.Proofs.Markup.Located
import Templating.Proofs.Markup.Mark
import Templating.Proofs.Markup.Places
import Templating.Proofs.Markup.Printer
import Templating.Proofs.Markup.Ranges
import Templating.Proofs.Markup.Reading
import Templating.Proofs.Markup.Region
import Templating.Proofs.Markup.RoundTrip
import Templating.Proofs.Markup.Scanned
import Templating.Proofs.Markup.ScannedTrees
import Templating.Proofs.Markup.Sign
import Templating.Proofs.Markup.Spelling
import Templating.Proofs.Markup.Strand
import Templating.Proofs.Markup.Tag
import Templating.Proofs.Markup.WellFormed
import Templating.Proofs.Markup.Woven
import Templating.Proofs.Offset.Compile
import Templating.Proofs.Offset.Construct
import Templating.Proofs.Offset.Implicit
import Templating.Proofs.Offset.Progress
import Templating.Proofs.Offset.Reading
import Templating.Proofs.Offset.Recovery
import Templating.Proofs.Offset.Region
import Templating.Proofs.Offset.Scan
import Templating.Proofs.Offset.Slash
import Templating.Proofs.Offset.Slice
import Templating.Proofs.Offset.Tag
import Templating.Proofs.Page.Attributes
import Templating.Proofs.Page.Build
import Templating.Proofs.Page.Calls
import Templating.Proofs.Page.Codes
import Templating.Proofs.Page.Comment
import Templating.Proofs.Page.Containment
import Templating.Proofs.Page.Lines
import Templating.Proofs.Page.Lowering
import Templating.Proofs.Page.Names
import Templating.Proofs.Page.Order
import Templating.Proofs.Page.Pipeline
import Templating.Proofs.Page.Places
import Templating.Proofs.Page.Plain
import Templating.Proofs.Page.Precedence
import Templating.Proofs.Page.Reported
import Templating.Proofs.Page.Returns
import Templating.Proofs.Page.Snippets
import Templating.Proofs.Render.Attribute
import Templating.Proofs.Render.Brackets
import Templating.Proofs.Render.Cancellation
import Templating.Proofs.Render.Closure
import Templating.Proofs.Render.Encoded
import Templating.Proofs.Render.Layouts
import Templating.Proofs.Render.Mirror
import Templating.Proofs.Render.Moment
import Templating.Proofs.Render.Once
import Templating.Proofs.Render.Provenance
import Templating.Proofs.Render.Sections
import Templating.Proofs.Render.Sink
import Templating.Proofs.Render.Standalone
import Templating.Proofs.Render.Steady
import Templating.Proofs.Render.Suspension
import Templating.Proofs.Render.Task
import Templating.Proofs.Render.Trace
import Templating.Proofs.Render.World
import Templating.Proofs.Render.Writer
import Templating.Proofs.Text.Ahead
import Templating.Proofs.Text.Blank
import Templating.Proofs.Text.Cursor
import Templating.Proofs.Text.Halved
import Templating.Proofs.Text.Listing
import Templating.Proofs.Text.Literal
import Templating.Proofs.Text.Path
import Templating.Proofs.Text.Position
import Templating.Proofs.Text.Returns
import Templating.Proofs.Text.Separated
import Templating.Proofs.Text.Split
import Templating.Proofs.Unit.Documentation
import Templating.Proofs.Unit.Emission
import Templating.Proofs.Unit.Layout
import Templating.Proofs.Unit.Lines
import Templating.Proofs.Unit.Literals
import Templating.Proofs.Unit.Relaid
import Templating.Proofs.Unit.Returns
import Templating.Proofs.Unit.Statements
import Templating.Proofs.Unit.Tokens
import Templating.Proofs.Unit.Written
import Templating.Render.Encoded
import Templating.Render.Error
import Templating.Render.Execution
import Templating.Render.ModelBase
import Templating.Render.Program
import Templating.Render.Rendering
import Templating.Render.Script
import Templating.Render.Signal
import Templating.Render.Task
import Templating.Render.Template
import Templating.Render.Value
import Templating.Render.World
import Templating.Render.Writer
import Templating.Source
import Templating.Text.Blank
import Templating.Text.Bytes
import Templating.Text.Cursor
import Templating.Text.Folding
import Templating.Text.Letter
import Templating.Text.Name
import Templating.Text.Quoted
import Templating.Text.Ranges
import Templating.Text.Visible
import Templating.Text.Word
import Templating.Unit.Emission
import Templating.Unit.Line
