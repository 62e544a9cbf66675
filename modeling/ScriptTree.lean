import ScriptTree.Choice
import ScriptTree.Command
import ScriptTree.Command.Line
import ScriptTree.Command.Options
import ScriptTree.Command.Parameter
import ScriptTree.Exchange.Error
import ScriptTree.Exchange.Layer
import ScriptTree.Exchange.Reader
import ScriptTree.Exchange.Writer
import ScriptTree.Files
import ScriptTree.Files.Output
import ScriptTree.Generation
import ScriptTree.Json
import ScriptTree.Json.Parser
import ScriptTree.Json.Writer
import ScriptTree.Main
import ScriptTree.Node
import ScriptTree.Number.Decimal
import ScriptTree.Number.Double
import ScriptTree.Number.Shortest
import ScriptTree.Operator
import ScriptTree.Regex
import ScriptTree.Settings
import ScriptTree.Source.Braces
import ScriptTree.Source.Layout
import ScriptTree.Source.Listing
import ScriptTree.Source.Literal
import ScriptTree.Source.Place
import ScriptTree.Source.Printer
import ScriptTree.Source.Script
import ScriptTree.Source.Stream
import ScriptTree.Store
import ScriptTree.Store.Building
import ScriptTree.Store.Editing
import ScriptTree.Store.Reading
import ScriptTree.Text
import ScriptTree.Text.Alphanumeric
import ScriptTree.Text.Class
import ScriptTree.Text.Encoding
import ScriptTree.Text.Printable
import ScriptTree.Text.Terminal
import ScriptTree.Tree
import ScriptTree.Tree.Description
import ScriptTree.Tree.Equality
import ScriptTree.Tree.Error
import ScriptTree.Tree.Misuse
import ScriptTree.Proofs.Exchange.Reading
import ScriptTree.Proofs.Arithmetic.Evaluation
import ScriptTree.Proofs.Grammar.Expression
import ScriptTree.Proofs.Grammar.Parenthesization
import ScriptTree.Proofs.Grammar.PrintedExpression
import ScriptTree.Proofs.Structure.Parser
import ScriptTree.Proofs.Structure.Printing
import ScriptTree.Proofs.Exchange.Drafts
import ScriptTree.Proofs.Exchange.Recognition
import ScriptTree.Proofs.Exchange.Restoration
import ScriptTree.Proofs.Exchange.RoundTrip
import ScriptTree.Proofs.Exchange.Slots
import ScriptTree.Proofs.Exchange.Soundness
import ScriptTree.Proofs.Exchange.Canonical
import ScriptTree.Proofs.Exchange.Normalization
import ScriptTree.Proofs.Exchange.Rounding
import ScriptTree.Proofs.Exchange.Directive
import ScriptTree.Proofs.Exchange.Unread
import ScriptTree.Proofs.Store.Reachability
import ScriptTree.Proofs.Store.Regions
import ScriptTree.Proofs.Store.Showing
import ScriptTree.Proofs.Store.Filling
import ScriptTree.Proofs.Store.Chains
import ScriptTree.Proofs.Store.Making
import ScriptTree.Proofs.Store.Shapes
import ScriptTree.Proofs.Store.Failing
import ScriptTree.Proofs.Store.Reading
import ScriptTree.Proofs.Store.InPlace
import ScriptTree.Proofs.Store.Keeping
import ScriptTree.Proofs.Store.Identity
import ScriptTree.Proofs.Source.Placed
import ScriptTree.Proofs.Source.Printed
import ScriptTree.Proofs.Source.Levels
import ScriptTree.Proofs.Source.Rendering
import ScriptTree.Proofs.Source.Failure
import ScriptTree.Proofs.Source.Contracts
import ScriptTree.Proofs.Source.Sequence
import ScriptTree.Proofs.Source.OpenLevels
import ScriptTree.Proofs.Lexical.Boundary
import ScriptTree.Proofs.Lexical.Literals
import ScriptTree.Proofs.Lexical.StringValue
import ScriptTree.Proofs.Lexical.NumberValue
import ScriptTree.Proofs.Lexical.RegularExpression
import ScriptTree.Proofs.Lexical.Opening
import ScriptTree.Proofs.Lexical.Printing
import ScriptTree.Proofs.Lexical.Modes
import ScriptTree.Proofs.Command.Atomicity
import ScriptTree.Proofs.Source.Buffering
import ScriptTree.Proofs.Source.Canonical
import ScriptTree.Proofs.Source.Outline
import ScriptTree.Proofs.Source.ArrayLiteral
import ScriptTree.Proofs.Source.Occurrence
import ScriptTree.Proofs.Source.LineBreaks
import ScriptTree.Proofs.Structure.Representation
import ScriptTree.Proofs.Structure.Functions
import ScriptTree.Proofs.Encoding
import ScriptTree.Proofs.Settings
import ScriptTree.Proofs.Files.Walking
import ScriptTree.Proofs.Files.Naming
import ScriptTree.Proofs.Files.Overwriting
import ScriptTree.Proofs.Files.Ways
import ScriptTree.Proofs.Command.Line
import ScriptTree.Proofs.Command.Header
import ScriptTree.Proofs.Command.Requests
import ScriptTree.Proofs.Command.Repetition
import ScriptTree.Proofs.Source.Pieces
import ScriptTree.Proofs.Source.Encodable
