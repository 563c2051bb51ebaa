import Stencil.Text.Html
import Stencil.Text.Search
import Stencil.Text.Case
import Stencil.Number.Numeral
import Stencil.Number.Shortest
import Stencil.Number.Decimal
import Stencil.Calendar.Format
import Stencil.Calendar.Reader
import Stencil.Json.Writer
import Stencil.Json.Reader
import Stencil.Json.Scale
import Stencil.Json.Record
import Stencil.Entries
import Stencil.Digest
import Stencil.Value
import Stencil.Error
import Stencil.Value.Datum
import Stencil.Path
import Stencil.Comparison
import Stencil.Template
import Stencil.Token.Scan
import Stencil.Template.Assembly
import Stencil.Helper.Builtin
import Stencil.Main
import Stencil.Proofs.Template.Pieces
import Stencil.Proofs.Token.Pairing
import Stencil.Proofs.Template.Nesting
import Stencil.Proofs.Template.Blocks
import Stencil.Proofs.Template.OpenBlocks
import Stencil.Proofs.Token.Lexemes
import Stencil.Proofs.Render.Balance
import Stencil.Proofs.Render.Calls
import Stencil.Proofs.Render.Levels
import Stencil.Proofs.Json.Scalars
import Stencil.Proofs.Json.RoundTrip
import Stencil.Proofs.Template.RoundTrip
import Stencil.Proofs.Engine.Simulation
import Stencil.Proofs.Text.Entities
import Stencil.Proofs.Engine.Escape
import Stencil.Proofs.Cache.Transparent
import Stencil.Proofs.Engine.Session
import Stencil.Proofs.Cache.Files
import Stencil.Proofs.Cache.Directory
import Stencil.Proofs.Cache.FiniteMap
import Stencil.Proofs.Token.Bounds
import Stencil.Proofs.Token.Scans
import Stencil.Proofs.Token.Locality
import Stencil.Proofs.Token.TagStarts
import Stencil.Proofs.Token.Words
import Stencil.Proofs.Token.Printing
import Stencil.Proofs.Token.RawBlocks
import Stencil.Proofs.Token.Quotes
import Stencil.Proofs.Template.Storable
import Stencil.Proofs.Engine.Sources
import Stencil.Proofs.Engine.DiskSession
import Stencil.Proofs.Template.Lines
import Stencil.Proofs.Template.Concat
import Stencil.Proofs.Template.Faults
import Stencil.Proofs.Template.FaultLines
import Stencil.Proofs.Helper.Errors
import Stencil.Proofs.Helper.Dates
import Stencil.Proofs.Render.Errors
import Stencil.Proofs.Render.Termination
import Stencil.Proofs.Engine.Termination
import Stencil.Proofs.Scope.Resolution
import Stencil.Proofs.Scope.Agreement
import Stencil.Proofs.Template.Paths
import Stencil.Proofs.Template.WellFormed
import Stencil.Proofs.Helper.Related
import Stencil.Proofs.Render.Coupling
import Stencil.Proofs.Engine.DataVariables
import Stencil.Proofs.Template.PartialNames
import Stencil.Proofs.Loader.Inclusion
import Stencil.Proofs.Template.Expansion
import Stencil.Proofs.Render.Expansion
import Stencil.Proofs.Helper.Requests
import Stencil.Proofs.Render.Outward
import Stencil.Proofs.Render.Conditions
import Stencil.Proofs.Render.NestingLimit
import Stencil.Proofs.Render.Trace
import Stencil.Proofs.Render.Fragments
import Stencil.Proofs.FileTree.Paths
import Stencil.Proofs.FileTree.Files
import Stencil.Proofs.Loader.Confinement
import Stencil.Proofs.Loader.Directory
import Stencil.Proofs.Number.Whole
import Stencil.Proofs.Helper.Turns
import Stencil.Proofs.Render.SelfContained
import Stencil.Proofs.Render.Loops
import Stencil.Proofs.Render.Transparent
import Stencil.Proofs.Path.Spelling
import Stencil.Proofs.Scope.LoopVariables
import Stencil.Proofs.Scope.Marks
import Stencil.Proofs.Render.Written
import Stencil.Proofs.Render.Nests
import Stencil.Proofs.Path.Slices
import Stencil.Proofs.Number.Numerals
import Stencil.Proofs.Number.Grammar
import Stencil.Proofs.Number.Positions
import Stencil.Proofs.Comparison.Grammar
import Stencil.Proofs.Comparison.Laws
import Stencil.Proofs.Comparison.Respelled
import Stencil.Proofs.Value.MapCalls
import Stencil.Proofs.Value.Data
