import Jsonnet.Eval.Run
import Jsonnet.Text.Quoted
import Jsonnet.Value.Describe
import Jsonnet.Number.BitPattern
import Jsonnet.Syntax.TermReader
import Jsonnet.Proofs.Simulation
import Jsonnet.Proofs.Transparency
import Jsonnet.Proofs.StackLimit
import Jsonnet.Proofs.ScopeSafety
import Jsonnet.Proofs.Scoping
import Jsonnet.Proofs.Mixins
import Jsonnet.Proofs.Forcing
import Jsonnet.Proofs.Lookup
import Jsonnet.Proofs.Genuine
import Jsonnet.Proofs.Making
import Jsonnet.Proofs.MakingActions
import Jsonnet.Proofs.MakingRuns
import Jsonnet.Proofs.Assertions
import Jsonnet.Proofs.Clients
import Jsonnet.Proofs.Giving
import Jsonnet.Proofs.Outcomes
import Jsonnet.Proofs.Kept
import Jsonnet.Proofs.FieldQueries
import Jsonnet.Proofs.FieldSums
import Jsonnet.Proofs.Compilations
import Jsonnet.Proofs.Layouts
import Jsonnet.Proofs.Legibility
import Jsonnet.Proofs.Equality
import Jsonnet.Proofs.Orders
import Jsonnet.Proofs.TotalOrder
import Jsonnet.Proofs.Numerals
import Jsonnet.Proofs.Reading
import Jsonnet.Proofs.Rereading
import Jsonnet.Proofs.Storing
import Jsonnet.Proofs.Documents
import Jsonnet.Proofs.Recoding
import Jsonnet.Proofs.Mirroring
import Jsonnet.Proofs.RecodedActions
import Jsonnet.Proofs.RecodedLibrary
import Jsonnet.Proofs.RecodedExpressions
import Jsonnet.Proofs.Traps
import Jsonnet.Proofs.Frames
import Jsonnet.Proofs.FiniteNumbers
import Jsonnet.Proofs.Standards
import Jsonnet.Proofs.Measuring
import Jsonnet.Proofs.Holding
import Jsonnet.Proofs.Finiteness
import Jsonnet.Proofs.DeadCode
import Jsonnet.Proofs.Reordering
import Jsonnet.Proofs.Independence
import Jsonnet.Proofs.Termination
import Jsonnet.Proofs.Arguments
import Jsonnet.Proofs.Characters
import Jsonnet.Proofs.ImportSearch
import Jsonnet.Proofs.Traces
import Jsonnet.Proofs.Tandem
import Jsonnet.Proofs.Interning
import Jsonnet.Proofs.Words
import Jsonnet.Proofs.Saturation
import Jsonnet.Proofs.Locals
import Jsonnet.Proofs.Positions
import Jsonnet.Proofs.Construction
