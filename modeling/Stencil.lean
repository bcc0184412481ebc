import Stencil.Main
import Stencil.Proofs.Graph
import Stencil.Proofs.OperationSet
import Stencil.Proofs.Execution.Composition
import Stencil.Proofs.Execution.Trace
import Stencil.Proofs.Execution.Writes
import Stencil.Proofs.Execution.Nesting
import Stencil.Proofs.Condition.Grammar
import Stencil.Proofs.Source.Line
import Stencil.Proofs.Source.Declaration
import Stencil.Proofs.Source.DeclarationOrder
import Stencil.Proofs.Rearrangement
import Stencil.Proofs.Sorting
import Stencil.Proofs.Sorting.Places
import Stencil.Proofs.Source.Layout
import Stencil.Proofs.Source.IncludeBlock
import Stencil.Proofs.Source.Format
import Stencil.Proofs.Source.Place
import Stencil.Proofs.Source.CaseBody
import Stencil.Proofs.Source.IncludeOrder
import Stencil.Proofs.Source.Stability
import Stencil.Proofs.Source.LineEnds
import Stencil.Proofs.Source.Offset
import Stencil.Proofs.Source.Brace
import Stencil.Proofs.Source.Jump
import Stencil.Proofs.Source.Operator
import Stencil.Proofs.Source.Dependence
import Stencil.Proofs.Condition.Spelling
import Stencil.Proofs.Condition.Printing
import Stencil.Proofs.Condition.Names
import Stencil.Proofs.Condition.Concatenation
import Stencil.Proofs.Condition.Membership
import Stencil.Proofs.Template.Printing
import Stencil.Proofs.Template.Fault
import Stencil.Proofs.Operation.Fields
import Stencil.Proofs.Operation.Document
import Stencil.Proofs.Operation.RoundTrip
import Stencil.Proofs.Operation.Options
import Stencil.Proofs.Operation.Modifier
import Stencil.Proofs.Store.Ways
import Stencil.Proofs.Store.Writing
import Stencil.Proofs.Generation
import Stencil.Proofs.Session
import Stencil.Proofs.Execution.Visibility
import Stencil.Proofs.Execution.Placeholders
import Stencil.Proofs.Execution.Failure
import Stencil.Proofs.Execution.Conditions
import Stencil.Proofs.Generation.Text
import Stencil.Proofs.Generation.Reachability
import Stencil.Proofs.Generation.Persistence
import Stencil.Proofs.Path
import Stencil.Proofs.Path.Spelling
import Stencil.Proofs.Output
import Stencil.Proofs.Store.Tree
import Stencil.Proofs.Store.Temporary
import Stencil.Proofs.Reformatting.Run
import Stencil.Proofs.Reformatting
import Stencil.Proofs.Text.Bytes
import Stencil.Proofs.Condition.Bytes
import Stencil.Proofs.Source.Arrangement
import Stencil.Proofs.Scopes.Moves
import Stencil.Proofs.Scopes.Blocks
import Stencil.Proofs.Loading
import Stencil.Proofs.Generation.Precedence
