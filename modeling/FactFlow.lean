import FactFlow.Proofs.Analysis.Composition
import FactFlow.Proofs.Analysis.Convergence
import FactFlow.Proofs.Analysis.Coverage
import FactFlow.Proofs.Analysis.Discovery
import FactFlow.Proofs.Analysis.OperandsLive
import FactFlow.Proofs.FactSet.Cursor
import FactFlow.Proofs.FactSet.MeetLaws
import FactFlow.Proofs.Printing.Unambiguous
import FactFlow.Proofs.Program.Record
import FactFlow.Proofs.Solve.Agreement
import FactFlow.Proofs.Solve.Bound
import FactFlow.Proofs.Solve.ForwardLayout
import FactFlow.Proofs.Solve.VisitingOrder
import FactFlow.Proofs.Survey
