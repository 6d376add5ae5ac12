import FactFlow.Expression
import FactFlow.Analysis

/-!
# Anticipated expressions

An expression is anticipated before an instruction if every path from there computes it before any
operand changes.  Computations are placed on edges by users of this analysis, so functions with
critical edges are refused.
-/

namespace FactFlow.Analysis

/-- Accepts functions without critical edges; the error names the first one. -/
def noCriticalEdge (f : Function) : Except Error Unit :=
  match f.criticalEdges with
  | [] => .ok ()
  | (source, target) :: _ => .error (.criticalEdge source target)

/-- Which expressions will be computed on every path. -/
def anticipated : Analysis Expression where
  name := "anticipated-expressions"
  direction := .backward
  meet := .intersect
  precondition := noCriticalEdge
  contribute _ i := Expression.contributed i
  transfer _ i d s := do
    let s ← Expression.kill i d s
    Expression.generate i d s

end FactFlow.Analysis
