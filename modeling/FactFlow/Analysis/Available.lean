import FactFlow.Expression
import FactFlow.Analysis

/-!
# Available expressions

An expression is available after an instruction if every path there computes it and no operand
changes afterwards.  An instruction that overwrites an operand of the expression it computes
(`x := x + y`) does not make the expression available: the value it computed is that of the old
operands.
-/

namespace FactFlow.Analysis

/-- Which expressions have been computed on every path. -/
def available : Analysis Expression where
  name := "available-expressions"
  direction := .forward
  meet := .intersect
  contribute _ i := Expression.contributed i
  transfer _ i d s := do
    let s ← Expression.kill i d s
    if Expression.overwritesOperand i then return s else Expression.generate i d s

end FactFlow.Analysis
