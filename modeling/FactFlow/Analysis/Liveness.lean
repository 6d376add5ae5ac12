import FactFlow.Analysis

/-!
# Live variables

A variable is live before an instruction if some path from there reads it before writing it.

The operands of a phi are read on the edges that lead to it: along the edge from `block` only the
alternative of `block` is read, and the phis of the target are all written at once.  So a block
does not receive the state in front of its successor's phis but the state behind them, without the
variables they define and with the values they take along this edge (`Liveness.alongEdge`).
-/

namespace FactFlow.Analysis

namespace Liveness

/-- Take out a variable, if it is in the domain. -/
def define (d : Domain Value) (s : FactSet) (v : Value) : Except Fault FactSet := do
  match ← d.indexOf v with
  | some k => s.erase k
  | none => .ok s

/-- Add a variable, if it is in the domain. -/
def read (d : Domain Value) (s : FactSet) (v : Value) : Except Fault FactSet := do
  match ← d.indexOf v with
  | some k => s.insert k
  | none => .ok s

/-- The state in front of an instruction: without what it defines, with what it reads. -/
def transfer (i : Instruction) (d : Domain Value) (s : FactSet) : Except Fault FactSet := do
  let s ← i.result.toList.foldlM (define d) s
  i.operands.foldlM (read d) s

/-- The state at the end of `block` along its edge to `neighbor`. -/
def alongEdge (f : Function) (block neighbor : BlockId) (facts : Facts) (d : Domain Value)
    (value : FactSet) : Except Fault FactSet := do
  let target ← f.block neighbor
  let phis := target.phis
  if phis.isEmpty then return value
  match target.body[phis.length]?.bind fun i => facts[i.id]? with
  | none => return value
  | some behind =>
    -- the phis are written together, so a variable that one of them defines may still be read
    -- along this edge by another
    let s ← (phis.filterMap (·.result)).foldlM (define d) behind
    let taken := (phis.flatMap (·.kind.incoming)).filter (·.source == block)
    (taken.map (·.value)).foldlM (read d) s

end Liveness

/-- Which variables may be read before they are written. -/
def liveness : Analysis Value where
  name := "liveness"
  direction := .backward
  meet := .union
  contribute _ i := i.operands.filter (·.isVariable)
  transfer _ i d s := Liveness.transfer i d s
  alongEdge := Liveness.alongEdge

end FactFlow.Analysis
