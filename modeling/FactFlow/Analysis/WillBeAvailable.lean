import FactFlow.Analysis.Anticipated
import FactFlow.Solve

/-!
# Will-be-available expressions

An expression will be available at a point if computing it wherever it is anticipated makes it
available there.  The analysis builds on the solution of the anticipated expressions: its own
facts only follow which expressions survive (`willBeAvailable`), and the anticipated facts are then
added to them (`WillBeAvailable.addAnticipated`).

The anticipated solution is handed in by the caller and may belong to another function, so its
number of facts and its domain are compared with those of the function at hand.
-/

namespace FactFlow.Analysis

/-- Which expressions survive from where they were anticipated. -/
def willBeAvailable (ant : Solution Expression) : Analysis Expression where
  name := "will-be-available-expressions"
  direction := .forward
  meet := .intersect
  precondition f := do
    noCriticalEdge f
    if ant.facts.size = f.instCount then .ok ()
    else .error (.resultMismatch f.instCount ant.facts.size)
  contribute _ i := Expression.contributed i
  transfer _ i d s := Expression.kill i d s

namespace WillBeAvailable

/-- Add the positions of `t` to `s`, if there is a `t`. -/
def joined (s : FactSet) (t : Option FactSet) : Except Fault FactSet :=
  match t with
  | some t => (s.unionWith t).map (·.1)
  | none => .ok s

/-- Add the anticipated facts: to each fact that of the same instruction, to the boundary of each
block that of its first instruction. -/
def addAnticipated (f : Function) (own ant : Solution Expression) :
    Traced (Solution Expression) := do
  if own.domain.agrees ant.domain then
    let facts ← .ofFault (own.facts.toList.zipIdx.mapM fun (s, i) => joined s (ant.fact? i))
    let boundaries ← .ofFault (own.boundaries.toList.zipIdx.mapM fun (s, b) =>
      joined s ((f.block? b).bind (·.first?) |>.bind fun i => ant.fact? i.id))
    return { own with facts := facts.toArray, boundaries := boundaries.toArray }
  else
    .fail (.refused (.domainMismatch own.domain.size ant.domain.size))

/-- The will-be-available expressions of a function, given its anticipated ones. -/
def solve (ant : Solution Expression) (f : Function) : Traced (Solution Expression) := do
  let own ← (willBeAvailable ant).solve f
  addAnticipated f own ant

end WillBeAvailable

end FactFlow.Analysis
