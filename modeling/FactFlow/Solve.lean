import FactFlow.Journal
import FactFlow.Solution

/-!
# Solving an analysis

`Analysis.solve` starts every fact at the identity of the meet and passes over the function until a
pass changes nothing.

A pass (`Analysis.pass`) visits blocks in a given order.  The state where facts enter a block
(`Analysis.blockInput`) is the boundary value if the block has no neighbors, and else the meet of
what its neighbors send.  It is then pushed through the block's instructions (`Analysis.flow`);
each fact is stored at once, so later blocks of the same pass already see it.

`Analysis.settle` repeats passes, at most as often as it is told.  What a pass does depends on the
facts alone, so a run that comes back to an earlier table changes facts forever.  `solve` therefore
stops after as many passes as there are tables (`Analysis.tableCount`).
-/

namespace FactFlow

/-- The tables that passes work on. -/
structure Tables where
  /-- The fact of each instruction. -/
  facts : Facts
  /-- The state where facts enter each block. -/
  boundaries : Array FactSet
  deriving DecidableEq

/-- The boundaries with `s` on record for block `b`, which must have a place among them. -/
def Tables.record (t : Tables) (b : BlockId) (s : FactSet) : Except Fault (Array FactSet) :=
  if b < t.boundaries.size then .ok (t.boundaries.setIfInBounds b s)
  else .error (.entry t.boundaries.size b)

namespace Analysis

variable {α : Type} (A : Analysis α) (f : Function) (d : Domain α)

/-- What a block receives from one neighbor; nothing if the neighbor has no fact to send. -/
def received (facts : Facts) (b : Block) (neighbor : BlockId) :
    Except Fault (Option FactSet) :=
  match (f.block? neighbor).bind A.direction.exit? |>.bind fun i => facts[i.id]? with
  | some value => (A.alongEdge f b.id neighbor facts d value).map some
  | none => .ok none

/-- The state where facts enter a block. -/
def blockInput (boundary : FactSet) (facts : Facts) (b : Block) : Except Fault FactSet :=
  match A.direction.neighbors f b with
  | [] => .ok boundary
  | neighbors => do
    let values ← neighbors.mapM (A.received f d facts b)
    A.meet.meetList d.size (values.filterMap id)

/-- Push a state through instructions, storing each fact that changes; the answer counts them. -/
def flow : List Instruction → FactSet → Facts → Except Fault (Facts × Nat)
  | [], _, facts => .ok (facts, 0)
  | i :: rest, state, facts => do
    let output ← A.transfer f i d state
    -- compare before storing: the count is what tells a settled table from a moving one
    let changed ← match facts[i.id]? with
      | some stored => output.differsFrom stored
      | none => .ok false
    if changed then
      let (facts, n) ← flow rest output (facts.setIfInBounds i.id output)
      return (facts, n + 1)
    else
      flow rest output facts

/-- Visit one block: record the state where facts enter it, look up its instructions, and push the
state through them. -/
def visit (boundary : FactSet) (t : Tables) (b : Block) : Except Fault (Tables × Nat) := do
  let state ← A.blockInput f d boundary t.facts b
  let boundaries ← t.record b.id state
  let body ← f.bodyOf b.id
  let (facts, n) ← A.flow f d (A.direction.arrange body) state t.facts
  return (⟨facts, boundaries⟩, n)

/-- Visit blocks in the given order; the answer counts the facts that changed. -/
def pass (boundary : FactSet) : List Block → Tables → Except Fault (Tables × Nat)
  | [], t => .ok (t, 0)
  | b :: rest, t => do
    let (t, n) ← A.visit f d boundary t b
    let (t, k) ← pass boundary rest t
    return (t, n + k)

/-- The tables before the first pass. -/
def start (boundary : FactSet) : Tables where
  facts := Array.replicate f.instCount (A.meet.unit d.size)
  boundaries := Array.replicate f.blockCount boundary

/-- Repeat passes, of which `done` are behind, until one changes nothing; at most `limit` more. -/
def settle (boundary : FactSet) (order : List Block) :
    (limit done : Nat) → Tables → Traced (Tables × Nat)
  | 0, _, _ => .fail .unsettled
  | limit + 1, done, t => do
    let (t, changed) ← .ofFault (A.pass f d boundary order t)
    .emit .trace (A.name ++ ": pass " ++ toString (done + 1) ++ " over `" ++ f.name ++
      "` changed " ++ toString changed ++ " facts")
    if changed = 0 then return (t, done + 1)
    else settle boundary order limit (done + 1) t

/-- The number of tables with one set for each instruction, as wide as the identity of the meet. -/
def tableCount : Nat := Nat.pow 2 (f.instCount * (A.meet.unit d.size).width)

/-- The settled facts of the analysis on a function. -/
def solve [DecidableEq α] : Traced (Solution α) := do
  .ofError (A.precondition f)
  let d ← .ofFault (A.discover f)
  let boundary := A.boundary d
  if boundary.width ≠ d.size then
    .fail (.fault (.boundaryWidth A.name boundary.width d.size))
  else
    .emit .debug (A.name ++ ": solving `" ++ f.name ++ "` (" ++ A.direction.text ++
      " direction, " ++ A.meet.text ++ " meet, " ++ toString f.blockCount ++ " blocks, " ++
      toString d.size ++ " domain elements)")
    let (t, passes) ← A.settle f d boundary (A.direction.schedule f) (A.tableCount f d) 0
      (A.start f d boundary)
    .emit .debug (A.name ++ ": `" ++ f.name ++ "` converged after " ++ toString passes ++
      " passes")
    return {
      name := A.name
      direction := A.direction
      domain := d
      facts := t.facts
      boundaries := t.boundaries
      passes }

end Analysis

end FactFlow
