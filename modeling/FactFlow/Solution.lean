import FactFlow.Analysis

/-!
# Solutions

A `Solution` is what an analysis knows about a function once its facts have settled: the domain,
one fact per instruction, one boundary per block (the state where facts enter the block), and the
number of passes that it took.  A solution may be read against any function; instructions and
blocks that it does not know simply have no facts.
-/

namespace FactFlow

/-- The settled facts of an analysis. -/
structure Solution (α : Type) where
  /-- The name of the analysis. -/
  name : String
  /-- The direction in which facts flowed. -/
  direction : Direction
  /-- The elements that the facts speak about. -/
  domain : Domain α
  /-- The fact of each instruction. -/
  facts : Facts
  /-- The state where facts enter each block. -/
  boundaries : Array FactSet
  /-- The number of passes over the function. -/
  passes : Nat

namespace Solution

variable {α : Type} (S : Solution α)

/-- The fact of an instruction. -/
def fact? (i : InstId) : Option FactSet := S.facts[i]?

/-- The fact of an instruction, which the caller says exists. -/
def fact (i : InstId) : Except Fault FactSet :=
  match S.fact? i with
  | some s => .ok s
  | none => .error (.entry S.facts.size i)

/-- The state where facts enter a block. -/
def boundary? (b : BlockId) : Option FactSet := S.boundaries[b]?

/-- The instruction in front of `i` in a visiting order, if `i` occurs there: `some none` when `i`
comes first. -/
def previous (i : InstId) : Option InstId → List Instruction → Option (Option InstId)
  | _, [] => none
  | prev, j :: rest => if j.id = i then some prev else previous i (some j.id) rest

/-- The state in front of an instruction of `f`: the fact of the instruction visited before it in
its block, or the boundary of the block.  The instructions of the block are looked up in `f`. -/
def before (f : Function) (i : InstId) : Except Fault (Option FactSet) :=
  match f.instruction? i with
  | none => .ok none
  | some inst => (f.bodyOf inst.block).map fun body => do
    match ← previous i none (S.direction.arrange body) with
    | some j => S.fact? j
    | none => S.boundary? inst.block

/-- The state in front of an instruction, if there is one to be found. -/
def before? (f : Function) (i : InstId) : Option FactSet := (S.before f i).toOption.join

/-- Whether element `e` is in the fact of instruction `i`. -/
def holds [DecidableEq α] (i : InstId) (e : α) : Except Fault Bool := do
  match ← S.domain.indexOf e, S.fact? i with
  | some k, some s => s.contains k
  | _, _ => .ok false

/-- The elements in the fact of an instruction, in domain order. -/
def elementsAt (i : InstId) : List α :=
  match S.fact? i with
  | some s => s.positions.filterMap S.domain.get?
  | none => []

/-! ### Listing -/

variable [ToString α]

/-- The line of a set, if there is one. -/
def setLine (lead : String) (s? : Option FactSet) : Except Fault String :=
  match s? with
  | some s => (S.domain.render s).map fun t => lead ++ t ++ "\n"
  | none => .ok ""

/-- The lines of one instruction: the boundary in front of it if facts enter the block there, the
instruction, and its fact. -/
def instListing (b : Block) (i : Instruction) : Except Fault String := do
  let entering := (S.direction.entrance? b).map (·.id) == some i.id
  let boundary ← S.setLine "    boundary " (if entering then S.boundary? b.id else none)
  let fact ← S.setLine "        " (S.fact? i.id)
  return boundary ++ "    " ++ i.text ++ "\n" ++ fact

/-- The lines of one block of `f`, whose instructions are looked up. -/
def blockListing (f : Function) (b : Block) : Except Fault String := do
  let body ← f.bodyOf b.id
  let lines ← body.mapM (S.instListing b)
  return blockName b.id ++ ":\n" ++ String.join lines

/-- The solution written beside the instructions of `f`. -/
def listing (f : Function) : Except Fault String := do
  let head := S.name ++ " over `" ++ f.name ++ "` (" ++ S.direction.text ++ ", " ++
    toString S.domain.size ++ " elements, " ++ toString S.passes ++ " passes)\n"
  let blocks ← f.blocks.mapM (S.blockListing f)
  return head ++ "domain: " ++ Domain.braced S.domain.elements ++ "\n" ++ String.join blocks

end Solution

end FactFlow
