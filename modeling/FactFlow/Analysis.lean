import FactFlow.Direction
import FactFlow.Domain
import FactFlow.Error
import FactFlow.Meet

/-!
# Analyses

An `Analysis` over elements of type `α` says what a function's domain is and how one instruction
changes what is known.  Everything else, from joins to iteration, is common to all analyses and
lives in `FactFlow.Solve`.

Facts are stored per instruction in a `Facts`: for a forward analysis the fact of an
instruction is the state after it, for a backward analysis the state before it.
-/

namespace FactFlow

/-- One fact set per instruction. -/
abbrev Facts := Array FactSet

/-- A bit-vector analysis of functions. -/
structure Analysis (α : Type) where
  /-- Its name. -/
  name : String
  /-- The direction in which facts flow. -/
  direction : Direction
  /-- How the facts of several edges are combined. -/
  meet : Meet
  /-- The functions that the analysis accepts. -/
  precondition : Function → Except Error Unit := fun _ => .ok ()
  /-- The elements that an instruction contributes to the domain, in order. -/
  contribute : Function → Instruction → List α
  /-- The state where facts enter the function from outside. -/
  boundary : Domain α → FactSet := fun d => FactSet.none d.size
  /-- The state behind an instruction, from the state in front of it. -/
  transfer : Function → Instruction → Domain α → FactSet → Except Fault FactSet
  /-- The state that `block` receives from `neighbor`, from the state at the neighbor's end of the
  edge. -/
  alongEdge (f : Function) (block neighbor : BlockId) (facts : Facts) (d : Domain α)
    (value : FactSet) : Except Fault FactSet := .ok value

/-- The domain of an analysis on a function: what its instructions contribute, in program order. -/
def Analysis.domain {α : Type} [DecidableEq α] (A : Analysis α) (f : Function) : Domain α :=
  (Domain.ofElements (f.instructions.flatMap (A.contribute f))).freeze

/-- The same domain, found by inserting one element after the other. -/
def Analysis.discover {α : Type} [DecidableEq α] (A : Analysis α) (f : Function) :
    Except Fault (Domain α) :=
  ((f.instructions.flatMap (A.contribute f)).foldlM
    (fun (d : Domain α) e => (d.insert e).map (·.1)) .empty).map (·.freeze)

end FactFlow
