import FactFlow.Fault
import FactFlow.Program.Instruction

/-!
# Functions

A function is a sequence of blocks, each a sequence of instructions; block `b` of the sequence has
number `b`, and block `0` is the entry.  Control flow is read off the last instruction of each
block: `Block.successors` are its targets, and `Function.sources` lists the blocks that lead to a
block, once per edge and in ascending order.

An edge is *critical* when its source has several outgoing edges and its target several incoming
ones (`Function.criticalEdges`); no instruction can be placed on such an edge.
-/

namespace FactFlow

/-- A block: instructions executed one after another. -/
structure Block where
  /-- Its number. -/
  id : BlockId
  /-- Its instructions, in order. -/
  body : List Instruction
  deriving DecidableEq, Repr

namespace Block

/-- The first instruction. -/
def first? (b : Block) : Option Instruction := b.body.head?

/-- The last instruction. -/
def last? (b : Block) : Option Instruction := b.body.getLast?

/-- The blocks that control may go to from the end of the block, one entry per edge. -/
def successors (b : Block) : List BlockId :=
  match b.last? with
  | some i => i.targets
  | none => []

/-- The leading phis. -/
def phis (b : Block) : List Instruction := b.body.takeWhile (·.kind.isPhi)

/-- The printed form of a block: its name and the instructions in it. -/
def text (b : Block) : String :=
  blockName b.id ++ " [" ++ ", ".intercalate (b.body.map fun i => instName i.id) ++ "]"

end Block

/-- A function in control-flow form. -/
structure Function where
  /-- Its name. -/
  name : String
  /-- The number of parameters. -/
  params : Nat
  /-- The number of local slots. -/
  slots : Nat
  /-- Its blocks; block `b` is entry `b`. -/
  blocks : List Block
  deriving DecidableEq, Repr

namespace Function

variable (f : Function)

/-- The number of the entry block. -/
def entry : BlockId := 0

/-- All instructions in program order: block by block. -/
def instructions : List Instruction := f.blocks.flatMap (·.body)

/-- The number of blocks. -/
def blockCount : Nat := f.blocks.length

/-- The number of instructions. -/
def instCount : Nat := f.instructions.length

/-- The block of a number. -/
def block? (b : BlockId) : Option Block := f.blocks[b]?

/-- The instruction of a number. -/
def instruction? (i : InstId) : Option Instruction := f.instructions.find? (·.id == i)

/-- The block of a number, which the caller says exists. -/
def block (b : BlockId) : Except Fault Block :=
  match f.block? b with
  | some blk => .ok blk
  | none => .error (.entry f.blockCount b)

/-- The instruction of a number, which the caller says exists. -/
def instruction (i : InstId) : Except Fault Instruction :=
  match f.instruction? i with
  | some inst => .ok inst
  | none => .error (.entry f.instCount i)

/-- The instructions of a block, each of them looked up. -/
def bodyOf (b : BlockId) : Except Fault (List Instruction) := do
  let blk ← f.block b
  blk.body.mapM fun i => f.instruction i.id

/-- The blocks with an edge to `b`, ascending, one entry per edge. -/
def sources (b : BlockId) : List BlockId :=
  f.blocks.flatMap fun a => (a.successors.filter (· == b)).map fun _ => a.id

/-- The blocks that `b` leads to, one entry per edge. -/
def successors (b : BlockId) : Except Fault (List BlockId) := (f.block b).map (·.successors)

/-- The blocks that lead to `b`, one entry per edge. -/
def predecessors (b : BlockId) : Except Fault (List BlockId) :=
  (f.block b).map fun blk => f.sources blk.id

/-- The blocks that control does not leave for another block. -/
def exits : List BlockId := (f.blocks.filter (·.successors.isEmpty)).map (·.id)

/-- The critical edges, by source and then by arm: both ends have another edge. -/
def criticalEdges : List (BlockId × BlockId) :=
  f.blocks.flatMap fun a =>
    if a.successors.length < 2 then []
    else (a.successors.filter fun b => 1 < (f.sources b).length).map fun b => (a.id, b)

/-- Whether some edge is critical. -/
def hasCriticalEdge : Bool := !f.criticalEdges.isEmpty

/-- The printed form of a function. -/
def text : String :=
  "function " ++ f.name ++ "(" ++ toString f.params ++ " params, " ++ toString f.slots ++
    " locals) \x7b\n" ++
    String.join (f.blocks.map fun b =>
      blockName b.id ++ ":\n" ++ String.join (b.body.map fun i => "    " ++ i.text ++ "\n")) ++
    "\x7d"

end Function

/-- A program: functions in order. -/
structure Program where
  /-- Its functions. -/
  functions : List Function
  deriving DecidableEq, Repr

namespace Program

/-- No functions. -/
def empty : Program := ⟨[]⟩

/-- A function added at the end. -/
def add (p : Program) (f : Function) : Program := ⟨p.functions ++ [f]⟩

/-- The first function of a name, with its place in the program. -/
def find? (p : Program) (name : String) : Option (Nat × Function) :=
  (p.functions.zipIdx.find? (·.1.name == name)).map fun (f, k) => (k, f)

end Program

end FactFlow
