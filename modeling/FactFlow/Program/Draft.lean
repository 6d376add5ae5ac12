import FactFlow.Error
import FactFlow.Program.Function

/-!
# Drafts

A `Draft` collects slots, blocks and instructions in any order and with any names.
`Draft.toFunction` turns it into a `Function`, or says what is wrong with it.

`Draft.problems` lists everything that is wrong, in a fixed order of inspection: that there are
blocks, where each instruction was placed and what it writes, the shape of each block, the targets
and operands of each instruction, and the sources that phis name.  A draft without problems is
`Draft.assemble`d; otherwise the first problem is the answer.
-/

namespace FactFlow

/-- An instruction as it was handed in. -/
structure Entry where
  /-- The block it was placed in. -/
  block : BlockId
  /-- What it does. -/
  kind : Kind
  /-- The destination asked for, if any. -/
  dest : Option Value
  deriving DecidableEq, Repr

/-- A function under construction. -/
structure Draft where
  /-- The name of the function. -/
  name : String
  /-- The number of parameters. -/
  params : Nat
  /-- The number of slots so far, in a counter of 32 bits. -/
  slots : UInt32 := 0
  /-- The number of blocks so far. -/
  blockCount : Nat := 0
  /-- The instructions so far; entry `k` becomes instruction `k`. -/
  entries : List Entry := []
  deriving DecidableEq, Repr

namespace Draft

/-! ### Drawing up -/

/-- A draft with no slots, blocks or instructions. -/
def new (name : String) (params : Nat) : Draft := { name, params }

/-- A new slot.  The counter wraps around: after `2 ^ 32` slots it begins again. -/
def addSlot (d : Draft) : Draft × Value :=
  ({ d with slots := d.slots + 1 }, .slot d.slots.toNat)

/-- A new block. -/
def addBlock (d : Draft) : Draft × BlockId :=
  ({ d with blockCount := d.blockCount + 1 }, d.blockCount)

/-- An instruction at the end of a block. -/
def push (d : Draft) (block : BlockId) (kind : Kind) (dest : Option Value := none) :
    Draft × InstId :=
  ({ d with entries := d.entries ++ [⟨block, kind, dest⟩] }, d.entries.length)

/-- A binary operation with a result of its own. -/
def binary (d : Draft) (block : BlockId) (op : BinaryOp) (lhs rhs : Value) : Draft × InstId :=
  d.push block (.binary op lhs rhs)

/-- A binary operation that writes `dest`. -/
def binaryInto (d : Draft) (block : BlockId) (dest : Value) (op : BinaryOp) (lhs rhs : Value) :
    Draft × InstId :=
  d.push block (.binary op lhs rhs) (some dest)

/-- A comparison. -/
def compare (d : Draft) (block : BlockId) (pred : Predicate) (lhs rhs : Value) : Draft × InstId :=
  d.push block (.compare pred lhs rhs)

/-- A copy of `source` into `dest`. -/
def assign (d : Draft) (block : BlockId) (dest source : Value) : Draft × InstId :=
  d.push block (.copy source) (some dest)

/-- A call. -/
def call (d : Draft) (block : BlockId) (callee : String) (args : List Value) : Draft × InstId :=
  d.push block (.call callee args)

/-- A phi. -/
def phi (d : Draft) (block : BlockId) (incoming : List Incoming) : Draft × InstId :=
  d.push block (.phi incoming)

/-- A jump. -/
def jump (d : Draft) (block target : BlockId) : Draft × InstId := d.push block (.jump target)

/-- A branch. -/
def branch (d : Draft) (block : BlockId) (cond : Value) (onTrue onFalse : BlockId) :
    Draft × InstId :=
  d.push block (.branch cond onTrue onFalse)

/-- A return. -/
def ret (d : Draft) (block : BlockId) (value : Option Value) : Draft × InstId :=
  d.push block (.ret value)

/-! ### Assembly -/

/-- Instruction `k` as handed in: it defines its destination, or else its own result if it
produces a value. -/
def instruction (k : InstId) (e : Entry) : Instruction where
  id := k
  block := e.block
  kind := e.kind
  result := match e.dest with
    | some v => some v
    | none => if e.kind.yieldsValue then some (.result k) else none

/-- The instructions in the order in which they were handed in. -/
def instructions (d : Draft) : List Instruction :=
  d.entries.zipIdx.map fun (e, k) => instruction k e

/-- The blocks, each with the instructions placed in it. -/
def blocks (d : Draft) : List Block :=
  (List.range d.blockCount).map fun b => ⟨b, d.instructions.filter (·.block == b)⟩

/-- The function that the draft describes, if nothing is wrong with it. -/
def assemble (d : Draft) : Function where
  name := d.name
  params := d.params
  slots := d.slots.toNat
  blocks := d.blocks

/-! ### Inspection -/

/-- Whether `v` is a slot of the draft. -/
def isSlot (d : Draft) : Value → Bool
  | .slot n => n < d.slots.toNat
  | _ => false

/-- Whether an instruction may read `v`: constants, declared parameters and slots, and the results
of instructions that have a result of their own. -/
def isDefined (d : Draft) : Value → Bool
  | .param n => n < d.params
  | .slot n => n < d.slots.toNat
  | .result k => match d.instructions[k]? with
    | some i => i.result == some (.result k)
    | none => false
  | .const _ => true

/-- What is wrong with the place and the destination of entry `k`. -/
def placementProblems (d : Draft) (e : Entry) (k : InstId) : List Malformed :=
  (if e.block < d.blockCount then [] else [.unknownBlock k e.block]) ++
    match e.dest with
    | none => []
    | some v =>
      if d.isSlot v then if e.kind.isTerminator then [.terminatorResult k] else []
      else [.badDestination k v]

/-- What is wrong with the order of instructions in block `b`: a terminator with something after
it, a phi with something other than a phi before it (`afterPhis`). -/
def orderProblems (b : BlockId) : Bool → List Instruction → List Malformed
  | _, [] => []
  | afterPhis, i :: rest =>
    (if i.kind.isTerminator && !rest.isEmpty then [.earlyTerminator i.id b] else []) ++
      (if i.kind.isPhi && afterPhis then [.latePhi i.id b] else []) ++
      orderProblems b (afterPhis || !i.kind.isPhi) rest

/-- What is wrong with the shape of a block. -/
def shapeProblems (b : Block) : List Malformed :=
  match b.last? with
  | none => [.emptyBlock b.id]
  | some i =>
    if i.kind.isTerminator then orderProblems b.id false b.body else [.openBlock b.id]

/-- What is wrong with the targets and operands of an instruction. -/
def referenceProblems (d : Draft) (i : Instruction) : List Malformed :=
  (i.targets.filter (d.blockCount ≤ ·)).map (.unknownTarget i.id) ++
    (i.operands.filter fun v => !d.isDefined v).map (.undefinedOperand i.id)

/-- What is wrong with the sources that a phi of `f` names. -/
def sourceProblems (f : Function) (i : Instruction) : List Malformed :=
  (i.kind.incoming.filter fun a => !(f.sources i.block).contains a.source).map fun a =>
    .strayAlternative i.id a.source i.block

/-- Everything that is wrong, in order of inspection. -/
def problems (d : Draft) : List Malformed :=
  (if d.blockCount = 0 then [.noBlocks d.name] else []) ++
    d.entries.zipIdx.flatMap (fun (e, k) => d.placementProblems e k) ++
    d.blocks.flatMap shapeProblems ++
    d.instructions.flatMap d.referenceProblems ++
    d.assemble.instructions.flatMap (sourceProblems d.assemble)

/-- The function, or the first problem with the draft. -/
def toFunction (d : Draft) : Except Error Function :=
  match d.problems with
  | [] => .ok d.assemble
  | why :: _ => .error (.malformed why)

end Draft

end FactFlow
