import FactFlow.Program.Function

/-!
# Directions

Facts flow with control (`forward`) or against it (`backward`).  Everything that depends on the
direction is one choice, made by `Direction.arrange`: whether blocks, and instructions within a
block, are taken in order or in reverse.  A block receives its facts from its `neighbors`, at the
end where the direction enters it.
-/

namespace FactFlow

/-- The direction in which facts flow. -/
inductive Direction where
  /-- With control. -/
  | forward
  /-- Against control. -/
  | backward
  deriving DecidableEq, Repr

namespace Direction

/-- The printed name of a direction. -/
def text : Direction → String
  | .forward => "forward"
  | .backward => "backward"

/-- All directions. -/
def all : List Direction := [.forward, .backward]

/-- The direction of a printed name. -/
def ofText? (s : String) : Option Direction := all.find? (·.text == s)

/-- A sequence in the order in which facts flow through it. -/
def arrange {α : Type} : Direction → List α → List α
  | .forward, xs => xs
  | .backward, xs => xs.reverse

/-- The blocks of a function in visiting order. -/
def schedule (d : Direction) (f : Function) : List Block := d.arrange f.blocks

/-- The instructions of a block in visiting order. -/
def through (d : Direction) (b : Block) : List Instruction := d.arrange b.body

/-- The blocks that facts enter `b` from, one entry per edge. -/
def neighbors (d : Direction) (f : Function) (b : Block) : List BlockId :=
  match d with
  | .forward => f.sources b.id
  | .backward => b.successors

/-- The instruction through which facts enter a block. -/
def entrance? (d : Direction) (b : Block) : Option Instruction := (d.through b).head?

/-- The instruction through which facts leave a block. -/
def exit? (d : Direction) (b : Block) : Option Instruction := (d.through b).getLast?

end Direction

end FactFlow
