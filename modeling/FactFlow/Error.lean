import FactFlow.Fault
import FactFlow.Program.Value

/-!
# Errors

Two kinds of refusal are part of the library's contract with its callers.  `Malformed` says why a
draft is no function.  `Error` adds the reasons for which an analysis declines to run, or two
results cannot be put together.  `Failure` is what a run may end with: such an error, a fault, or
the discovery that an analysis never settles.
-/

namespace FactFlow

/-- Why a draft is not a function. -/
inductive Malformed where
  /-- There is no block at all. -/
  | noBlocks (function : String)
  /-- An instruction stands in a block that was never created. -/
  | unknownBlock (inst : InstId) (block : BlockId)
  /-- A terminator was given a destination. -/
  | terminatorResult (inst : InstId)
  /-- The destination of an instruction is not a declared slot. -/
  | badDestination (inst : InstId) (dest : Value)
  /-- A block has no instructions. -/
  | emptyBlock (block : BlockId)
  /-- The last instruction of a block is not a terminator. -/
  | openBlock (block : BlockId)
  /-- A terminator stands before the end of its block. -/
  | earlyTerminator (inst : InstId) (block : BlockId)
  /-- A phi stands after an instruction that is none. -/
  | latePhi (inst : InstId) (block : BlockId)
  /-- A target was never created. -/
  | unknownTarget (inst : InstId) (target : BlockId)
  /-- An operand is out of range or names an instruction without a result of its own. -/
  | undefinedOperand (inst : InstId) (operand : Value)
  /-- A phi alternative names a block that does not lead to the phi. -/
  | strayAlternative (inst : InstId) (source block : BlockId)
  deriving DecidableEq, Repr

/-- The wording of a malformed draft. -/
def Malformed.message : Malformed → String
  | .noBlocks function => "function '" ++ function ++ "' has no blocks"
  | .unknownBlock inst block =>
    instName inst ++ " placed in unknown block " ++ blockName block
  | .terminatorResult inst => "terminator " ++ instName inst ++ " cannot define a value"
  | .badDestination inst dest =>
    instName inst ++ " writes to " ++ dest.text ++ ", which is not a declared local"
  | .emptyBlock block => "block " ++ blockName block ++ " is empty"
  | .openBlock block => "block " ++ blockName block ++ " does not end in a terminator"
  | .earlyTerminator inst block =>
    "terminator " ++ instName inst ++ " is not the last instruction of " ++ blockName block
  | .latePhi inst block =>
    "phi " ++ instName inst ++ " follows a non-phi instruction in " ++ blockName block
  | .unknownTarget inst target =>
    instName inst ++ " jumps to unknown block " ++ blockName target
  | .undefinedOperand inst operand =>
    instName inst ++ " uses " ++ operand.text ++ ", which is not defined"
  | .strayAlternative inst source block =>
    "phi " ++ instName inst ++ " names " ++ blockName source ++
      ", which is not a predecessor of " ++ blockName block

/-- Why a function or a result is refused. -/
inductive Error where
  /-- The draft is not a function. -/
  | malformed (why : Malformed)
  /-- The analysis needs a function without critical edges. -/
  | criticalEdge (source target : BlockId)
  /-- Two results speak about different domains. -/
  | domainMismatch (expected found : Nat)
  /-- A result has facts for a different number of instructions. -/
  | resultMismatch (expected found : Nat)
  deriving DecidableEq, Repr

/-- The wording of an error. -/
def Error.message : Error → String
  | .malformed why => why.message
  | .criticalEdge source target =>
    "Critical edge from " ++ blockName source ++ " to " ++ blockName target ++
      ", split critical edges before running this analysis"
  | .domainMismatch expected found =>
    "Domain mismatch - expected " ++ toString expected ++
      " elements in matching order, found " ++ toString found
  | .resultMismatch expected found =>
    "Result belongs to a different function - expected " ++ toString expected ++
      " instructions, found " ++ toString found

/-- What a run may end with instead of a result. -/
inductive Failure where
  /-- The input was refused. -/
  | refused (e : Error)
  /-- The terms of an operation were broken. -/
  | fault (e : Fault)
  /-- The facts change forever. -/
  | unsettled
  deriving DecidableEq, Repr

end FactFlow
