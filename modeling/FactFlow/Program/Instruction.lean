import FactFlow.Program.Value

/-!
# Instructions

An `Instruction` carries its number, the block it stands in, what it does (`Kind`) and the variable
it defines.  The questions that analyses ask are answered here: what it reads (`operands`), where it
may go (`targets`), which values a phi takes along which edge (`incoming`).
-/

namespace FactFlow

/-- Arithmetic and bitwise operators. -/
inductive BinaryOp where
  | add | sub | mul | sdiv | udiv | srem | urem | shl | lshr | ashr | and | or | xor
  deriving DecidableEq, Repr

namespace BinaryOp

/-- The printed name of an operator. -/
def text : BinaryOp → String
  | .add => "add" | .sub => "sub" | .mul => "mul" | .sdiv => "sdiv" | .udiv => "udiv"
  | .srem => "srem" | .urem => "urem" | .shl => "shl" | .lshr => "lshr" | .ashr => "ashr"
  | .and => "and" | .or => "or" | .xor => "xor"

/-- All operators. -/
def all : List BinaryOp :=
  [.add, .sub, .mul, .sdiv, .udiv, .srem, .urem, .shl, .lshr, .ashr, .and, .or, .xor]

/-- The operator of a printed name. -/
def ofText? (s : String) : Option BinaryOp := all.find? (·.text == s)

end BinaryOp

/-- Comparison predicates. -/
inductive Predicate where
  | eq | ne | slt | sle | sgt | sge
  deriving DecidableEq, Repr

namespace Predicate

/-- The printed name of a predicate. -/
def text : Predicate → String
  | .eq => "eq" | .ne => "ne" | .slt => "slt" | .sle => "sle" | .sgt => "sgt" | .sge => "sge"

/-- All predicates. -/
def all : List Predicate := [.eq, .ne, .slt, .sle, .sgt, .sge]

/-- The predicate of a printed name. -/
def ofText? (s : String) : Option Predicate := all.find? (·.text == s)

end Predicate

/-- One alternative of a phi: the value taken when control comes from `source`. -/
structure Incoming where
  /-- The value taken. -/
  value : Value
  /-- The block that control comes from. -/
  source : BlockId
  deriving DecidableEq, Repr

/-- The printed form of a phi alternative. -/
def Incoming.text (a : Incoming) : String :=
  "[" ++ a.value.text ++ ", " ++ blockName a.source ++ "]"

/-- What an instruction does. -/
inductive Kind where
  /-- Computes `op lhs, rhs`. -/
  | binary (op : BinaryOp) (lhs rhs : Value)
  /-- Compares two values. -/
  | compare (pred : Predicate) (lhs rhs : Value)
  /-- Copies a value. -/
  | copy (source : Value)
  /-- Calls a function by name. -/
  | call (callee : String) (args : List Value)
  /-- Chooses a value by the edge that control came along. -/
  | phi (incoming : List Incoming)
  /-- Goes to a block. -/
  | jump (target : BlockId)
  /-- Goes to one of two blocks. -/
  | branch (cond : Value) (onTrue onFalse : BlockId)
  /-- Leaves the function. -/
  | ret (value : Option Value)
  deriving DecidableEq, Repr

namespace Kind

/-- Jumps, branches and returns end a block. -/
def isTerminator : Kind → Bool
  | .jump _ | .branch .. | .ret _ => true
  | _ => false

/-- Every kind but a terminator produces a value. -/
def yieldsValue (k : Kind) : Bool := !k.isTerminator

/-- Whether the kind is a phi. -/
def isPhi : Kind → Bool
  | .phi _ => true
  | _ => false

/-- Whether the kind is a binary operation. -/
def isBinary : Kind → Bool
  | .binary .. => true
  | _ => false

/-- The alternatives of a phi. -/
def incoming : Kind → List Incoming
  | .phi alts => alts
  | _ => []

/-- The values read, in order. -/
def operands : Kind → List Value
  | .binary _ lhs rhs | .compare _ lhs rhs => [lhs, rhs]
  | .copy source => [source]
  | .call _ args => args
  | .phi alts => alts.map (·.value)
  | .jump _ => []
  | .branch cond .. => [cond]
  | .ret value => value.toList

/-- The blocks that control may go to, one entry per edge. -/
def targets : Kind → List BlockId
  | .jump target => [target]
  | .branch _ onTrue onFalse => [onTrue, onFalse]
  | _ => []

/-- The printed form of what an instruction does. -/
def text : Kind → String
  | .binary op lhs rhs => op.text ++ " " ++ lhs.text ++ ", " ++ rhs.text
  | .compare pred lhs rhs => "cmp " ++ pred.text ++ " " ++ lhs.text ++ ", " ++ rhs.text
  | .copy source => "copy " ++ source.text
  | .call callee args =>
    "call " ++ callee ++ "(" ++ ", ".intercalate (args.map Value.text) ++ ")"
  | .phi alts => "phi " ++ ", ".intercalate (alts.map Incoming.text)
  | .jump target => "jump " ++ blockName target
  | .branch cond onTrue onFalse =>
    "br " ++ cond.text ++ ", " ++ blockName onTrue ++ ", " ++ blockName onFalse
  | .ret (some value) => "ret " ++ value.text
  | .ret none => "ret"

end Kind

/-- An instruction of a function. -/
structure Instruction where
  /-- Its number. -/
  id : InstId
  /-- The block it stands in. -/
  block : BlockId
  /-- What it does. -/
  kind : Kind
  /-- The variable it defines. -/
  result : Option Value
  deriving DecidableEq, Repr

namespace Instruction

/-- The values read, in order. -/
def operands (i : Instruction) : List Value := i.kind.operands

/-- The blocks that control may go to, one entry per edge. -/
def targets (i : Instruction) : List BlockId := i.kind.targets

/-- The printed form of an instruction. -/
def text (i : Instruction) : String :=
  match i.result with
  | some v => v.text ++ " = " ++ i.kind.text
  | none => i.kind.text

end Instruction

end FactFlow
