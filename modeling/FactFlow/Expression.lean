import FactFlow.Domain
import FactFlow.Program.Instruction

/-!
# Expressions

An `Expression` is the right-hand side of a binary operation: an operator applied to two values.
Analyses of expressions share three steps: an instruction *contributes* the expression it computes
to the domain, *kills* every expression that reads the variable it defines, and *generates* the
expression it computes.
-/

namespace FactFlow

/-- An operator applied to two values. -/
structure Expression where
  /-- The operator. -/
  op : BinaryOp
  /-- The left operand. -/
  lhs : Value
  /-- The right operand. -/
  rhs : Value
  deriving DecidableEq, Repr

namespace Expression

/-- The expression that an instruction computes. -/
def computedBy? (i : Instruction) : Option Expression :=
  match i.kind with
  | .binary op lhs rhs => some ⟨op, lhs, rhs⟩
  | _ => none

/-- Whether an expression reads a value. -/
def uses (e : Expression) (v : Value) : Bool := e.lhs == v || e.rhs == v

/-- The printed form of an expression. -/
def text (e : Expression) : String := e.op.text ++ " " ++ e.lhs.text ++ ", " ++ e.rhs.text

instance : ToString Expression := ⟨text⟩

/-- What an instruction contributes to the domain. -/
def contributed (i : Instruction) : List Expression := (computedBy? i).toList

/-- Whether an instruction overwrites an operand of the expression it computes. -/
def overwritesOperand (i : Instruction) : Bool :=
  match computedBy? i, i.result with
  | some e, some v => e.uses v
  | _, _ => false

/-- Take out every expression that reads the variable `i` defines. -/
def kill (i : Instruction) (d : Domain Expression) (s : FactSet) : Except Fault FactSet :=
  match i.result.filter (·.isVariable) with
  | none => .ok s
  | some v => d.elements.zipIdx.foldlM (fun s (e, k) => if e.uses v then s.erase k else .ok s) s

/-- Add the expression that `i` computes. -/
def generate (i : Instruction) (d : Domain Expression) (s : FactSet) : Except Fault FactSet :=
  match computedBy? i with
  | none => .ok s
  | some e => do
    match ← d.indexOf e with
    | some k => s.insert k
    | none => .ok s

end Expression

end FactFlow
