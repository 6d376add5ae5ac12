/-!
# Names and values

Blocks and instructions are numbered from `0` within their function and print as `bb0` and `%0`.
A `Value` is what an instruction reads: a parameter, a mutable local slot, the result of an
instruction, or a constant.
-/

namespace FactFlow

/-- The number of a block within its function. -/
abbrev BlockId := Nat

/-- The number of an instruction within its function. -/
abbrev InstId := Nat

/-- The printed name of a block. -/
def blockName (b : BlockId) : String := "bb" ++ toString b

/-- The printed name of an instruction. -/
def instName (i : InstId) : String := "%" ++ toString i

/-- What an instruction reads. -/
inductive Value where
  /-- A parameter of the function. -/
  | param (n : Nat)
  /-- A local slot, which several instructions may write. -/
  | slot (n : Nat)
  /-- The result of an instruction. -/
  | result (i : InstId)
  /-- A constant. -/
  | const (c : Int)
  deriving DecidableEq, Repr

namespace Value

/-- Everything but a constant is a variable. -/
def isVariable : Value → Bool
  | .const _ => false
  | _ => true

/-- The instruction whose result the value is. -/
def inst? : Value → Option InstId
  | .result i => some i
  | _ => none

/-- The printed form of a value. -/
def text : Value → String
  | .param n => "%arg" ++ toString n
  | .slot n => "%loc" ++ toString n
  | .result i => instName i
  | .const c => toString c

instance : ToString Value := ⟨text⟩

end Value

end FactFlow
