import FactFlow.Expression
import FactFlow.Solution

/-!
# Reports

A `Report` holds the solutions that a survey found for one function.
-/

namespace FactFlow

/-- The solutions found for a function. -/
structure Report where
  /-- The function. -/
  function : Function
  /-- Its available expressions. -/
  available : Option (Solution Expression) := none
  /-- Its anticipated expressions. -/
  anticipated : Option (Solution Expression) := none
  /-- Its will-be-available expressions. -/
  willBeAvailable : Option (Solution Expression) := none
  /-- Its live variables. -/
  liveness : Option (Solution Value) := none

namespace Report

variable (r : Report)

/-- The number of solutions in the report. -/
def count : Nat :=
  r.available.isSome.toNat + r.anticipated.isSome.toNat + r.willBeAvailable.isSome.toNat +
    r.liveness.isSome.toNat

/-- A solution written beside the function and set off by an empty line; nothing if it is
missing. -/
def section? {α : Type} [ToString α] (S : Option (Solution α)) : Except Fault String :=
  match S with
  | some S => (S.listing r.function).map (· ++ "\n")
  | none => .ok ""

/-- The printed form of a report. -/
def text : Except Fault String := do
  let available ← r.section? r.available
  let anticipated ← r.section? r.anticipated
  let willBeAvailable ← r.section? r.willBeAvailable
  let liveness ← r.section? r.liveness
  return available ++ anticipated ++ willBeAvailable ++ liveness

end Report

end FactFlow
