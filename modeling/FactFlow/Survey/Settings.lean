/-!
# Settings of a survey

Which analyses a survey runs (`Selection`) and how it treats their results (`Settings`).  A
selection can be packed into the low four bits of a number; higher bits mean nothing.
-/

namespace FactFlow

/-- A choice of analyses. -/
structure Selection where
  /-- Available expressions. -/
  available : Bool := true
  /-- Anticipated expressions. -/
  anticipated : Bool := true
  /-- Will-be-available expressions. -/
  willBeAvailable : Bool := true
  /-- Live variables. -/
  liveness : Bool := true
  deriving DecidableEq, Repr

namespace Selection

/-- The selection packed into a number. -/
def ofBits (n : Nat) : Selection where
  available := n.testBit 0
  anticipated := n.testBit 1
  willBeAvailable := n.testBit 2
  liveness := n.testBit 3

/-- The number that a selection packs into. -/
def toBits (s : Selection) : Nat :=
  s.available.toNat + 2 * s.anticipated.toNat + 4 * s.willBeAvailable.toNat +
    8 * s.liveness.toNat

/-- Whether the anticipated expressions are needed, for themselves or for what builds on them. -/
def wantsAnticipated (s : Selection) : Bool := s.anticipated || s.willBeAvailable

end Selection

/-- How a survey is run. -/
structure Settings where
  /-- The analyses to run. -/
  selection : Selection := {}
  /-- Whether the report of each function is put into the journal. -/
  dump : Bool := false
  /-- Whether functions may be analyzed side by side.  They do not depend on each other, so the
  reports are the same either way. -/
  parallel : Bool := true
  /-- Whether a critical edge is an error; otherwise the analyses that refuse it are left out. -/
  requireSplitEdges : Bool := true
  deriving DecidableEq, Repr

end FactFlow
