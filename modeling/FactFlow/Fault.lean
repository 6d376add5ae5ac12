/-!
# Faults

A `Fault` records that a caller broke the terms of an operation: it named a position or an index
that does not exist, mixed values of different widths, or used a domain in the wrong phase.  No
function of a well-formed program provokes one; they exist because the operations on packed sets,
domains and tables accept arbitrary arguments.

`Fault.message` is the one place that words them.
-/

namespace FactFlow

/-- How the terms of an operation were broken. -/
inductive Fault where
  /-- Position `index` of a fact set with `width` positions. -/
  | position (index width : Nat)
  /-- Two fact sets of widths `left` and `right` were combined or compared. -/
  | widths (left right : Nat)
  /-- A fact set of width `mask` was read against a domain of `size` elements. -/
  | maskWidth (mask size : Nat)
  /-- The boundary value of an analysis has width `found`, its domain `size` elements. -/
  | boundaryWidth (analysis : String) (found size : Nat)
  /-- An element was added after discovery had ended. -/
  | frozenDomain
  /-- An element was looked up while discovery was still going on. -/
  | openDomain
  /-- Entry `index` of a table with `size` entries. -/
  | entry (size index : Nat)
  deriving DecidableEq, Repr

namespace Fault

/-- The report of two quantities that should have been equal. -/
def unequal (what : String) (left right : Nat) : String :=
  s!"assertion `left == right` failed: {what}\n  left: {left}\n right: {right}"

/-- The wording of a fault. -/
def message : Fault → String
  | .position index width => s!"domain index {index} out of bounds ({width})"
  | .widths left right => unequal "domain values must have the same length" left right
  | .maskWidth mask size =>
    unequal "the size of the mask must equal the size of the domain" mask size
  | .boundaryWidth analysis found size =>
    unequal s!"boundary value of {analysis} does not match the domain size" found size
  | .frozenDomain => "cannot add elements to a frozen domain"
  | .openDomain => "domain queried before discovery completed"
  | .entry size index => s!"index out of bounds: the len is {size} but the index is {index}"

end Fault

end FactFlow
