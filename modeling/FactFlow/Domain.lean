import FactFlow.FactSet

/-!
# Domains

A `Domain` is the finite universe that an analysis speaks about: a sequence of distinct elements,
numbered in the order of their discovery.  It has two phases.  While it is open, elements may be
inserted but not looked up; once it is frozen, they may be looked up but not inserted.  The number
of an element never changes, so a `FactSet` as wide as the domain stands for a set of elements.
-/

namespace FactFlow

/-- Distinct elements in order of discovery. -/
structure Domain (α : Type) where
  /-- The elements; element `k` is entry `k`. -/
  elements : List α
  /-- Whether discovery has ended. -/
  frozen : Bool
  /-- No element occurs twice. -/
  nodup : elements.Nodup

namespace Domain

variable {α : Type}

/-- An open domain without elements. -/
def empty : Domain α := ⟨[], false, List.nodup_nil⟩

/-- The number of elements. -/
def size (d : Domain α) : Nat := d.elements.length

/-- The element of a number. -/
def get? (d : Domain α) (k : Nat) : Option α := d.elements[k]?

/-- The element of a number, which the caller says exists. -/
def lookup (d : Domain α) (k : Nat) : Except Fault α :=
  match d.get? k with
  | some e => .ok e
  | none => .error (.entry d.size k)

/-- End discovery. -/
def freeze (d : Domain α) : Domain α := { d with frozen := true }

variable [DecidableEq α]

/-- The elements with `e` at the end, unless it is there already. -/
def add (d : Domain α) (e : α) : Domain α :=
  if h : e ∈ d.elements then d
  else
    { d with
      elements := d.elements ++ [e]
      nodup := by
        have hsingle : [e].Nodup := List.nodup_cons.2 ⟨List.not_mem_nil, List.nodup_nil⟩
        refine List.nodup_append.2 ⟨d.nodup, hsingle, ?_⟩
        intro a ha b hb hab
        rw [List.mem_singleton] at hb
        exact h (hb ▸ hab ▸ ha) }

/-- Put an element into an open domain; the answer has its number. -/
def insert (d : Domain α) (e : α) : Except Fault (Domain α × Nat) :=
  if d.frozen then .error .frozenDomain
  else .ok (d.add e, d.elements.idxOf e)

/-- The number of an element in a frozen domain. -/
def indexOf (d : Domain α) (e : α) : Except Fault (Option Nat) :=
  if d.frozen then .ok (d.elements.idxOf? e) else .error .openDomain

/-- The open domain of all elements of a list, each at its first occurrence. -/
def ofElements (es : List α) : Domain α := es.foldl add empty

/-- Whether two domains have the same elements under the same numbers. -/
def agrees (d e : Domain α) : Bool := d.elements == e.elements

omit [DecidableEq α]

/-- Elements between braces, each followed by a comma. -/
def braced [ToString α] (es : List α) : String :=
  "\x7b" ++ String.join (es.map fun e => toString e ++ ", ") ++ "\x7d"

/-- The printed form of a set of elements, each of them looked up. -/
def render [ToString α] (d : Domain α) (mask : FactSet) : Except Fault String :=
  if mask.width = d.size then (mask.positions.mapM d.lookup).map braced
  else .error (.maskWidth mask.width d.size)

end Domain

end FactFlow
