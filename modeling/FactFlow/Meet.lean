import FactFlow.FactSet

/-!
# Meets

Where control flow joins, the facts of the incoming edges are combined by a `Meet`.  Which one is up
to the analysis, and nothing is asked of it here: a meet is whatever names an identity, the value
that a fact starts with before anything is known, and says how two sets are combined.

Two meets come with the library.  A *must* analysis keeps what holds on all edges
(`Meet.intersect`), a *may* analysis what holds on some edge (`Meet.union`).
-/

namespace FactFlow

/-- How facts of several edges are combined. -/
structure Meet where
  /-- The printed name. -/
  text : String
  /-- The value that facts of a width start with; it should change nothing when it is met. -/
  unit : (width : Nat) → FactSet
  /-- The meet of two sets. -/
  meet : FactSet → FactSet → Except Fault FactSet
  /-- The meet of a list of sets: as a rule from the left, starting with the identity. -/
  meetList (width : Nat) (values : List FactSet) : Except Fault FactSet :=
    values.foldlM meet (unit width)

namespace Meet

/-- What holds on every edge. -/
def intersect : Meet where
  text := "intersect"
  unit := FactSet.full
  meet s t := s.sameWidth t (s.inter t)

/-- What holds on some edge. -/
def union : Meet where
  text := "union"
  unit := FactSet.none
  meet s t := s.sameWidth t (s.union t)

/-- The meets that come with the library. -/
def all : List Meet := [.intersect, .union]

/-- The meet of a printed name. -/
def ofText? (s : String) : Option Meet := all.find? (·.text == s)

end Meet

end FactFlow
