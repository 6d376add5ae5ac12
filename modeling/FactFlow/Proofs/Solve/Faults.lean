import FactFlow.Proofs.Solve.Pass

/-!
# Where faults come from

The solver inserts elements into a domain, looks up blocks and instructions by number, puts the
state of each block in its place and compares the widths of sets.  Each of these steps faults if its
terms are broken.  On a well-formed function the solver itself breaks none of them, whatever the
analysis: the elements come in before the domain is closed, every number is one that the function
has given out, and the tables keep the size and the width that they start with.

What is left is the doing of the analysis (`Analysis.Causes`): a boundary of the wrong width, a
fault of its own in an edge, a meet or a transfer, or a transfer that answers with a set of another
width (`Analysis.causes_of_solve`).
-/

namespace FactFlow

namespace Analysis

variable {α : Type}

/-- Fault `e` is brought about by the analysis, and not by the solver. -/
inductive Causes (A : Analysis α) (f : Function) (d : Domain α) : Fault → Prop
  | boundary (hwidth : (A.boundary d).width ≠ d.size) :
      Causes A f d (.boundaryWidth A.name (A.boundary d).width d.size)
  | edge {b : Block} {n : BlockId} {facts : Facts} {s : FactSet} {e : Fault} (hb : b ∈ f.blocks)
      (hn : n ∈ A.direction.neighbors f b) (hedge : A.alongEdge f b.id n facts d s = .error e) :
      Causes A f d e
  | meet {values : List FactSet} {e : Fault} (hmeet : A.meet.meetList d.size values = .error e) :
      Causes A f d e
  | transfer {i : Instruction} {s : FactSet} {e : Fault} (hi : i ∈ f.instructions)
      (htransfer : A.transfer f i d s = .error e) : Causes A f d e
  | width {i : Instruction} {s t : FactSet} (hi : i ∈ f.instructions)
      (htransfer : A.transfer f i d s = .ok t) (hwidth : t.width ≠ (A.meet.unit d.size).width) :
      Causes A f d (.widths t.width (A.meet.unit d.size).width)

variable {A : Analysis α} {f : Function} {d : Domain α} {e : Fault}

theorem causes_of_blockInput {boundary : FactSet} {facts : Facts} {b : Block} (hb : b ∈ f.blocks)
    (h : A.blockInput f d boundary facts b = .error e) : A.Causes f d e := by
  unfold blockInput at h
  split at h
  · cases h
  · rcases Outcome.bind_eq_error_iff.1 h with hreceived | ⟨values, -, hmeet⟩
    · obtain ⟨pre, n, post, hsplit, -, hn⟩ := Outcome.mapM_eq_error_iff.1 hreceived
      unfold received at hn
      split at hn
      · exact .edge hb (by rw [hsplit]; simp) (Outcome.map_eq_error_iff.1 hn)
      · cases hn
    · exact .meet hmeet

section

variable (hf : f.WellFormed)
include hf

/-- Pushing a state through instructions of the function, over facts as wide as the identity. -/
theorem causes_of_flow {l : List Instruction} (hl : ∀ i ∈ l, i ∈ f.instructions) {s : FactSet}
    {facts : Facts} (hfits : facts.Fits f.instCount (A.meet.unit d.size).width)
    (h : A.flow f d l s facts = .error e) : A.Causes f d e := by
  induction l generalizing s facts with
  | nil => cases h
  | cons i rest ih =>
    obtain ⟨hi, hrest⟩ := List.forall_mem_cons.1 hl
    obtain ⟨u, hu, hwu⟩ := hfits.exists_getElem? (hf.id_lt hi)
    simp only [flow, hu, Outcome.bind_eq_error_iff] at h
    rcases h with htransfer | ⟨t, ht, hdiffers | ⟨changed, hchanged, hflow⟩⟩
    · exact .transfer hi htransfer
    · obtain ⟨hw, rfl⟩ := FactSet.sameWidth_eq_error_iff.1 hdiffers
      rw [hwu] at hw ⊢
      exact .width hi ht hw
    · have hwt : t.width = u.width := (FactSet.differsFrom_eq_ok_iff.1 hchanged).1
      split at hflow
      · rcases Outcome.bind_eq_error_iff.1 hflow with hflow | ⟨r, -, hr⟩
        · exact ih hrest (hfits.setIfInBounds (hwt.trans hwu)) hflow
        · cases hr
      · exact ih hrest hfits hflow

theorem causes_of_visit {boundary : FactSet} {t : Tables} {b : Block} (hb : b ∈ f.blocks)
    (hfits : t.Fits f (A.meet.unit d.size).width)
    (h : A.visit f d boundary t b = .error e) : A.Causes f d e := by
  rcases Outcome.bind_eq_error_iff.1 h with hinput | ⟨s, -, h⟩
  · exact causes_of_blockInput hb hinput
  · -- the block has a place for its state, and it and its instructions are found
    rw [Tables.record, if_pos (hfits.lt_boundaries hf hb), Outcome.ok_bind,
      hf.bodyOf_eq (hf.block?_of_mem hb), Outcome.ok_bind] at h
    rcases Outcome.bind_eq_error_iff.1 h with hflow | ⟨r, -, hr⟩
    · refine causes_of_flow hf (fun i hi => ?_) hfits.facts hflow
      exact Direction.mem_instructions_of_mem_through hb hi
    · cases hr

variable {order : List Block} (horder : ∀ b ∈ order, b ∈ f.blocks)
include horder

theorem causes_of_pass {t : Tables} (hfits : t.Fits f (A.meet.unit d.size).width)
    (h : A.pass f d (A.boundary d) order t = .error e) : A.Causes f d e := by
  induction order generalizing t with
  | nil => cases h
  | cons b rest ih =>
    obtain ⟨hb, hrest⟩ := List.forall_mem_cons.1 horder
    rcases Outcome.bind_eq_error_iff.1 h with hvisit | ⟨⟨t₁, n⟩, hvisit, h⟩
    · exact causes_of_visit hf hb hfits hvisit
    · rcases Outcome.bind_eq_error_iff.1 h with hpass | ⟨r, -, hr⟩
      · exact ih hrest (fits_of_visit hf hb hfits hvisit) hpass
      · cases hr

theorem causes_of_settle {limit done : Nat} {t : Tables}
    (hfits : t.Fits f (A.meet.unit d.size).width)
    (h : (A.settle f d (A.boundary d) order limit done t).result = .error (.fault e)) :
    A.Causes f d e := by
  induction limit generalizing done t with
  | zero => cases h
  | succ limit ih =>
    rw [result_settle_succ] at h
    cases hpass : A.pass f d (A.boundary d) order t with
    | error e' =>
      rw [hpass] at h
      cases h
      exact causes_of_pass hf horder hfits hpass
    | ok r =>
      rw [hpass] at h
      simp only [Except.mapError, Outcome.ok_bind] at h
      split at h
      · cases h
      · exact ih (fits_of_pass hf horder hfits hpass) h

end

/-- **A run faults only by the doing of its analysis.** -/
theorem causes_of_solve [DecidableEq α] (hf : f.WellFormed)
    (h : (A.solve f).result = .error (.fault e)) : A.Causes f (A.domain f) e := by
  rcases solve_eq_error_iff.1 h with ⟨r, -, hr⟩ | ⟨-, ⟨hwidth, he⟩ | ⟨-, hsettle⟩⟩
  · cases hr
  · cases he
    exact .boundary hwidth
  · exact causes_of_settle hf (fun b hb => Direction.mem_schedule_iff.1 hb) (fits_start _) hsettle

end Analysis

end FactFlow
