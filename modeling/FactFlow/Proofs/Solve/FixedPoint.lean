import FactFlow.Expression
import FactFlow.Proofs.Solve.States

/-!
# Answers are fixed points

Nothing is assumed of an analysis here: its transfer need not be monotone, nor keep widths, and its
meet may be any operator.  If the solver answers all the same, the answer is at rest.  Its
boundaries are computed from its facts, its facts from the states in front of the instructions, and
one more pass over both tables finds nothing to change and records nothing new
(`Analysis.solve_isFixedPoint`).

The last pass of the solver does not say this by itself.  It started from boundaries of the pass
before, and met facts while it was recording boundaries; only because none of the facts moved do
all of them belong to one table.

* `Analysis.pass_of_atRest` : a pass over facts in balance, with the states where they enter the
  blocks on record, is idle.
* `Analysis.parity` : an analysis that is not monotone, with a meet of its own, and settles where
  control does not return.
-/

namespace FactFlow

namespace Analysis

variable {α : Type} {A : Analysis α} {f : Function}

/-! ### Idle passes -/

section

variable {d : Domain α}

theorem flow_of_along {facts : Facts} {s : FactSet} {l : List Instruction}
    (h : A.Along f d (· = ·) facts s l) : A.flow f d l s facts = .ok (facts, 0) := by
  induction l generalizing s with
  | nil => rfl
  | cons i rest ih =>
    obtain ⟨t, u, ht, hu, rfl, hrest⟩ := h
    refine (flow_cons_eq_ok_iff hu).2 ⟨t, 0, ht, rfl, ?_, by simp⟩
    rw [setIfInBounds_self hu]
    exact ih hrest

/-- A pass over facts that solve the equations changes none of them, whatever boundaries are on
record. -/
theorem pass_of_solves (hf : f.WellFormed) {order : List Block}
    (horder : ∀ b ∈ order, b ∈ f.blocks) {width : Nat} {t : Tables} (hfits : t.Fits f width)
    (h : A.Solves f d t.facts) :
    ∃ t', A.pass f d (A.boundary d) order t = .ok (t', 0) ∧ t'.facts = t.facts := by
  induction order generalizing t with
  | nil => exact ⟨t, rfl, rfl⟩
  | cons b rest ih =>
    obtain ⟨hb, hrest⟩ := List.forall_mem_cons.1 horder
    obtain ⟨s, hs, halong⟩ := h b hb
    have hvisit : A.visit f d (A.boundary d) t b =
        .ok (⟨t.facts, t.boundaries.setIfInBounds b.id s⟩, 0) :=
      (visit_eq_ok_iff hf hb).2 ⟨s, (blockInput_eq_ok_iff hf hfits.facts.size_eq hb).2 hs,
        hfits.lt_boundaries hf hb, flow_of_along halong, rfl⟩
    obtain ⟨t', hpass, hfacts⟩ := ih hrest
      (t := ⟨t.facts, t.boundaries.setIfInBounds b.id s⟩)
      ⟨hfits.facts, (visit_boundaries_size hvisit).trans hfits.boundaries⟩ h
    exact ⟨t', pass_cons_eq_ok_iff.2 ⟨_, 0, 0, hvisit, hpass, rfl⟩, hfacts⟩

/-- Block `b` is in balance: facts enter it in the state on record, and are what the transfer
computes from there on. -/
def AtRest (A : Analysis α) (f : Function) (d : Domain α) (t : Tables) (b : Block) : Prop :=
  ∃ s, t.boundaries[b.id]? = some s ∧ A.Enters f d t.facts b s ∧
    A.Along f d (· = ·) t.facts s (A.direction.through b)

theorem solves_of_atRest {t : Tables} (h : ∀ b ∈ f.blocks, A.AtRest f d t b) :
    A.Solves f d t.facts := by
  intro b hb
  obtain ⟨s, -, hs, halong⟩ := h b hb
  exact ⟨s, hs, halong⟩

theorem visit_of_atRest (hf : f.WellFormed) {t : Tables} (hsize : t.facts.size = f.instCount)
    {b : Block} (hb : b ∈ f.blocks) (h : A.AtRest f d t b) :
    A.visit f d (A.boundary d) t b = .ok (t, 0) := by
  obtain ⟨s, hbound, hs, halong⟩ := h
  exact (visit_eq_ok_iff hf hb).2 ⟨s, (blockInput_eq_ok_iff hf hsize hb).2 hs,
    (Array.getElem?_eq_some_iff.1 hbound).1, flow_of_along halong,
    (setIfInBounds_self hbound).symm⟩

/-- **A pass over blocks at rest is idle**: it counts no change and leaves both tables alone. -/
theorem pass_of_atRest (hf : f.WellFormed) {order : List Block}
    (horder : ∀ b ∈ order, b ∈ f.blocks) {t : Tables} (hsize : t.facts.size = f.instCount)
    (h : ∀ b ∈ order, A.AtRest f d t b) : A.pass f d (A.boundary d) order t = .ok (t, 0) := by
  induction order with
  | nil => rfl
  | cons b rest ih =>
    obtain ⟨hb, hrest⟩ := List.forall_mem_cons.1 horder
    obtain ⟨hrestb, hrestl⟩ := List.forall_mem_cons.1 h
    exact pass_cons_eq_ok_iff.2
      ⟨t, 0, 0, visit_of_atRest hf hsize hb hrestb, ih hrest hrestl, rfl⟩

/-- Passes over all blocks settle on tables at rest: the state on record for a block is the one that
its facts were computed from. -/
theorem atRest_of_settle (hf : f.WellFormed) {order : List Block}
    (horder : ∀ b, b ∈ order ↔ b ∈ f.blocks) {limit done passes : Nat} {t t' : Tables}
    (hsize : t.facts.size = f.instCount)
    (h : (A.settle f d (A.boundary d) order limit done t).result = .ok (t', passes)) {b : Block}
    (hb : b ∈ f.blocks) : A.AtRest f d t' b := by
  have horder' : ∀ b ∈ order, b ∈ f.blocks := fun b => (horder b).1
  obtain ⟨t₁, hsize₁, hpass⟩ := last_pass_of_settle hf horder' hsize h
  obtain ⟨hfacts, hbalanced⟩ := pass_zero hf horder' hsize₁ hpass
  obtain ⟨r, hr, halong⟩ := hbalanced b ((horder b).2 hb)
  obtain ⟨s, hbound, hs⟩ :=
    pass_zero_boundaries hf horder' hsize₁ hpass hb (.inl ((horder b).2 hb))
  obtain rfl : r = s := hr.unique hf hsize₁ hb hs
  rw [← hfacts] at hr halong
  exact ⟨r, hbound, hr, halong⟩

end

/-! ### What the solver answers -/

section

variable [DecidableEq α] {S : Solution α}

/-- The tables of `S` on `f` fit together, and a pass over them changes nothing. -/
structure IsFixedPoint (A : Analysis α) (f : Function) (S : Solution α) : Prop where
  /-- The solution speaks about the elements that instructions contribute. -/
  domain_eq : S.domain = A.domain f
  /-- The boundary of a block is the state where facts enter it. -/
  boundary : ∀ {b blk}, f.block? b = some blk →
    ∃ s, S.boundary? b = some s ∧ A.Enters f (A.domain f) S.facts blk s
  /-- There is a state in front of every instruction, and its fact is what the transfer makes of
  it. -/
  fact : ∀ {k i}, f.instruction? k = some i →
    ∃ s u, S.before? f k = some s ∧ A.transfer f i (A.domain f) s = .ok u ∧ S.fact? k = some u
  /-- One more pass counts no change and leaves both tables as they are. -/
  pass_eq : A.pass f (A.domain f) (A.boundary (A.domain f)) (A.direction.schedule f)
    ⟨S.facts, S.boundaries⟩ = .ok (⟨S.facts, S.boundaries⟩, 0)

theorem atRest_of_solve (hf : f.WellFormed) (h : (A.solve f).result = .ok S) {b : Block}
    (hb : b ∈ f.blocks) : A.AtRest f (A.domain f) ⟨S.facts, S.boundaries⟩ b := by
  obtain ⟨-, -, t, passes, hsettle, rfl⟩ := solve_eq_ok_iff.1 h
  exact atRest_of_settle hf (fun _ => Direction.mem_schedule_iff) (fits_start _).facts.size_eq
    hsettle hb

/-- **Whatever the solver answers is a fixed point**, also for an analysis that is not monotone, and
whatever its meet is. -/
theorem solve_isFixedPoint {draft : Draft} (hdraft : draft.toFunction = .ok f)
    (h : (A.solve f).result = .ok S) : A.IsFixedPoint f S := by
  have hf := Draft.wellFormed_of_toFunction hdraft
  refine
    { domain_eq := domain_of_solve h
      boundary := fun {b blk} hblk => ?_
      fact := fun {k i} hi => ?_
      pass_eq := ?_ }
  · obtain ⟨s, hbound, hs⟩ := boundary_of_solve hf h (Function.mem_blocks_of_block? hblk)
    rw [hf.id_of_block? hblk] at hbound
    exact ⟨s, hbound, hs⟩
  · obtain ⟨hmem, rfl⟩ := Function.mem_of_instruction? hi
    exact before_of_solve hf h hmem
  · exact pass_of_atRest hf (fun b hb => Direction.mem_schedule_iff.1 hb)
      (facts_size_of_solve hf h) fun b hb =>
        atRest_of_solve hf h (Direction.mem_schedule_iff.1 hb)

end

/-! ### An analysis that is not monotone -/

/-- What holds on an odd number of edges. -/
def oddly : Meet where
  text := "odd"
  unit := FactSet.none
  meet s t := s.sameWidth t fun h => (s.diff t h).union (t.diff s h.symm) h

theorem oddly_keepsWidth (width : Nat) : oddly.KeepsWidth width where
  unit_width := rfl
  meetList_total hvalues := by
    refine Meet.exists_foldlM_meet (fun {s t} hs ht => ?_) hvalues rfl
    exact ⟨_, FactSet.sameWidth_eq_ok_iff.2 ⟨hs.trans ht.symm, rfl⟩, hs⟩

/-- This is neither of the meets that come with the library. -/
theorem oddly_not_mem_all : oddly ∉ Meet.all := by
  intro h
  obtain ⟨m, hm⟩ := Mode.mem_all_iff.1 h
  have htext := congrArg Meet.text hm
  cases m <;> simp [oddly, Mode.operator, Meet.intersect, Meet.union] at htext

/-- Which expressions have been computed an odd number of times: every computation of an expression
takes it out if it is in, and puts it in if it is not. -/
def parity : Analysis Expression where
  name := "parity"
  direction := .forward
  meet := oddly
  contribute _ i := Expression.contributed i
  transfer _ i d s :=
    match Expression.computedBy? i with
    | none => .ok s
    | some e => do
      match ← d.indexOf e with
      | some k => s.set k !s.test k
      | none => .ok s

/-- A sum is computed in front of a branch, in one arm of it, and behind it. -/
def armDraft : Draft where
  name := "arm"
  params := 2
  blockCount := 4
  entries := [
    ⟨0, .binary .add (.param 0) (.param 1), none⟩,
    ⟨0, .branch (.param 0) 1 2, none⟩,
    ⟨3, .binary .add (.param 0) (.param 1), none⟩,
    ⟨3, .ret none, none⟩,
    ⟨1, .binary .add (.param 0) (.param 1), none⟩,
    ⟨1, .jump 3, none⟩,
    ⟨2, .jump 3, none⟩]

theorem armDraft_accepted : armDraft.toFunction = .ok armDraft.assemble :=
  Draft.toFunction_eq_ok_iff.2 ⟨by decide, rfl⟩

/-- In front of the first sum the empty state lies below the full one; behind it the full state
would have to lie below the empty one. -/
theorem parity_not_isMonotone :
    ¬ parity.IsMonotone armDraft.assemble (parity.domain armDraft.assemble) := by
  intro h
  have hle : FactSet.none 1 ≤ FactSet.full 1 := FactSet.le_iff.2 ⟨rfl, by simp⟩
  have hnone : 0 < (FactSet.none 1).width := by decide
  have hfull : 0 < (FactSet.full 1).width := by decide
  have hbehind : (FactSet.none 1).insertAt 0 hnone ≤ (FactSet.full 1).eraseAt 0 hfull :=
    h.transfer_mono (i := ⟨0, 0, .binary .add (.param 0) (.param 1), some (.result 0)⟩) (by decide)
      rfl hle rfl rfl
  have htest := FactSet.test_of_le_of_test hbehind (p := 0) (by simp)
  simp at htest

theorem solve_isFixedPoint_parity :
    armDraft.toFunction = .ok armDraft.assemble ∧ parity.meet ∉ Meet.all ∧
      ¬ parity.IsMonotone armDraft.assemble (parity.domain armDraft.assemble) ∧
      ∃ S, (parity.solve armDraft.assemble).result = .ok S ∧
        parity.IsFixedPoint armDraft.assemble S := by
  obtain ⟨S, hS, -⟩ := Outcome.exists_of_run (x := (parity.solve armDraft.assemble).result)
    (P := fun S => S.passes = 2) (by decide +kernel)
  exact ⟨armDraft_accepted, oddly_not_mem_all, parity_not_isMonotone, S, hS,
    solve_isFixedPoint armDraft_accepted hS⟩

end Analysis

end FactFlow
