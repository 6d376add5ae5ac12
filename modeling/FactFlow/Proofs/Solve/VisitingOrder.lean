import FactFlow.Proofs.Analysis.Liveness
import FactFlow.Proofs.Solve.Bound
import FactFlow.Proofs.Solve.Extremal
import FactFlow.Proofs.Solve.FixedPoint

/-!
# The visiting order

A pass sees the facts that it has just stored.  So the order in which it visits the blocks decides
which tables a run goes through, and how many of them.  For a monotone analysis it does not decide
where the run ends (`Analysis.settle_independent_of_order`).

Runs of two orders need not have a table in common between the first and the last, so they are not
compared step by step.  Each ends with a solution of the equations, and below the end of each lie
all solutions; so the two ends lie below each other (`Analysis.IsMonotoneIn.settle_unique`).  The
boundaries follow, since at rest they are computed from the facts.
-/

namespace FactFlow

theorem Facts.eq_of_below {m : Mode} {facts facts' : Facts} (hsize : facts.size = facts'.size)
    (h : Pointwise m.Below facts facts') (h' : Pointwise m.Below facts' facts) :
    facts = facts' := by
  refine Array.ext hsize fun k hk hk' => ?_
  have hk : facts[k]? = some facts[k] := Array.getElem?_eq_getElem hk
  have hk' : facts'[k]? = some facts'[k] := Array.getElem?_eq_getElem hk'
  exact (h k _ _ hk hk').antisymm (h' k _ _ hk' hk)

namespace Analysis

variable {α : Type} {A : Analysis α} {f : Function} {d : Domain α}

/-! ### One table for all orders -/

/-- Tables at rest with the same facts are the same. -/
theorem eq_of_atRest (hf : f.WellFormed) {t t' : Tables} (hsize : t.facts.size = f.instCount)
    (hbounds : t.boundaries.size = f.blockCount) (hbounds' : t'.boundaries.size = f.blockCount)
    (h : ∀ b ∈ f.blocks, A.AtRest f d t b) (h' : ∀ b ∈ f.blocks, A.AtRest f d t' b)
    (hfacts : t.facts = t'.facts) : t = t' := by
  have hboundaries : t.boundaries = t'.boundaries := by
    refine Array.ext (hbounds.trans hbounds'.symm) fun k hk hk' => ?_
    have hlt : k < f.blockCount := hbounds ▸ hk
    have hblk : f.block? k = some _ := List.getElem?_eq_getElem hlt
    have hb := Function.mem_blocks_of_block? hblk
    obtain ⟨s, hs, henters, -⟩ := h _ hb
    obtain ⟨s', hs', henters', -⟩ := h' _ hb
    rw [← hfacts] at henters'
    rw [hf.id_of_block? hblk] at hs hs'
    obtain rfl : s = s' := henters.unique hf hsize hb henters'
    rw [Array.getElem?_eq_getElem hk] at hs
    rw [Array.getElem?_eq_getElem hk'] at hs'
    exact (Option.some.inj hs).trans (Option.some.inj hs').symm
  cases t
  cases t'
  cases hfacts
  cases hboundaries
  rfl

namespace IsMonotoneIn

variable {m : Mode} (hA : A.IsMonotoneIn f d m) (hf : f.WellFormed)
include hA hf

/-- **Two runs settle on the same table**, whatever the orders in which they visit the blocks. -/
theorem settle_unique {order order' : List Block} (horder : ∀ b, b ∈ order ↔ b ∈ f.blocks)
    (horder' : ∀ b, b ∈ order' ↔ b ∈ f.blocks) {boundaries boundaries' : Array FactSet}
    (hbounds : boundaries.size = f.blockCount) (hbounds' : boundaries'.size = f.blockCount)
    {limit limit' passes passes' : Nat} {t t' : Tables}
    (h : (A.settle f d (A.boundary d) order limit 0
      ⟨Array.replicate f.instCount (A.meet.unit d.size), boundaries⟩).result = .ok (t, passes))
    (h' : (A.settle f d (A.boundary d) order' limit' 0
      ⟨Array.replicate f.instCount (A.meet.unit d.size), boundaries'⟩).result =
        .ok (t', passes')) : t = t' := by
  have hunit := fits_identities hA.meet_keepsWidth.unit_width f.instCount
  have hrest : ∀ b ∈ f.blocks, A.AtRest f d t b := fun b hb =>
    atRest_of_settle hf horder hunit.size_eq h hb
  have hrest' : ∀ b ∈ f.blocks, A.AtRest f d t' b := fun b hb =>
    atRest_of_settle hf horder' hunit.size_eq h' hb
  have hfits := fits_of_settle hf (fun b => (horder b).1) hunit h
  have hfits' := fits_of_settle hf (fun b => (horder' b).1) hunit h'
  -- each of the two is a solution, and so lies below the end of the other run
  have hbelow := hA.solves_below_settle hf (fun b => (horder' b).1) hfits
    (solves_of_atRest hrest) h'
  have hbelow' := hA.solves_below_settle hf (fun b => (horder b).1) hfits'
    (solves_of_atRest hrest') h
  exact eq_of_atRest hf hfits.size_eq ((boundaries_size_of_settle h).trans hbounds)
    ((boundaries_size_of_settle h').trans hbounds') hrest hrest'
    (Facts.eq_of_below (hfits.size_eq.trans hfits'.size_eq.symm) hbelow hbelow')

/-- **A run settles in any order** that visits blocks of the function only. -/
theorem exists_settle {order : List Block} (horder : ∀ b ∈ order, b ∈ f.blocks)
    {boundaries : Array FactSet} (hbounds : boundaries.size = f.blockCount) :
    ∃ t passes, passes ≤ f.instCount * d.size + 1 ∧ ∀ limit, passes ≤ limit →
      (A.settle f d (A.boundary d) order limit 0
        ⟨Array.replicate f.instCount (A.meet.unit d.size), boundaries⟩).result =
          .ok (t, passes) := by
  obtain ⟨t, passes, hsettle, hpasses⟩ := hA.settle_descends hf horder 0
    (t := ⟨Array.replicate f.instCount (A.meet.unit d.size), boundaries⟩)
    ⟨fits_identities hA.meet_keepsWidth.unit_width _, hbounds⟩ (hA.balanced_identities hf)
    (Nat.lt_succ_of_le (Nat.sub_le _ _))
  refine ⟨t, passes, by omega, fun limit hlimit => settle_of_le hsettle (by omega)⟩

end IsMonotoneIn

section

variable [DecidableEq α]

/-- Passes in the given order, from a table of identities and any boundaries on, come to an end, and
the last one leaves `t`. -/
def SettlesOn (A : Analysis α) (f : Function) (order : List Block) (t : Tables) : Prop :=
  ∀ boundaries : Array FactSet, boundaries.size = f.blockCount →
    ∃ passes, passes ≤ f.instCount * (A.domain f).size + 1 ∧ ∀ limit, passes ≤ limit →
      (A.settle f (A.domain f) (A.boundary (A.domain f)) order limit 0
        ⟨Array.replicate f.instCount (A.meet.unit (A.domain f).size), boundaries⟩).result =
          .ok (t, passes)

/-- **The solution does not depend on the visiting order.**  There is one table on which passes
settle whatever permutation of the blocks they go by, and it is what the solver answers with if it
accepts the function. -/
theorem settle_independent_of_order {draft : Draft} (hdraft : draft.toFunction = .ok f)
    (hmeet : A.meet ∈ Meet.all) (hA : A.IsMonotone f (A.domain f)) :
    ∃ t : Tables, (∀ order : List Block, order.Perm f.blocks → A.SettlesOn f order t) ∧
      (A.precondition f = .ok () →
        ∃ S, (A.solve f).result = .ok S ∧ S.facts = t.facts ∧ S.boundaries = t.boundaries) := by
  have hf := Draft.wellFormed_of_toFunction hdraft
  obtain ⟨m, hm⟩ := Mode.mem_all_iff.1 hmeet
  have hA : A.IsMonotoneIn f (A.domain f) m := ⟨hA, hm⟩
  have hstart : (Array.replicate f.blockCount (A.boundary (A.domain f))).size = f.blockCount :=
    Array.size_replicate
  obtain ⟨t, passes, -, hsettle⟩ :=
    hA.exists_settle hf (fun b (hb : b ∈ f.blocks) => hb) hstart
  refine ⟨t, fun order hperm boundaries hbounds => ?_, fun hpre => ?_⟩
  · obtain ⟨t', passes', hle, hsettle'⟩ :=
      hA.exists_settle hf (fun b hb => hperm.mem_iff.1 hb) hbounds
    obtain rfl : t' = t := hA.settle_unique hf (fun _ => hperm.mem_iff) (fun _ => Iff.rfl) hbounds
      hstart (hsettle' passes' (Nat.le_refl _)) (hsettle passes (Nat.le_refl _))
    exact ⟨passes', hle, hsettle'⟩
  · obtain ⟨S, hS, -⟩ := hA.exists_solve hf hpre
    obtain ⟨-, -, t', passes', hsettle', rfl⟩ := solve_eq_ok_iff.1 hS
    obtain rfl : t' = t := hA.settle_unique hf (fun _ => Direction.mem_schedule_iff)
      (fun _ => Iff.rfl) hstart hstart hsettle' (hsettle passes (Nat.le_refl _))
    exact ⟨_, hS, rfl, rfl⟩

end

/-- Neither with control nor against it, into the loop `1 → 2 → 1` from the middle. -/
theorem settle_independent_of_order_swap :
    swapDraft.toFunction = .ok swapDraft.assemble ∧
      ([1, 3, 0, 2].filterMap swapDraft.assemble.block?).Perm swapDraft.assemble.blocks ∧
      ∃ t, liveness.SettlesOn swapDraft.assemble
          ([1, 3, 0, 2].filterMap swapDraft.assemble.block?) t ∧
        ∃ S, (liveness.solve swapDraft.assemble).result = .ok S ∧ S.facts = t.facts ∧
          S.boundaries = t.boundaries := by
  have hperm : ([1, 3, 0, 2].filterMap swapDraft.assemble.block?).Perm
      swapDraft.assemble.blocks := by decide
  obtain ⟨t, horder, hsolve⟩ := settle_independent_of_order swapDraft_accepted
    (Mode.mem_all_iff.2 ⟨.may, rfl⟩)
    (liveness_isMonotone (Draft.wellFormed_of_toFunction swapDraft_accepted) rfl)
  exact ⟨swapDraft_accepted, hperm, t, horder _ hperm, hsolve rfl⟩

end Analysis

end FactFlow
