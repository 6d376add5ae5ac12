import FactFlow.Analysis.Liveness
import FactFlow.Proofs.Program.Edges
import FactFlow.Proofs.Solve.Extremal
import FactFlow.Proofs.Solve.FixedPoint

/-!
# Layouts in which control only goes ahead

Where every edge leads to a block of a larger number (`Function.EdgesAscend`), a pass visits each
block after all of its neighbors, in either direction.  So it computes every block from facts that
are final, and leaves a solution of the equations; the next pass finds nothing to change
(`Analysis.solve_two_passes`).  Nothing is said about how facts compare here: the transfer need not
be monotone.

What a pass needs of its order is less than that: facts only have to flow ahead in it
(`Direction.FlowsAhead`), so that a visit does not touch the neighbors of blocks already visited.
And what it needs of the edges is that they look at no other facts of the table than those of the
neighbor (`Analysis.ReadsNeighborsOnly`).
-/

namespace FactFlow

theorem Function.WellFormed.instCount_pos {f : Function} (hf : f.WellFormed) : 0 < f.instCount := by
  obtain ⟨i, b, hb, hi⟩ := hf.exists_starts
  exact Nat.zero_lt_of_lt (hf.id_lt (Function.mem_instructions_iff.2
    ⟨b, Function.mem_blocks_of_block? hb, List.mem_of_mem_head? hi⟩))

/-! ### The order of the blocks -/

/-- Every edge goes to a block of a larger number. -/
def Function.EdgesAscend (f : Function) : Prop := ∀ b ∈ f.blocks, ∀ t ∈ b.successors, b.id < t

instance (f : Function) : Decidable f.EdgesAscend :=
  inferInstanceAs (Decidable (∀ b ∈ f.blocks, ∀ t ∈ b.successors, b.id < t))

namespace Direction

/-- Facts only flow ahead in a list of blocks: none of them stands in it twice, or has itself or a
block behind it for a neighbor. -/
def FlowsAhead (dir : Direction) (f : Function) : List Block → Prop
  | [] => True
  | b :: rest => (∀ c ∈ b :: rest, c.id ∉ dir.neighbors f b) ∧ b ∉ rest ∧ dir.FlowsAhead f rest

/-- Number `m` comes before `n` in the order of the direction. -/
def Before (dir : Direction) (m n : BlockId) : Prop :=
  match dir with
  | .forward => m < n
  | .backward => n < m

variable {dir : Direction} {f : Function}

theorem Before.asymm {m n : BlockId} (h : dir.Before m n) : ¬ dir.Before n m := by
  cases dir with
  | forward => exact Nat.lt_asymm h
  | backward => exact Nat.lt_asymm h

theorem before_of_mem_neighbors (h : f.EdgesAscend) {b : Block} (hb : b ∈ f.blocks) {n : BlockId}
    (hn : n ∈ dir.neighbors f b) : dir.Before n b.id := by
  cases dir with
  | forward =>
    obtain ⟨c, hc, rfl, hsucc⟩ := Function.mem_sources_iff.1 hn
    exact h c hc b.id hsucc
  | backward => exact h b hb n hn

theorem schedule_pairwise (hf : f.WellFormed) (dir : Direction) :
    (dir.schedule f).Pairwise fun a b => dir.Before a.id b.id := by
  cases dir with
  | forward => exact hf.blocks_pairwise
  | backward => exact List.pairwise_reverse.2 hf.blocks_pairwise

/-- **Facts flow ahead in the visiting order** if every edge goes to a larger number. -/
theorem flowsAhead_schedule (hf : f.WellFormed) (h : f.EdgesAscend) (dir : Direction) :
    dir.FlowsAhead f (dir.schedule f) := by
  have hblocks : ∀ b ∈ dir.schedule f, b ∈ f.blocks := fun b => mem_schedule_iff.1
  have hpairwise := schedule_pairwise hf dir
  generalize dir.schedule f = order at hblocks hpairwise ⊢
  induction order with
  | nil => trivial
  | cons b rest ih =>
    obtain ⟨hb, hrest⟩ := List.forall_mem_cons.1 hblocks
    obtain ⟨hbefore, hpairwise⟩ := List.pairwise_cons.1 hpairwise
    refine ⟨fun c hc hn => ?_, fun hmem => (hbefore b hmem).asymm (hbefore b hmem),
      ih hrest hpairwise⟩
    have hcb := before_of_mem_neighbors h hb hn
    rcases List.mem_cons.1 hc with rfl | hc
    · exact hcb.asymm hcb
    · exact hcb.asymm (hbefore c hc)

end Direction

namespace Analysis

section

variable {α : Type} (A : Analysis α) (f : Function) (d : Domain α)

/-- Of the facts in a table, the edge from a neighbor looks at those of the neighbor only. -/
def ReadsNeighborsOnly : Prop :=
  ∀ b ∈ f.blocks, ∀ n ∈ A.direction.neighbors f b, ∀ facts facts' : Facts,
    facts.Fits f.instCount d.size → facts'.Fits f.instCount d.size →
    (∀ c, f.block? n = some c → ∀ i ∈ c.body, facts'[i.id]? = facts[i.id]?) →
    ∀ s : FactSet, s.width = d.size →
      A.alongEdge f b.id n facts' d s = A.alongEdge f b.id n facts d s

variable {A f d}

theorem HasPlainEdges.readsNeighborsOnly (h : A.HasPlainEdges f d) : A.ReadsNeighborsOnly f d := by
  intro b _ n _ facts facts' _ _ _ s _
  rw [h, h]

/-- Tables that agree on the neighbors of a block agree on the state in which facts enter it. -/
theorem Enters.congr_neighbors (hA : A.ReadsNeighborsOnly f d) {facts facts' : Facts}
    (hfits : facts.Fits f.instCount d.size) (hfits' : facts'.Fits f.instCount d.size) {b : Block}
    (hb : b ∈ f.blocks)
    (heq : ∀ n ∈ A.direction.neighbors f b, ∀ c, f.block? n = some c → ∀ i ∈ c.body,
      facts'[i.id]? = facts[i.id]?)
    {s : FactSet} (h : A.Enters f d facts b s) : A.Enters f d facts' b s := by
  unfold Enters at h ⊢
  split
  · rename_i hnil
    rwa [if_pos hnil] at h
  · rename_i hne
    rw [if_neg hne] at h
    obtain ⟨values, hvalues, hs⟩ := h
    have hall := (List.forall₂_and_left _ _).2 ⟨fun n hn => hn, hvalues⟩
    refine ⟨values, hall.imp fun n v hsend => ?_, hs⟩
    obtain ⟨hn, c, i, u, hc, hi, hu, hv⟩ := hsend
    refine ⟨c, i, u, hc, hi, (heq n hn c hc i (Direction.mem_of_exit? hi)).trans hu, ?_⟩
    rwa [hA b hb n hn facts facts' hfits hfits' (heq n hn) u (hfits.width_eq hu)]

/-! ### Passes -/

/-- A flow goes through where the computed states are as wide as the stored facts. -/
theorem exists_flow {l : List Instruction} {s : FactSet} {facts : Facts}
    (hnodup : (l.map (·.id)).Nodup)
    (h : A.Along f d (fun t u => t.width = u.width) facts s l) :
    ∃ facts' n, A.flow f d l s facts = .ok (facts', n) := by
  induction l generalizing s facts with
  | nil => exact ⟨facts, 0, rfl⟩
  | cons i rest ih =>
    obtain ⟨hfresh, hnodup'⟩ := List.nodup_cons.1 hnodup
    obtain ⟨t, u, ht, hu, hw, hrest⟩ := h
    obtain ⟨facts', n, hflow⟩ := ih hnodup' (hrest.setIfInBounds (k := i.id) hfresh)
    exact ⟨facts', n + if t = u then 0 else 1,
      (flow_cons_eq_ok_iff hu).2 ⟨t, n, ht, hw, hflow, rfl⟩⟩

namespace KeepsWidth

variable (hA : A.KeepsWidth f d) (hm : A.meet.KeepsWidth d.size) (hf : f.WellFormed)
include hA hm hf

theorem exists_visit {t : Tables} (hfits : t.Fits f d.size) {b : Block}
    (hb : b ∈ f.blocks) : ∃ t' n, A.visit f d (A.boundary d) t b = .ok (t', n) := by
  have hwidth : A.Balanced f d (fun t u => t.width = u.width) t.facts :=
    hA.balanced hf hfits.facts (fun _ hw hu => hw.trans (hfits.facts.width_eq hu).symm) hm
  obtain ⟨s, hs, halong⟩ := hwidth b hb
  obtain ⟨facts', n, hflow⟩ := exists_flow (Direction.through_ids_nodup hf _ hb) halong
  exact ⟨⟨facts', t.boundaries.setIfInBounds b.id s⟩, n, (visit_eq_ok_iff hf hb).2
    ⟨s, (blockInput_eq_ok_iff hf hfits.facts.size_eq hb).2 hs, hfits.lt_boundaries hf hb, hflow,
      rfl⟩⟩

/-- **A pass in which facts only flow ahead** leaves all blocks that it visits in balance. -/
theorem pass_ahead (hedges : A.ReadsNeighborsOnly f d) {order : List Block}
    (horder : ∀ b ∈ order, b ∈ f.blocks) (hahead : A.direction.FlowsAhead f order) {t : Tables}
    (hfits : t.Fits f d.size) :
    ∃ t' n, A.pass f d (A.boundary d) order t = .ok (t', n) ∧ t'.Fits f d.size ∧
      ∀ b ∈ order, ∃ s, A.Enters f d t'.facts b s ∧
        A.Along f d (· = ·) t'.facts s (A.direction.through b) := by
  induction order generalizing t with
  | nil => exact ⟨t, 0, rfl, hfits, fun b hb => by cases hb⟩
  | cons b rest ih =>
    obtain ⟨hb, hrest⟩ := List.forall_mem_cons.1 horder
    obtain ⟨hneighbors, hfresh, hahead⟩ := hahead
    obtain ⟨t₁, k₁, hvisit⟩ := hA.exists_visit hm hf hfits hb
    obtain ⟨s, hs, hflowed⟩ := visit_spec hf hfits.facts.size_eq hb hvisit
    have hfits₁ := fits_of_visit hf hb hfits hvisit
    obtain ⟨t', k₂, hpass, hfits', hbalanced⟩ := ih hrest hahead hfits₁
    have hall : A.pass f d (A.boundary d) (b :: rest) t = .ok (t', k₁ + k₂) :=
      pass_cons_eq_ok_iff.2 ⟨t₁, k₁, k₂, hvisit, hpass, rfl⟩
    refine ⟨t', k₁ + k₂, hall, hfits', List.forall_mem_cons.2 ⟨⟨s, ?_, ?_⟩, hbalanced⟩⟩
    · -- no neighbor of `b` is visited now or later, so `b` has seen what its neighbors end with
      refine hs.congr_neighbors hedges hfits.facts hfits'.facts hb fun n hn c hc i hi => ?_
      refine pass_frame hf horder hfits.facts.size_eq hall (Function.mem_blocks_of_block? hc)
        (fun hmem => hneighbors c hmem ?_) hi
      rwa [hf.id_of_block? hc]
    · refine hflowed.along.congr fun i hi => ?_
      exact pass_frame hf hrest hfits₁.facts.size_eq hpass hb hfresh
        (Direction.mem_through_iff.1 hi)

/-- Over an empty domain every table is a solution. -/
theorem solves_of_size_eq_zero (hsize : d.size = 0) {facts : Facts}
    (hfits : facts.Fits f.instCount d.size) : A.Solves f d facts := by
  refine hA.balanced hf hfits (fun {i t u} _ hw hu => ?_) hm
  have hw' := hfits.width_eq hu
  refine FactSet.eq_of_test (hw.trans hw'.symm) fun p => ?_
  rw [t.test_of_le (by omega), u.test_of_le (by omega)]

end KeepsWidth

/-- Once a pass leaves a solution, the next pass is the last one. -/
theorem settle_of_pass_solves (hf : f.WellFormed) {order : List Block}
    (horder : ∀ b ∈ order, b ∈ f.blocks) {limit done changed : Nat} {t t₁ : Tables}
    (hpass : A.pass f d (A.boundary d) order t = .ok (t₁, changed))
    (hfits : t₁.Fits f d.size) (hsolves : A.Solves f d t₁.facts) :
    ∃ t' passes, (A.settle f d (A.boundary d) order (limit + 2) done t).result =
        .ok (t', passes) ∧ passes ≤ done + 2 := by
  by_cases hzero : changed = 0
  · refine ⟨t₁, done + 1, settle_succ_eq_ok_iff.2 ⟨t₁, changed, hpass, ?_⟩, by omega⟩
    simp [hzero]
  · obtain ⟨t₂, hpass₂, -⟩ := pass_of_solves hf horder hfits hsolves
    refine ⟨t₂, done + 2, settle_succ_eq_ok_iff.2 ⟨t₁, changed, hpass, ?_⟩, Nat.le_refl _⟩
    rw [if_neg hzero]
    exact settle_succ_eq_ok_iff.2 ⟨t₂, 0, hpass₂, by simp⟩

end

theorem liveness_readsNeighborsOnly {f : Function} {d : Domain Value} :
    liveness.ReadsNeighborsOnly f d := by
  intro b _ n _ facts facts' _ _ heq s _
  change Liveness.alongEdge f b.id n facts' d s = Liveness.alongEdge f b.id n facts d s
  unfold Liveness.alongEdge Function.block
  cases hc : f.block? n with
  | none => rfl
  | some c =>
    -- the one fact looked up is that of an instruction of the neighbor
    have hfact : (c.body[c.phis.length]?.bind fun i => facts'[i.id]?) =
        c.body[c.phis.length]?.bind fun i => facts[i.id]? := by
      cases hi : c.body[c.phis.length]? with
      | none => rfl
      | some i => exact heq c hc i (List.mem_of_getElem? hi)
    simp only [Outcome.ok_bind, hfact]

/-! ### Two passes -/

section

variable {α : Type} [DecidableEq α] {A : Analysis α} {f : Function}

theorem KeepsWidth.exists_solve_ahead (hA : A.KeepsWidth f (A.domain f))
    (hm : A.meet.KeepsWidth (A.domain f).size) (hf : f.WellFormed) (hlayout : f.EdgesAscend)
    (hpre : A.precondition f = .ok ()) (hedges : A.ReadsNeighborsOnly f (A.domain f)) :
    ∃ S, (A.solve f).result = .ok S ∧ S.passes ≤ 2 := by
  have horder : ∀ b ∈ A.direction.schedule f, b ∈ f.blocks := fun b => Direction.mem_schedule_iff.1
  have hstart : (A.start f (A.domain f) (A.boundary (A.domain f))).Fits f (A.domain f).size :=
    ⟨fits_identities hm.unit_width _, (fits_start _).boundaries⟩
  obtain ⟨t, passes, hsettle, hpasses⟩ : ∃ t passes,
      (A.settle f (A.domain f) (A.boundary (A.domain f)) (A.direction.schedule f)
        (A.tableCount f (A.domain f)) 0
        (A.start f (A.domain f) (A.boundary (A.domain f)))).result = .ok (t, passes) ∧
      passes ≤ 2 := by
    rw [tableCount_eq hm.unit_width]
    by_cases hsize : (A.domain f).size = 0
    · -- the limit is one pass, and it is enough
      obtain ⟨t, hpass, -⟩ := pass_of_solves hf horder hstart
        (hA.solves_of_size_eq_zero hm hf hsize hstart.facts)
      refine ⟨t, 1, ?_, by omega⟩
      rw [hsize, Nat.mul_zero]
      exact settle_succ_eq_ok_iff.2 ⟨t, 0, hpass, by simp⟩
    · obtain ⟨t₁, changed, hpass, hfits, hbalanced⟩ := hA.pass_ahead hm hf hedges horder
        (Direction.flowsAhead_schedule hf hlayout A.direction) hstart
      have hsolves : A.Solves f (A.domain f) t₁.facts := fun b hb =>
        hbalanced b (Direction.mem_schedule_iff.2 hb)
      have hpos : 0 < f.instCount * (A.domain f).size :=
        Nat.mul_pos hf.instCount_pos (Nat.pos_of_ne_zero hsize)
      obtain ⟨limit, hlimit⟩ : ∃ limit, 2 ^ (f.instCount * (A.domain f).size) = limit + 2 :=
        Nat.exists_eq_add_of_le' (Nat.pow_le_pow_right Nat.two_pos hpos)
      rw [hlimit]
      exact settle_of_pass_solves hf horder hpass hfits hsolves
  exact ⟨_, solve_eq_ok_iff.2 ⟨hpre, hA.boundary_width, t, passes, hsettle, rfl⟩, hpasses⟩

/-- **Two passes are enough where control only goes ahead**, for every analysis that keeps widths,
as its meet does, and whose edges look at the facts of the neighbor only, as plain edges and those
of the live variables do. -/
theorem solve_two_passes {draft : Draft} (hdraft : draft.toFunction = .ok f)
    (hlayout : f.EdgesAscend) :
    (∀ A : Analysis α, A.HasPlainEdges f (A.domain f) → A.ReadsNeighborsOnly f (A.domain f)) ∧
      liveness.ReadsNeighborsOnly f (liveness.domain f) ∧
      ∀ A : Analysis α, A.precondition f = .ok () → A.KeepsWidth f (A.domain f) →
        A.meet.KeepsWidth (A.domain f).size → A.ReadsNeighborsOnly f (A.domain f) →
        ∃ S, (A.solve f).result = .ok S ∧ S.passes ≤ 2 := by
  have hf := Draft.wellFormed_of_toFunction hdraft
  exact ⟨fun A h => h.readsNeighborsOnly, liveness_readsNeighborsOnly, fun A hpre hA hm hedges =>
    hA.exists_solve_ahead hm hf hlayout hpre hedges⟩

end

theorem parity_keepsWidth (f : Function) : parity.KeepsWidth f (parity.domain f) where
  boundary_width := rfl
  transfer_total {i s} _ hw := by
    simp only [parity]
    cases Expression.computedBy? i with
    | none => exact ⟨s, rfl, hw⟩
    | some e =>
      rcases Domain.indexOf_cases (d := parity.domain f) rfl e with ⟨k, hk, hget⟩ | ⟨hk, -⟩
      · have hlt : k < s.width := hw ▸ Domain.lt_size_of_get? hget
        obtain ⟨t, ht, hwt⟩ : ∃ t, s.set k (!s.test k) = .ok t ∧ t.width = s.width := by
          cases s.test k with
          | false =>
            obtain ⟨t, ht, hwt, -⟩ := FactSet.exists_insert hlt
            exact ⟨t, ht, hwt⟩
          | true =>
            obtain ⟨t, ht, hwt, -⟩ := FactSet.exists_erase hlt
            exact ⟨t, ht, hwt⟩
        exact ⟨t, Outcome.bind_eq_ok_iff.2 ⟨some k, hk, ht⟩, hwt.trans hw⟩
      · exact ⟨s, Outcome.bind_eq_ok_iff.2 ⟨none, hk, rfl⟩, hw⟩
  edge_total _ _ _ hw := ⟨_, rfl, hw⟩

theorem solve_two_passes_parity :
    armDraft.toFunction = .ok armDraft.assemble ∧ armDraft.assemble.EdgesAscend ∧
      parity.meet ∉ Meet.all ∧ parity.meet.KeepsWidth (parity.domain armDraft.assemble).size ∧
      ¬ parity.IsMonotone armDraft.assemble (parity.domain armDraft.assemble) ∧
      parity.KeepsWidth armDraft.assemble (parity.domain armDraft.assemble) ∧
      parity.ReadsNeighborsOnly armDraft.assemble (parity.domain armDraft.assemble) ∧
      ∃ S, (parity.solve armDraft.assemble).result = .ok S ∧ S.passes ≤ 2 := by
  have hlayout : armDraft.assemble.EdgesAscend := by decide
  obtain ⟨hplain, -, hpasses⟩ := solve_two_passes (α := Expression) armDraft_accepted hlayout
  have hwidth := parity_keepsWidth armDraft.assemble
  have hedges := hplain parity fun _ _ _ _ => rfl
  exact ⟨armDraft_accepted, hlayout, oddly_not_mem_all, oddly_keepsWidth _, parity_not_isMonotone,
    hwidth, hedges, hpasses parity rfl hwidth (oddly_keepsWidth _) hedges⟩

end Analysis

end FactFlow
