import FactFlow.Proofs.Analysis.Liveness

/-!
# Distributive analyses

An analysis is distributive (`Analysis.IsDistributive`) when its transfer and its edges commute with
union and with intersection.  An edge takes a whole table of facts, so it is compared on tables:
what a block receives from the union of two tables is the union of what it receives from each.

Sets that are made by generating and killing elements are met element by element
(`Domain.Updates.meet`).  So a gen-kill analysis is distributive as soon as its edges are gen-kill
too, each from the fact of one instruction of the neighbor (`Analysis.UpdatesAlongEdges`).  A plain
edge passes on the fact through which the neighbor is left; an edge of the live variables starts
from the fact behind the neighbor's phis.
-/

namespace FactFlow

namespace Domain

variable {α : Type} {d : Domain α} {gen kill : α → Prop}

/-- Updating commutes with both meets. -/
theorem Updates.meet {m : Mode} {x y z x' y' z' : FactSet} (hx : d.Updates gen kill x x')
    (hy : d.Updates gen kill y y') (hz : d.Updates gen kill z z')
    (h : m.operator.meet x y = .ok z) : m.operator.meet x' y' = .ok z' := by
  obtain ⟨-, -, htest⟩ := Mode.meet_eq_ok_iff.1 h
  refine Mode.meet_eq_ok_iff.2 ⟨hx.1.trans hy.1.symm, hz.1.trans hx.1.symm, fun p => ?_⟩
  by_cases hp : p < d.size
  · obtain ⟨e, he⟩ := exists_get?_of_lt hp
    have hp := htest p
    cases m with
    | must =>
      rw [Bool.eq_iff_iff, Bool.and_eq_true, hx.2 he, hy.2 he, hz.2 he, hp, Bool.and_eq_true]
      tauto
    | may =>
      rw [Bool.eq_iff_iff, Bool.or_eq_true, hx.2 he, hy.2 he, hz.2 he, hp, Bool.or_eq_true]
      tauto
  · have hout : ∀ {s : FactSet}, s.width = d.size → s.test p = false := fun hw =>
      FactSet.test_of_le _ (by omega)
    rw [hout hx.1, hout hy.1, hout hz.1]
    cases m <;> rfl

end Domain

/-- Table `Z` is the meet of `X` and `Y`, fact by fact. -/
def Facts.IsMeetOf (m : Mode) (X Y Z : Facts) : Prop :=
  ∀ (k : InstId) (x y z : FactSet), X[k]? = some x → Y[k]? = some y → Z[k]? = some z →
    m.operator.meet x y = .ok z

namespace Analysis

section

variable {α : Type} (A : Analysis α) (f : Function) (d : Domain α)

/-- Facts leave block `n` in state `u`: the fact of its last instruction, or of its first one if
they flow against control. -/
def Leaves (facts : Facts) (n : BlockId) (u : FactSet) : Prop :=
  ∃ c i, f.block? n = some c ∧ A.direction.exit? c = some i ∧ facts[i.id]? = some u

/-- Transfer and edges answer, keep the width, are monotone and commute with both meets.  The edges
do so for tables of any size, from the state in which facts leave the neighbor. -/
structure IsDistributive : Prop where
  /-- The transfer keeps the width. -/
  transfer_total : ∀ {i s}, i ∈ f.instructions → s.width = d.size →
    ∃ t, A.transfer f i d s = .ok t ∧ t.width = s.width
  /-- The transfer is monotone. -/
  transfer_mono : ∀ {i x y x' y'}, i ∈ f.instructions → x.width = d.size → x ≤ y →
    A.transfer f i d x = .ok x' → A.transfer f i d y = .ok y' → x' ≤ y'
  /-- The transfer of a meet is the meet of the transfers. -/
  transfer_meet : ∀ {m : Mode} {i x y z x' y' z'}, i ∈ f.instructions → x.width = d.size →
    m.operator.meet x y = .ok z → A.transfer f i d x = .ok x' → A.transfer f i d y = .ok y' →
    A.transfer f i d z = .ok z' → m.operator.meet x' y' = .ok z'
  /-- The edges keep the width. -/
  edge_total : ∀ {b n facts count u}, b ∈ f.blocks → n ∈ A.direction.neighbors f b →
    Facts.Fits facts count d.size → A.Leaves f facts n u →
    ∃ v, A.alongEdge f b.id n facts d u = .ok v ∧ v.width = u.width
  /-- The edges are monotone in the table. -/
  edge_mono : ∀ {b n X Y count x' y'}, b ∈ f.blocks → n ∈ A.direction.neighbors f b →
    Facts.Fits X count d.size → Facts.Fits Y count d.size → Facts.Pointwise (· ≤ ·) X Y →
    A.Sends f d X b n x' → A.Sends f d Y b n y' → x' ≤ y'
  /-- What a meet of tables sends is the meet of what they send. -/
  edge_meet : ∀ {m b n X Y Z count x' y' z'}, b ∈ f.blocks → n ∈ A.direction.neighbors f b →
    Facts.Fits X count d.size → Facts.Fits Y count d.size → Facts.Fits Z count d.size →
    Facts.IsMeetOf m X Y Z → A.Sends f d X b n x' → A.Sends f d Y b n y' →
    A.Sends f d Z b n z' → m.operator.meet x' y' = .ok z'

/-- What a block receives from its neighbor `n` updates the fact of one instruction, the port of
`n`.  The port does not depend on the block, nor on the table of `count` facts. -/
def UpdatesAlongEdges (count : Nat) : Prop :=
  ∀ n, ∃ port : InstId, ∀ b ∈ f.blocks, n ∈ A.direction.neighbors f b →
    ∃ gen kill : α → Prop, ∀ {facts u}, Facts.Fits facts count d.size → A.Leaves f facts n u →
      ∃ s v, facts[port]? = some s ∧ A.alongEdge f b.id n facts d u = .ok v ∧
        d.Updates gen kill s v

variable {A f d}

/-- Each edge into a block updates what is stored at the port of its neighbor. -/
theorem UpdatesAlongEdges.exists_updates {count : Nat} (h : A.UpdatesAlongEdges f d count)
    {n : BlockId} : ∃ port : InstId, ∀ b ∈ f.blocks, n ∈ A.direction.neighbors f b →
      ∃ gen kill : α → Prop, ∀ {facts v}, Facts.Fits facts count d.size →
        A.Sends f d facts b n v → ∃ s, facts[port]? = some s ∧ d.Updates gen kill s v := by
  obtain ⟨port, hport⟩ := h n
  refine ⟨port, fun b hb hn => ?_⟩
  obtain ⟨gen, kill, hedge⟩ := hport b hb hn
  refine ⟨gen, kill, fun {facts v} hfits hsend => ?_⟩
  obtain ⟨c, i, u, hc, hi, hu, hv⟩ := hsend
  obtain ⟨s, v', hs, hv', hupdates⟩ := hedge hfits ⟨c, i, hc, hi, hu⟩
  cases hv.symm.trans hv'
  exact ⟨s, hs, hupdates⟩

/-- **A gen-kill analysis with gen-kill edges is distributive.** -/
theorem IsGenKill.isDistributive {gen kill : Instruction → α → Prop}
    (h : A.IsGenKill f d gen kill) (hedges : ∀ count, A.UpdatesAlongEdges f d count) :
    A.IsDistributive f d where
  transfer_total {i s} hi hw := by
    obtain ⟨t, ht, hwt, -⟩ := h.transfer_spec hi hw
    exact ⟨t, ht, hwt.trans hw.symm⟩
  transfer_mono hi hw hle hx hy := h.transfer_mono hi hw hle hx hy
  transfer_meet {m i x y z x' y' z'} hi hw hm hx hy hz := by
    obtain ⟨hwidth, hwz, -⟩ := Mode.meet_eq_ok_iff.1 hm
    exact (h.updates hi hw hx).meet (h.updates hi (hwidth ▸ hw) hy)
      (h.updates hi (hwz.trans hw) hz) hm
  edge_total {b n facts count u} hb hn hfits hu := by
    obtain ⟨port, hport⟩ := hedges count n
    obtain ⟨gen, kill, hedge⟩ := hport b hb hn
    obtain ⟨s, v, -, hv, hupdates⟩ := hedge hfits hu
    obtain ⟨c, i, -, -, hu⟩ := hu
    exact ⟨v, hv, hupdates.1.trans (hfits.width_eq hu).symm⟩
  edge_mono {b n X Y count x' y'} hb hn hX hY hle hx hy := by
    obtain ⟨port, hport⟩ := (hedges count).exists_updates (n := n)
    obtain ⟨gen, kill, hedge⟩ := hport b hb hn
    obtain ⟨x, hx, hxx'⟩ := hedge hX hx
    obtain ⟨y, hy, hyy'⟩ := hedge hY hy
    exact hxx'.mono hyy' (hle port x y hx hy)
  edge_meet {m b n X Y Z count x' y' z'} hb hn hX hY hZ hm hx hy hz := by
    obtain ⟨port, hport⟩ := (hedges count).exists_updates (n := n)
    obtain ⟨gen, kill, hedge⟩ := hport b hb hn
    obtain ⟨x, hx, hxx'⟩ := hedge hX hx
    obtain ⟨y, hy, hyy'⟩ := hedge hY hy
    obtain ⟨z, hz, hzz'⟩ := hedge hZ hz
    exact hxx'.meet hyy' hzz' (hm port x y z hx hy hz)

/-- Along a plain edge, the port is where facts leave the neighbor, and nothing is changed. -/
theorem HasPlainEdges.updatesAlongEdges (h : A.HasPlainEdges f d) (count : Nat) :
    A.UpdatesAlongEdges f d count := by
  intro n
  by_cases hport : ∃ c i, f.block? n = some c ∧ A.direction.exit? c = some i
  · obtain ⟨c, i, hc, hi⟩ := hport
    refine ⟨i.id, fun b _ _ => ⟨fun _ => False, fun _ => False, fun {facts u} hfits hleaves => ?_⟩⟩
    obtain ⟨c', i', hc', hi', hu⟩ := hleaves
    cases hc.symm.trans hc'
    cases hi.symm.trans hi'
    exact ⟨u, u, hu, h _ _ _ _, hfits.width_eq hu, by simp⟩
  · refine ⟨0, fun b _ _ => ⟨fun _ => False, fun _ => False, fun {facts u} _ hleaves => ?_⟩⟩
    obtain ⟨c, i, hc, hi, -⟩ := hleaves
    exact absurd ⟨c, i, hc, hi⟩ hport

end

/-! ### The analyses -/

variable {f : Function}

/-- A table that ends in front of the instruction behind the phis sends the value as it is. -/
theorem Liveness.alongEdge_of_missing {d : Domain Value} {n : BlockId} {c : Block}
    (hc : f.block? n = some c) {i : Instruction} (hi : c.behindPhis? = some i) {facts : Facts}
    (hmissing : facts[i.id]? = none) (block : BlockId) (value : FactSet) :
    alongEdge f block n facts d value = .ok value := by
  have hfact : (c.body[c.phis.length]?.bind fun i => facts[i.id]?) = none := by
    rw [c.getElem?_phis_length, hi]
    exact hmissing
  refine Outcome.bind_eq_ok_iff.2 ⟨c, by rw [Function.block, hc], ?_⟩
  simp only [hfact]
  split <;> rfl

theorem liveness_updatesAlongEdges (hf : f.WellFormed) {d : Domain Value} (hd : d.frozen = true)
    (count : Nat) : liveness.UpdatesAlongEdges f d count := by
  intro n
  by_cases hn : ∃ b ∈ f.blocks, n ∈ liveness.direction.neighbors f b
  · obtain ⟨b, hb, hn⟩ := hn
    obtain ⟨c, first, hc, hfirst, -⟩ := Direction.exists_exit? hf hb hn
    obtain ⟨i, hi, -⟩ := hf.exists_behindPhis? (Function.mem_blocks_of_block? hc)
    by_cases hcount : i.id < count
    · refine ⟨i.id, fun b _ _ => ⟨Liveness.CarriedInto c b.id, Liveness.DefinedByPhi c,
        fun {facts u} hfits hleaves => ?_⟩⟩
      obtain ⟨c', first', hc', hfirst', hu⟩ := hleaves
      cases hc.symm.trans hc'
      cases hfirst.symm.trans hfirst'
      obtain ⟨behind, hbehind, hw⟩ := hfits.exists_getElem? hcount
      obtain ⟨v, hv, hupdates⟩ := Liveness.alongEdge_updates hf hd hc hi
        (Direction.exit?_backward.symm.trans hfirst) hbehind hw hu (hfits.width_eq hu) b.id
      exact ⟨behind, v, hbehind, hv, hupdates⟩
    · -- the table is too short for the fact behind the phis
      refine ⟨first.id, fun b _ _ => ⟨fun _ => False, fun _ => False,
        fun {facts u} hfits hleaves => ?_⟩⟩
      obtain ⟨c', first', hc', hfirst', hu⟩ := hleaves
      cases hc.symm.trans hc'
      cases hfirst.symm.trans hfirst'
      have hmissing : facts[i.id]? = none :=
        Array.getElem?_eq_none (hfits.size_eq ▸ Nat.le_of_not_lt hcount)
      exact ⟨u, u, hu, Liveness.alongEdge_of_missing hc hi hmissing b.id u, hfits.width_eq hu,
        by simp⟩
  · exact ⟨0, fun b hb hn' => absurd ⟨b, hb, hn'⟩ hn⟩

/-- **The analyses are distributive**, on every domain that is closed to new elements. -/
theorem analyses_isDistributive {draft : Draft} (hdraft : draft.toFunction = .ok f) :
    (∀ d : Domain Expression, d.frozen = true → available.IsDistributive f d ∧
      anticipated.IsDistributive f d ∧ ∀ ant, (willBeAvailable ant).IsDistributive f d) ∧
    ∀ d : Domain Value, d.frozen = true → liveness.IsDistributive f d := by
  have hf := Draft.wellFormed_of_toFunction hdraft
  refine ⟨fun d hd => ⟨?_, ?_, fun ant => ?_⟩, fun d hd => ?_⟩
  · exact (available_isGenKill hf hd).isDistributive
      (HasPlainEdges.updatesAlongEdges fun _ _ _ _ => rfl)
  · exact (anticipated_isGenKill hf hd).isDistributive
      (HasPlainEdges.updatesAlongEdges fun _ _ _ _ => rfl)
  · exact (willBeAvailable_isGenKill hf ant).isDistributive
      (HasPlainEdges.updatesAlongEdges fun _ _ _ _ => rfl)
  · exact (liveness_isGenKill hd).isDistributive (liveness_updatesAlongEdges hf hd)

theorem analyses_isDistributive_swap :
    swapDraft.toFunction = .ok swapDraft.assemble ∧
      (available.domain swapDraft.assemble).frozen = true ∧
      (liveness.domain swapDraft.assemble).frozen = true ∧
      available.IsDistributive swapDraft.assemble (available.domain swapDraft.assemble) ∧
      liveness.IsDistributive swapDraft.assemble (liveness.domain swapDraft.assemble) := by
  obtain ⟨hexpressions, hvalues⟩ := analyses_isDistributive swapDraft_accepted
  exact ⟨swapDraft_accepted, rfl, rfl, (hexpressions _ rfl).1, hvalues _ rfl⟩

end Analysis

end FactFlow
