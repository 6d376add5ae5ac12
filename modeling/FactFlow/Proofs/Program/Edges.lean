import FactFlow.Proofs.Program.WellFormed

/-!
# Edges

An edge is an occurrence of a block among the targets of a terminator.  A branch has two arms, so it
may give two edges between the same blocks, and both count.

* `Function.WellFormed.count_sources`, `Function.WellFormed.length_sources` : the sources of a block
  list its incoming edges, one by one.
* `Function.WellFormed.criticalEdges_eq`, `Function.WellFormed.exists_isFirstCritical` : the
  critical edges are those of the critical arms, and the first edge is that of the first arm.
-/

namespace FactFlow

/-- Arm `index` of the terminator of block `source` leads to block `target`. -/
structure Arm where
  /-- The block that control leaves. -/
  source : BlockId
  /-- The place of the target among the targets of the terminator. -/
  index : Nat
  /-- The block that control goes to. -/
  target : BlockId

/-- Arms are ordered by source and then by place. -/
def Arm.UpTo (x y : Arm) : Prop :=
  x.source < y.source ∨ x.source = y.source ∧ x.index ≤ y.index

/-- The arms of the terminator of a block. -/
def Block.arms (blk : Block) : List Arm := blk.successors.zipIdx.map fun (t, k) => ⟨blk.id, k, t⟩

namespace Function

/-- The last instruction of a block. -/
def terminator? (f : Function) (b : BlockId) : Option Instruction := (f.block? b).bind (·.last?)

/-- All arms in order. -/
def arms (f : Function) : List Arm := f.blocks.flatMap (·.arms)

/-- The terminator has at least two targets, and this target occurs at least twice among the targets
of all terminators. -/
def IsCritical (f : Function) (x : Arm) : Prop :=
  ∃ i, f.terminator? x.source = some i ∧ i.targets[x.index]? = some x.target ∧
    2 ≤ i.targets.length ∧ 2 ≤ (f.instructions.flatMap (·.targets)).count x.target

/-- No critical arm comes before `x`, which is one. -/
def IsFirstCritical (f : Function) (x : Arm) : Prop :=
  f.IsCritical x ∧ ∀ y, f.IsCritical y → x.UpTo y

theorem terminator?_of_block? {f : Function} {b : BlockId} {blk : Block}
    (hblk : f.block? b = some blk) : f.terminator? b = blk.last? := by
  rw [terminator?, hblk, Option.bind_some]

namespace WellFormed

variable {f : Function} (hf : f.WellFormed)
include hf

/-! ### Edges into a block -/

theorem map_id_blocks : f.blocks.map (·.id) = List.range f.blockCount := by
  apply List.ext_getElem
  · simp [blockCount]
  · intro b hb hb'
    have hblk := f.blocks.getElem?_eq_getElem (i := b) (by simpa using hb)
    simpa using hf.id_of_block? hblk

theorem blocks_pairwise : f.blocks.Pairwise fun a b => a.id < b.id := by
  have hlt : (f.blocks.map (·.id)).Pairwise (· < ·) := by
    rw [hf.map_id_blocks]
    exact List.pairwise_lt_range
  exact List.pairwise_map.1 hlt

/-- The sources of a block are ascending. -/
theorem sources_pairwise (b : BlockId) : (f.sources b).Pairwise (· ≤ ·) := by
  rw [sources, List.pairwise_flatMap]
  constructor
  · intro a _
    exact List.pairwise_map.2 (List.pairwise_of_forall fun _ _ => Nat.le_refl _)
  · refine hf.blocks_pairwise.imp fun {a c} hac x hx y hy => ?_
    obtain ⟨_, -, rfl⟩ := List.mem_map.1 hx
    obtain ⟨_, -, rfl⟩ := List.mem_map.1 hy
    exact Nat.le_of_lt hac

/-- A block is a source of `b` once for each of its edges to `b`. -/
theorem count_sources {blk : Block} (hblk : blk ∈ f.blocks) (b : BlockId) :
    (f.sources b).count blk.id = blk.successors.count b := by
  have hother : ∀ l : List Block, (∀ c ∈ l, c.id ≠ blk.id) →
      (l.flatMap fun c => (c.successors.filter (· == b)).map fun _ => c.id).count blk.id = 0 := by
    intro l hl
    rw [List.count_eq_zero]
    intro hmem
    obtain ⟨c, hc, hmem⟩ := List.mem_flatMap.1 hmem
    obtain ⟨_, -, hid⟩ := List.mem_map.1 hmem
    exact hl c hc hid
  obtain ⟨pre, post, hblocks⟩ := List.append_of_mem hblk
  have hsorted := hf.blocks_pairwise
  rw [hblocks, List.pairwise_append, List.pairwise_cons] at hsorted
  obtain ⟨-, ⟨hpost, -⟩, hpre⟩ := hsorted
  rw [sources, hblocks, List.flatMap_append, List.flatMap_cons, List.count_append,
    List.count_append, hother pre fun c hc => Nat.ne_of_lt (hpre c hc blk List.mem_cons_self),
    hother post fun c hc => Nat.ne_of_gt (hpost c hc), Nat.zero_add, Nat.add_zero, List.map_const',
    List.count_replicate_self, List.count, List.countP_eq_length_filter]

/-- A terminator has all the targets of its block. -/
theorem flatMap_targets_body {blk : Block} (hblk : blk ∈ f.blocks) :
    blk.body.flatMap (·.targets) = blk.successors := by
  obtain ⟨last, hlast, -⟩ := hf.last_of_mem hblk
  obtain ⟨front, hbody⟩ := List.getLast?_eq_some_iff.1 hlast
  have hfront : front.flatMap (·.targets) = [] := by
    rw [List.flatMap_eq_nil_iff]
    intro i hi
    have hterm := hf.front_of_mem hblk (i := i) (by rwa [hbody, List.dropLast_concat])
    cases hkind : i.kind <;> simp_all [Instruction.targets, Kind.targets, Kind.isTerminator]
  rw [hbody, List.flatMap_append, hfront, Block.successors_of_last? hlast]
  simp

/-- A block has as many sources as it has occurrences among the targets of all terminators. -/
theorem length_sources (b : BlockId) :
    (f.sources b).length = (f.instructions.flatMap (·.targets)).count b := by
  have htargets : f.instructions.flatMap (·.targets) = f.blocks.flatMap (·.successors) := by
    rw [instructions, List.flatMap_assoc]
    exact List.flatMap_congr fun blk hblk => hf.flatMap_targets_body hblk
  rw [htargets, sources, List.length_flatMap, List.count_flatMap]
  congr 1
  refine List.map_congr_left fun blk _ => ?_
  rw [List.length_map, Function.comp_apply, List.count, List.countP_eq_length_filter]

theorem predecessors_eq {b : BlockId} (hb : b < f.blockCount) :
    f.predecessors b = .ok (f.sources b) := by
  have hblk : f.block? b = some _ := List.getElem?_eq_getElem hb
  rw [predecessors, block, hblk]
  dsimp only [Except.map]
  rw [hf.id_of_block? hblk]

/-- The predecessors of all blocks. -/
theorem mapM_predecessors :
    (List.range f.blockCount).mapM f.predecessors =
      .ok ((List.range f.blockCount).map f.sources) := by
  rw [Outcome.mapM_eq_ok_iff, List.forall₂_map_right_iff, List.forall₂_same]
  exact fun b hb => hf.predecessors_eq (List.mem_range.1 hb)

/-- The successors of all blocks. -/
theorem mapM_successors :
    (List.range f.blockCount).mapM f.successors = .ok (f.blocks.map (·.successors)) := by
  rw [Outcome.mapM_eq_ok_iff, ← hf.map_id_blocks, List.forall₂_map_left_iff,
    List.forall₂_map_right_iff, List.forall₂_same]
  intro blk hblk
  rw [successors, block, hf.block?_of_mem hblk]
  rfl

/-! ### Edges out of a block -/

theorem exists_terminator? {b : BlockId} (hb : b < f.blockCount) :
    ∃ blk i, f.block? b = some blk ∧ f.terminator? b = some i ∧ i.kind.isTerminator = true ∧
      blk.successors = i.targets := by
  have hblk : f.block? b = some _ := List.getElem?_eq_getElem hb
  obtain ⟨i, hlast, hterm⟩ := hf.last_of_mem (mem_blocks_of_block? hblk)
  exact ⟨_, i, hblk, (terminator?_of_block? hblk).trans hlast, hterm,
    Block.successors_of_last? hlast⟩

/-- Between two blocks there are as many edges seen from the one as from the other. -/
theorem count_predecessors {a b : BlockId} (ha : a < f.blockCount) :
    ∃ after i, f.successors a = .ok after ∧ f.terminator? a = some i ∧
      i.kind.isTerminator = true ∧ (f.sources b).count a = after.count b ∧
      after.count b = i.targets.count b := by
  obtain ⟨blk, i, hblk, hi, hterm, hsucc⟩ := hf.exists_terminator? ha
  have hcount := hf.count_sources (mem_blocks_of_block? hblk) b
  rw [hf.id_of_block? hblk] at hcount
  refine ⟨blk.successors, i, ?_, hi, hterm, hcount, by rw [hsucc]⟩
  rw [successors, block, hblk]
  rfl

theorem exits_pairwise : f.exits.Pairwise (· < ·) :=
  List.pairwise_map.2 (hf.blocks_pairwise.filter _)

/-- Exits are the blocks that return. -/
theorem mem_exits_iff {b : BlockId} :
    b ∈ f.exits ↔ ∃ i v, f.terminator? b = some i ∧ i.kind = .ret v := by
  simp only [exits, List.mem_map, List.mem_filter, List.isEmpty_iff]
  constructor
  · rintro ⟨blk, ⟨hblk, hnil⟩, rfl⟩
    obtain ⟨i, hlast, -⟩ := hf.last_of_mem hblk
    obtain ⟨v, hret⟩ := (hf.successors_eq_nil_iff hblk hlast).1 hnil
    exact ⟨i, v, (terminator?_of_block? (hf.block?_of_mem hblk)).trans hlast, hret⟩
  · rintro ⟨i, v, hi, hret⟩
    obtain ⟨blk, hblk, hlast⟩ := Option.bind_eq_some_iff.1 hi
    have hmem := mem_blocks_of_block? hblk
    exact ⟨blk, ⟨hmem, (hf.successors_eq_nil_iff hmem hlast).2 ⟨v, hret⟩⟩, hf.id_of_block? hblk⟩

/-! ### Critical arms -/

theorem isCritical_iff {blk : Block} (hblk : blk ∈ f.blocks) {k : Nat} {t : BlockId} :
    f.IsCritical ⟨blk.id, k, t⟩ ↔
      blk.successors[k]? = some t ∧ 2 ≤ blk.successors.length ∧ 1 < (f.sources t).length := by
  obtain ⟨last, hlast, -⟩ := hf.last_of_mem hblk
  rw [hf.length_sources, Block.successors_of_last? hlast, IsCritical,
    terminator?_of_block? (hf.block?_of_mem hblk), hlast]
  constructor
  · rintro ⟨i, hi, hcritical⟩
    cases hi
    exact hcritical
  · intro hcritical
    exact ⟨last, rfl, hcritical⟩

theorem mem_arms_of_isCritical {x : Arm} (h : f.IsCritical x) : x ∈ f.arms := by
  obtain ⟨i, hterm, htarget, -⟩ := h
  obtain ⟨blk, hblk, hlast⟩ := Option.bind_eq_some_iff.1 hterm
  refine List.mem_flatMap.2 ⟨blk, mem_blocks_of_block? hblk, List.mem_map.2 ?_⟩
  refine ⟨(x.target, x.index), List.mem_zipIdx_iff_getElem?.2 ?_, ?_⟩
  · rwa [Block.successors_of_last? hlast]
  · rw [hf.id_of_block? hblk]

theorem arms_pairwise : f.arms.Pairwise Arm.UpTo := by
  rw [arms, List.pairwise_flatMap]
  constructor
  · intro blk _
    have hplaces : (blk.successors.zipIdx.map (·.2)).Pairwise (· < ·) := by
      rw [List.zipIdx_map_snd]
      exact List.pairwise_lt_range'
    exact List.pairwise_map.2
      ((List.pairwise_map.1 hplaces).imp fun hlt => .inr ⟨rfl, Nat.le_of_lt hlt⟩)
  · refine hf.blocks_pairwise.imp fun {a c} hac x hx y hy => .inl ?_
    obtain ⟨_, -, rfl⟩ := List.mem_map.1 hx
    obtain ⟨_, -, rfl⟩ := List.mem_map.1 hy
    exact hac

open Classical in
/-- The critical arms of one block. -/
theorem filter_arms {blk : Block} (hblk : blk ∈ f.blocks) :
    (blk.arms.filter (f.IsCritical ·)).map (fun x => (x.source, x.target)) =
      if blk.successors.length < 2 then []
      else (blk.successors.filter fun t => 1 < (f.sources t).length).map fun t => (blk.id, t) := by
  have hcritical : ∀ x ∈ blk.arms, decide (f.IsCritical x) =
      (decide (2 ≤ blk.successors.length) && decide (1 < (f.sources x.target).length)) := by
    intro x hx
    obtain ⟨⟨t, k⟩, hk, rfl⟩ := List.mem_map.1 hx
    have hk := List.mem_zipIdx_iff_getElem?.1 hk
    rw [Bool.eq_iff_iff, Bool.and_eq_true, decide_eq_true_eq, decide_eq_true_eq, decide_eq_true_eq,
      hf.isCritical_iff hblk]
    exact and_iff_right hk
  have htargets : blk.successors = blk.successors.zipIdx.map (·.1) :=
    (List.zipIdx_map_fst 0 blk.successors).symm
  rw [List.filter_congr hcritical]
  split
  · rename_i hone
    simp [Nat.not_le.2 hone]
  · rename_i htwo
    conv_rhs => rw [htargets, List.filter_map, List.map_map]
    simp only [Nat.not_lt.1 htwo, decide_true, Bool.true_and]
    rw [Block.arms, List.filter_map, List.map_map]
    rfl

open Classical in
/-- The critical edges are those of the critical arms, in order. -/
theorem criticalEdges_eq :
    f.criticalEdges = (f.arms.filter (f.IsCritical ·)).map fun x => (x.source, x.target) := by
  rw [criticalEdges, arms, List.filter_flatMap, List.map_flatMap]
  exact List.flatMap_congr fun blk hblk => (hf.filter_arms hblk).symm

theorem criticalEdges_eq_nil_iff : f.criticalEdges = [] ↔ ∀ x, ¬ f.IsCritical x := by
  classical
  rw [hf.criticalEdges_eq, List.map_eq_nil_iff, List.filter_eq_nil_iff]
  simp only [decide_eq_true_eq]
  exact ⟨fun h x hx => h x (hf.mem_arms_of_isCritical hx) hx, fun h x _ => h x⟩

/-- The first critical edge is that of the first critical arm. -/
theorem exists_isFirstCritical {a t : BlockId} {rest : List (BlockId × BlockId)}
    (h : f.criticalEdges = (a, t) :: rest) : ∃ k, f.IsFirstCritical ⟨a, k, t⟩ := by
  classical
  rw [hf.criticalEdges_eq] at h
  obtain ⟨x, others, hfilter, hends, -⟩ := List.map_eq_cons_iff.1 h
  cases hends
  have hsorted := hf.arms_pairwise.filter (f.IsCritical ·)
  rw [hfilter, List.pairwise_cons] at hsorted
  have hx : f.IsCritical x := by
    have hmem : x ∈ f.arms.filter (f.IsCritical ·) := hfilter ▸ List.mem_cons_self
    exact of_decide_eq_true (List.mem_filter.1 hmem).2
  refine ⟨x.index, hx, fun y hy => ?_⟩
  have hmem : y ∈ x :: others := by
    rw [← hfilter]
    exact List.mem_filter.2 ⟨hf.mem_arms_of_isCritical hy, decide_eq_true hy⟩
  rcases List.mem_cons.1 hmem with rfl | hmem
  · exact .inr ⟨rfl, Nat.le_refl _⟩
  · exact hsorted.1 y hmem

end WellFormed

end Function

end FactFlow
