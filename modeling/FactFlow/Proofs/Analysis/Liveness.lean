import FactFlow.Analysis.Liveness
import FactFlow.Proofs.Program.Paths
import FactFlow.Proofs.Solve.Extremal
import Mathlib.Data.List.TakeWhile

/-!
# Live variables and paths

`Live` says when a variable is live in front of an instruction that is not a phi, without speaking
of facts: some path reads the variable before writing it, where the operands of a phi are read on
the edge that leads to it and all phis of a block are written at once.  The solved facts are just
this relation (`liveness_eq_live`).

* `Liveness.sends_test_iff` : what a block receives along an edge, from the fact behind the phis of
  its successor.
* `liveness_isMonotone` : so solving ends with the least solution.
* `live_of_solve`, `test_of_live` : the two halves, by an invariant of every visit and by induction
  on `Live`.
-/

namespace FactFlow

namespace Block

/-- The first instruction that is not a phi. -/
def behindPhis? (b : Block) : Option Instruction := b.body.find? (!·.kind.isPhi)

theorem getElem?_phis_length (b : Block) : b.body[b.phis.length]? = b.behindPhis? := by
  unfold phis behindPhis?
  induction b.body with
  | nil => rfl
  | cons i rest ih =>
    cases hi : i.kind.isPhi with
    | false => simp [hi]
    | true => simpa [hi] using ih

theorem isPhi_of_behindPhis? {b : Block} {i : Instruction} (h : b.behindPhis? = some i) :
    i.kind.isPhi = false := by
  simpa using List.find?_some h

theorem mem_of_behindPhis? {b : Block} {i : Instruction} (h : b.behindPhis? = some i) :
    i ∈ b.body :=
  List.mem_of_find?_eq_some h

end Block

namespace Function.WellFormed

variable {f : Function} (hf : f.WellFormed)
include hf

theorem mem_phis_iff {b : Block} (hb : b ∈ f.blocks) {i : Instruction} :
    i ∈ b.phis ↔ i ∈ b.body ∧ i.kind.isPhi = true := by
  constructor
  · intro hi
    have hphi : i.kind.isPhi = true := by
      exact List.mem_takeWhile_imp (p := fun j : Instruction => j.kind.isPhi) hi
    exact ⟨(List.takeWhile_sublist _).subset hi, hphi⟩
  · rintro ⟨hi, hphi⟩
    rw [← List.takeWhile_append_dropWhile (p := (·.kind.isPhi)) (l := b.body)] at hi
    rcases List.mem_append.1 hi with hi | hi
    · exact hi
    · rw [hf.behind_phis hb hi] at hphi
      cases hphi

/-- Behind an instruction that is not a phi there are no phis. -/
theorem isPhi_of_behind {b : Block} (hb : b ∈ f.blocks) {pre post : List Instruction}
    {i : Instruction} (hbody : b.body = pre ++ i :: post) (hi : i.kind.isPhi = false) :
    ∀ k ∈ post, k.kind.isPhi = false := by
  intro k hk
  refine hf.behind_phis hb ?_
  rw [hbody, List.dropWhile_append]
  split
  · rw [List.dropWhile_cons_of_neg (by simp [hi])]
    exact List.mem_cons_of_mem _ hk
  · exact List.mem_append_right _ (List.mem_cons_of_mem _ hk)

theorem isPhi_of_next {b : Block} (hb : b ∈ f.blocks) {pre post : List Instruction}
    {i n : Instruction} (hbody : b.body = pre ++ i :: n :: post) (hi : i.kind.isPhi = false) :
    n.kind.isPhi = false :=
  hf.isPhi_of_behind hb hbody hi n List.mem_cons_self

theorem isPhi_of_last {b : Block} (hb : b ∈ f.blocks) {i : Instruction}
    (hlast : b.last? = some i) : i.kind.isPhi = false := by
  obtain ⟨last, hlast', hterm⟩ := hf.last_of_mem hb
  cases hlast.symm.trans hlast'
  cases hkind : i.kind <;> simp_all [Kind.isTerminator, Kind.isPhi]

theorem exists_behindPhis? {b : Block} (hb : b ∈ f.blocks) :
    ∃ i, b.behindPhis? = some i ∧ i ∈ f.instructions := by
  obtain ⟨last, hlast, -⟩ := hf.last_of_mem hb
  have hsome : b.behindPhis?.isSome = true :=
    List.find?_isSome.2 ⟨last, List.mem_of_getLast? hlast, by simp [hf.isPhi_of_last hb hlast]⟩
  obtain ⟨i, hi⟩ := Option.isSome_iff_exists.1 hsome
  exact ⟨i, hi, mem_instructions_iff.2 ⟨b, hb, Block.mem_of_behindPhis? hi⟩⟩

end Function.WellFormed

namespace Analysis

namespace Liveness

variable {d : Domain Value}

theorem define_spec (hd : d.frozen = true) (v : Value) {s : FactSet} (hw : s.width = d.size) :
    ∃ t, define d s v = .ok t ∧ t.width = d.size ∧
      ∀ {p w}, d.get? p = some w → (t.test p = true ↔ s.test p = true ∧ v ≠ w) := by
  rcases Domain.indexOf_cases hd v with ⟨k, hk, hget⟩ | ⟨hk, hv⟩
  · obtain ⟨t, ht, hwt, htt⟩ := FactSet.exists_erase (hw ▸ Domain.lt_size_of_get? hget)
    refine ⟨t, Outcome.bind_eq_ok_iff.2 ⟨some k, hk, ht⟩, hwt.trans hw, fun {p w} hp => ?_⟩
    rw [htt, and_comm]
    refine and_congr_right fun _ => not_congr ⟨?_, ?_⟩
    · rintro rfl
      exact Option.some.inj (hget.symm.trans hp)
    · rintro rfl
      exact Domain.get?_inj hp hget
  · refine ⟨s, Outcome.bind_eq_ok_iff.2 ⟨none, hk, rfl⟩, hw, fun {p w} hp => ?_⟩
    refine ⟨fun h => ⟨h, ?_⟩, fun h => h.1⟩
    rintro rfl
    exact hv (Domain.mem_of_get? hp)

theorem read_spec (hd : d.frozen = true) (v : Value) {s : FactSet} (hw : s.width = d.size) :
    ∃ t, read d s v = .ok t ∧ t.width = d.size ∧
      ∀ {p w}, d.get? p = some w → (t.test p = true ↔ s.test p = true ∨ v = w) := by
  rcases Domain.indexOf_cases hd v with ⟨k, hk, hget⟩ | ⟨hk, hv⟩
  · obtain ⟨t, ht, hwt, htt⟩ := FactSet.exists_insert (hw ▸ Domain.lt_size_of_get? hget)
    refine ⟨t, Outcome.bind_eq_ok_iff.2 ⟨some k, hk, ht⟩, hwt.trans hw, fun {p w} hp => ?_⟩
    rw [htt, or_comm]
    refine or_congr_right ⟨?_, ?_⟩
    · rintro rfl
      exact Option.some.inj (hget.symm.trans hp)
    · rintro rfl
      exact Domain.get?_inj hp hget
  · refine ⟨s, Outcome.bind_eq_ok_iff.2 ⟨none, hk, rfl⟩, hw, fun {p w} hp => ?_⟩
    refine ⟨.inl, fun h => h.elim id ?_⟩
    rintro rfl
    exact absurd (Domain.mem_of_get? hp) hv

theorem foldlM_define_spec (hd : d.frozen = true) (vs : List Value) {s : FactSet}
    (hw : s.width = d.size) :
    ∃ t, vs.foldlM (define d) s = .ok t ∧ t.width = d.size ∧
      ∀ {p w}, d.get? p = some w → (t.test p = true ↔ s.test p = true ∧ w ∉ vs) := by
  induction vs generalizing s with
  | nil => exact ⟨s, rfl, hw, by simp⟩
  | cons v vs ih =>
    obtain ⟨u, hu, hwu, htu⟩ := define_spec hd v hw
    obtain ⟨t, ht, hwt, htt⟩ := ih hwu
    refine ⟨t, ?_, hwt, fun {p w} hp => ?_⟩
    · rw [List.foldlM_cons, Outcome.bind_eq_ok_iff]
      exact ⟨u, hu, ht⟩
    · rw [htt hp, htu hp, and_assoc, List.mem_cons, not_or, ne_comm]

theorem foldlM_read_spec (hd : d.frozen = true) (vs : List Value) {s : FactSet}
    (hw : s.width = d.size) :
    ∃ t, vs.foldlM (read d) s = .ok t ∧ t.width = d.size ∧
      ∀ {p w}, d.get? p = some w → (t.test p = true ↔ s.test p = true ∨ w ∈ vs) := by
  induction vs generalizing s with
  | nil => exact ⟨s, rfl, hw, by simp⟩
  | cons v vs ih =>
    obtain ⟨u, hu, hwu, htu⟩ := read_spec hd v hw
    obtain ⟨t, ht, hwt, htt⟩ := ih hwu
    refine ⟨t, ?_, hwt, fun {p w} hp => ?_⟩
    · rw [List.foldlM_cons, Outcome.bind_eq_ok_iff]
      exact ⟨u, hu, ht⟩
    · rw [htt hp, htu hp, or_assoc, List.mem_cons, eq_comm (a := v)]

theorem transfer_spec (hd : d.frozen = true) (i : Instruction) {s : FactSet}
    (hw : s.width = d.size) :
    ∃ t, transfer i d s = .ok t ∧ t.width = d.size ∧ ∀ {p v}, d.get? p = some v →
      (t.test p = true ↔ v ∈ i.operands ∨ s.test p = true ∧ ¬ i.result = some v) := by
  obtain ⟨u, hu, hwu, htu⟩ := foldlM_define_spec hd i.result.toList hw
  obtain ⟨t, ht, hwt, htt⟩ := foldlM_read_spec hd i.operands hwu
  refine ⟨t, Outcome.bind_eq_ok_iff.2 ⟨u, hu, ht⟩, hwt, fun {p v} hp => ?_⟩
  rw [htt hp, htu hp, or_comm, Option.mem_toList]

/-- Along the edge from `block`, some phi of `c` reads `v`. -/
def CarriedInto (c : Block) (block : BlockId) (v : Value) : Prop :=
  ∃ i ∈ c.body, i.kind.isPhi = true ∧ ⟨v, block⟩ ∈ i.kind.incoming

/-- Some phi of `c` defines `v`. -/
def DefinedByPhi (c : Block) (v : Value) : Prop :=
  ∃ i ∈ c.body, i.kind.isPhi = true ∧ i.result = some v

variable {f : Function}

theorem mem_taken_iff (hf : f.WellFormed) {c : Block} (hc : c ∈ f.blocks) {block : BlockId}
    {v : Value} :
    v ∈ ((c.phis.flatMap (·.kind.incoming)).filter (·.source == block)).map (·.value) ↔
      CarriedInto c block v := by
  simp only [List.mem_map, List.mem_filter, List.mem_flatMap, beq_iff_eq, hf.mem_phis_iff hc]
  constructor
  · rintro ⟨⟨w, b⟩, ⟨⟨i, ⟨hi, hphi⟩, hin⟩, rfl⟩, rfl⟩
    exact ⟨i, hi, hphi, hin⟩
  · rintro ⟨i, hi, hphi, hin⟩
    exact ⟨⟨v, block⟩, ⟨⟨i, ⟨hi, hphi⟩, hin⟩, rfl⟩, rfl⟩

theorem mem_defined_iff (hf : f.WellFormed) {c : Block} (hc : c ∈ f.blocks) {v : Value} :
    v ∈ c.phis.filterMap (·.result) ↔ DefinedByPhi c v := by
  simp only [List.mem_filterMap, hf.mem_phis_iff hc, DefinedByPhi, and_assoc]

/-- The edge from `block` into `c` starts from the fact behind the phis of `c`, and from the value
sent only if `c` has no phis. -/
theorem alongEdge_spec (hf : f.WellFormed) (hd : d.frozen = true) {n : BlockId} {c : Block}
    (hc : f.block? n = some c) {i : Instruction} (hi : c.behindPhis? = some i) {facts : Facts}
    {behind : FactSet} (hbehind : facts[i.id]? = some behind) (hwb : behind.width = d.size)
    {value : FactSet} (hw : value.width = d.size) (block : BlockId) :
    ∃ t, alongEdge f block n facts d value = .ok t ∧ t.width = d.size ∧
      if c.phis = [] then t = value
      else ∀ {p v}, d.get? p = some v → (t.test p = true ↔
        CarriedInto c block v ∨ behind.test p = true ∧ ¬ DefinedByPhi c v) := by
  have hmem := Function.mem_blocks_of_block? hc
  have hblock : f.block n = .ok c := by rw [Function.block, hc]
  have hfact : (c.body[c.phis.length]?.bind fun i => facts[i.id]?) = some behind := by
    rw [c.getElem?_phis_length, hi]
    exact hbehind
  by_cases hnil : c.phis = []
  · refine ⟨value, Outcome.bind_eq_ok_iff.2 ⟨c, hblock, ?_⟩, hw, by rw [if_pos hnil]⟩
    simp only [hnil, List.isEmpty_nil]
    rfl
  · obtain ⟨u, hu, hwu, htu⟩ := foldlM_define_spec hd (c.phis.filterMap (·.result)) hwb
    obtain ⟨t, ht, hwt, htt⟩ := foldlM_read_spec hd
      (((c.phis.flatMap (·.kind.incoming)).filter (·.source == block)).map (·.value)) hwu
    refine ⟨t, Outcome.bind_eq_ok_iff.2 ⟨c, hblock, ?_⟩, hwt, ?_⟩
    · have hne : ¬ c.phis.isEmpty = true := by simpa using hnil
      simp only [hfact]
      rw [if_neg hne]
      exact Outcome.bind_eq_ok_iff.2 ⟨u, hu, ht⟩
    · rw [if_neg hnil]
      intro p v hp
      rw [htt hp, htu hp, or_comm, mem_taken_iff hf hmem, mem_defined_iff hf hmem]

/-- Along the edge from `block` into `c`, and from the fact of its first instruction: what the phis
of `c` read there, and what the fact behind them has and none of them defines. -/
theorem alongEdge_updates (hf : f.WellFormed) (hd : d.frozen = true) {n : BlockId} {c : Block}
    (hc : f.block? n = some c) {i first : Instruction} (hi : c.behindPhis? = some i)
    (hfirst : c.first? = some first) {facts : Facts} {behind value : FactSet}
    (hbehind : facts[i.id]? = some behind) (hwb : behind.width = d.size)
    (hvalue : facts[first.id]? = some value) (hw : value.width = d.size) (block : BlockId) :
    ∃ t, alongEdge f block n facts d value = .ok t ∧
      d.Updates (CarriedInto c block) (DefinedByPhi c) behind t := by
  have hmem := Function.mem_blocks_of_block? hc
  obtain ⟨t, ht, hwt, hspec⟩ := alongEdge_spec hf hd hc hi hbehind hwb hw block
  refine ⟨t, ht, hwt, fun {p v} hp => ?_⟩
  split at hspec
  · -- without phis, the instruction behind them is the first one
    rename_i hnil
    have hnone : ∀ j ∈ c.body, ¬ j.kind.isPhi = true := fun j hj hphi => by
      have hj' := (hf.mem_phis_iff hmem).2 ⟨hj, hphi⟩
      rw [hnil] at hj'
      cases hj'
    have hfirst' : first = i := by
      have hlen := c.getElem?_phis_length
      rw [hnil, List.length_nil, hi, ← List.head?_eq_getElem?] at hlen
      exact Option.some.inj (hfirst.symm.trans hlen)
    subst hfirst'
    cases hvalue.symm.trans hbehind
    rw [hspec]
    refine ⟨fun h => .inr ⟨h, ?_⟩, fun h => h.elim ?_ fun h => h.1⟩
    · rintro ⟨j, hj, hphi, -⟩
      exact hnone j hj hphi
    · rintro ⟨j, hj, hphi, -⟩
      exact absurd hphi (hnone j hj)
  · exact hspec hp

/-- **What a block receives along an edge**: what the phis of the successor read there, and what the
fact behind them has and none of them defines. -/
theorem sends_test_iff (hf : f.WellFormed) (hd : d.frozen = true) {facts : Facts}
    (hfits : facts.Fits f.instCount d.size) {b : Block} {n : BlockId} {s : FactSet}
    (hs : liveness.Sends f d facts b n s) :
    ∃ c i behind, f.block? n = some c ∧ c.behindPhis? = some i ∧ facts[i.id]? = some behind ∧
      ∀ {p v}, d.get? p = some v → (s.test p = true ↔
        CarriedInto c b.id v ∨ behind.test p = true ∧ ¬ DefinedByPhi c v) := by
  obtain ⟨c, first, u, hc, hexit, hu, hedge⟩ := hs
  obtain ⟨i, hi, hif⟩ := hf.exists_behindPhis? (Function.mem_blocks_of_block? hc)
  obtain ⟨behind, hbehind, hwb⟩ := hfits.exists_getElem? (hf.id_lt hif)
  obtain ⟨t, ht, -, htest⟩ := alongEdge_updates hf hd hc hi
    (Direction.exit?_backward.symm.trans hexit) hbehind hwb hu (hfits.width_eq hu) b.id
  cases hedge.symm.trans ht
  exact ⟨c, i, behind, hc, hi, hbehind, htest⟩

end Liveness

open Liveness

variable {f : Function}

theorem liveness_isGenKill {d : Domain Value} (hd : d.frozen = true) :
    liveness.IsGenKill f d (fun i v => v ∈ i.operands) (fun i v => i.result = some v) :=
  ⟨fun {i _} _ hw => Liveness.transfer_spec hd i hw⟩

theorem liveness_isMonotone (hf : f.WellFormed) {d : Domain Value} (hd : d.frozen = true) :
    liveness.IsMonotone f d where
  boundary_width := rfl
  transfer_total {i s} _ hw := by
    obtain ⟨t, ht, hwt, -⟩ := Liveness.transfer_spec hd i hw
    exact ⟨t, ht, hwt⟩
  edge_total {b n facts s} hb hn hfits hw := by
    obtain ⟨c, hc⟩ := hf.exists_block?_of_mem_successors hb hn
    obtain ⟨i, hi, hif⟩ := hf.exists_behindPhis? (Function.mem_blocks_of_block? hc)
    obtain ⟨behind, hbehind, hwb⟩ := hfits.exists_getElem? (hf.id_lt hif)
    obtain ⟨t, ht, hwt, -⟩ := alongEdge_spec hf hd hc hi hbehind hwb hw b.id
    exact ⟨t, ht, hwt⟩
  transfer_mono hi hw hle hs ht := (liveness_isGenKill hd).transfer_mono hi hw hle hs ht
  edge_mono {b n facts facts' s t s' t'} hb hn hfits hfits' hpoint hw hle hs ht := by
    obtain ⟨c, hc⟩ := hf.exists_block?_of_mem_successors hb hn
    obtain ⟨i, hi, hif⟩ := hf.exists_behindPhis? (Function.mem_blocks_of_block? hc)
    obtain ⟨u, hu, hwu⟩ := hfits.exists_getElem? (hf.id_lt hif)
    obtain ⟨u', hu', hwu'⟩ := hfits'.exists_getElem? (hf.id_lt hif)
    have hwt := (FactSet.width_eq_of_le hle).symm.trans hw
    obtain ⟨s₀, hs₀, hws, hspec⟩ := alongEdge_spec hf hd hc hi hu hwu hw b.id
    obtain ⟨t₀, ht₀, hwt₀, hspec'⟩ := alongEdge_spec hf hd hc hi hu' hwu' hwt b.id
    cases hs.symm.trans hs₀
    cases ht.symm.trans ht₀
    split at hspec
    · rename_i hnil
      rw [if_pos hnil] at hspec'
      rwa [hspec, hspec']
    · rename_i hnil
      rw [if_neg hnil] at hspec'
      refine FactSet.le_iff.2 ⟨hws.trans hwt₀.symm, fun p hp => ?_⟩
      obtain ⟨v, hv⟩ := Domain.exists_get?_of_lt (hws ▸ FactSet.lt_width_of_test hp)
      refine (hspec' hv).2 (((hspec hv).1 hp).imp_right fun h => ⟨?_, h.2⟩)
      exact FactSet.test_of_le_of_test (hpoint i.id u u' hu hu') h.1

theorem liveness_isMonotoneIn (hf : f.WellFormed) {d : Domain Value} (hd : d.frozen = true) :
    liveness.IsMonotoneIn f d .may :=
  ⟨liveness_isMonotone hf hd, rfl⟩

/-! ### The relation -/

/-- Variable `v` is live in front of an instruction that is not a phi. -/
inductive Live (f : Function) (v : Value) : Instruction → Prop
  /-- The instruction reads it. -/
  | read {i : Instruction} (hi : i ∈ f.instructions) (hphi : i.kind.isPhi = false)
      (hread : v ∈ i.operands) : Live f v i
  /-- It is live in front of the next instruction of the block. -/
  | inside {b : Block} {pre post : List Instruction} {i n : Instruction} (hb : b ∈ f.blocks)
      (hbody : b.body = pre ++ i :: n :: post) (hphi : i.kind.isPhi = false)
      (hdef : ¬ i.result = some v) (hn : Live f v n) : Live f v i
  /-- A phi of a successor reads it on the edge from here. -/
  | carried {b c : Block} {t : BlockId} {i : Instruction} (hb : b ∈ f.blocks)
      (hlast : b.last? = some i) (hdef : ¬ i.result = some v) (ht : t ∈ b.successors)
      (hc : f.block? t = some c) (hin : CarriedInto c b.id v) : Live f v i
  /-- It is live behind the phis of a successor, and none of them defines it. -/
  | across {b c : Block} {t : BlockId} {i n : Instruction} (hb : b ∈ f.blocks)
      (hlast : b.last? = some i) (hdef : ¬ i.result = some v) (ht : t ∈ b.successors)
      (hc : f.block? t = some c) (hphis : ¬ DefinedByPhi c v) (hn : c.behindPhis? = some n)
      (hlive : Live f v n) : Live f v i

/-- What is live is read somewhere. -/
theorem Live.exists_read {v : Value} {i : Instruction} (h : Live f v i) :
    ∃ j ∈ f.instructions, v ∈ j.operands := by
  induction h with
  | read hi _ hread => exact ⟨_, hi, hread⟩
  | inside _ _ _ _ _ ih => exact ih
  | across _ _ _ _ _ _ _ _ ih => exact ih
  | carried _ _ _ _ hc hin =>
    obtain ⟨j, hj, hphi, hin⟩ := hin
    refine ⟨j, Function.mem_instructions_iff.2 ⟨_, Function.mem_blocks_of_block? hc, hj⟩, ?_⟩
    unfold Instruction.operands
    cases hkind : j.kind <;> simp_all [Kind.incoming, Kind.operands]
    exact ⟨_, hin, rfl⟩

theorem mem_liveness_domain_iff {v : Value} :
    v ∈ (liveness.domain f).elements ↔
      v.isVariable = true ∧ ∃ i ∈ f.instructions, v ∈ i.operands := by
  rw [mem_domain_iff]
  change (∃ i ∈ f.instructions, v ∈ i.operands.filter (·.isVariable)) ↔ _
  simp only [List.mem_filter]
  constructor
  · rintro ⟨i, hi, hv, hvar⟩
    exact ⟨hvar, i, hi, hv⟩
  · rintro ⟨hvar, i, hi, hv⟩
    exact ⟨i, hi, hv, hvar⟩

theorem through_liveness {b : Block} {pre post : List Instruction} {i n : Instruction}
    (hbody : b.body = pre ++ i :: n :: post) :
    liveness.direction.through b = post.reverse ++ n :: i :: pre.reverse := by
  show Direction.backward.through b = _
  rw [Direction.through_backward]
  simpa using hbody

/-- At the end of a block, it is enough that some successor sends the variable. -/
theorem test_of_sent (hf : f.WellFormed) {d : Domain Value} (hd : d.frozen = true) {facts : Facts}
    (hfits : facts.Fits f.instCount d.size) (hfacts : liveness.Solves f d facts) {p : Nat}
    {v : Value} (hp : d.get? p = some v) {b c : Block} {i : Instruction} {t : BlockId}
    (hb : b ∈ f.blocks) (hlast : b.last? = some i) (hdef : ¬ i.result = some v)
    (ht : t ∈ b.successors) (hc : f.block? t = some c)
    (hsent : ∀ {j behind}, c.behindPhis? = some j → facts[j.id]? = some behind →
      CarriedInto c b.id v ∨ behind.test p = true ∧ ¬ DefinedByPhi c v)
    {u : FactSet} (hu : facts[i.id]? = some u) : u.test p = true := by
  have hA := liveness_isMonotoneIn hf hd
  obtain ⟨s, u', hs, htransfer, hu'⟩ :=
    hfacts.transfer_entrance hb (Direction.entrance?_backward.trans hlast)
  cases hu.symm.trans hu'
  have hmem := Function.mem_instructions_iff.2 ⟨b, hb, List.mem_of_getLast? hlast⟩
  refine ((liveness_isGenKill hd).test_iff hmem (hA.enters_width hs) htransfer hp).2
    (.inr ⟨?_, hdef⟩)
  obtain ⟨w, hw⟩ := exists_sends hA.toKeepsWidth hf hfits hb ht
  have hmay := hs.test_iff hA.meet_eq (List.ne_nil_of_mem ht) (Domain.lt_size_of_get? hp)
  refine hmay.2 ⟨t, ht, w, hw, ?_⟩
  obtain ⟨c', j, behind, hc', hj, hbehind, hiff⟩ := sends_test_iff hf hd hfits hw
  cases hc.symm.trans hc'
  exact (hiff hp).2 (hsent hj hbehind)

/-- **What is live is in the facts** of every solution of the equations. -/
theorem test_of_live (hf : f.WellFormed) {d : Domain Value} (hd : d.frozen = true) {facts : Facts}
    (hfits : facts.Fits f.instCount d.size) (hfacts : liveness.Solves f d facts) {p : Nat}
    {v : Value} (hp : d.get? p = some v) {i : Instruction} (h : Live f v i) {u : FactSet}
    (hu : facts[i.id]? = some u) : u.test p = true := by
  -- along the path that makes `v` live, from the read back to `i`
  induction h generalizing u with
  | read hi _ hread =>
    obtain ⟨s, u', hw, htransfer, hu'⟩ :=
      hfacts.exists_transfer hfits (liveness_isMonotoneIn hf hd).enters_width hi
    cases hu.symm.trans hu'
    exact ((liveness_isGenKill hd).test_iff hi hw htransfer hp).2 (.inl hread)
  | inside hb hbody _ hdef _ ih =>
    obtain ⟨s, u', hs, htransfer, hu'⟩ := hfacts.transfer_inside hb (through_liveness hbody)
    cases hu.symm.trans hu'
    have hi := (Function.Next.inside hb hbody).mem_left
    exact ((liveness_isGenKill hd).test_iff hi (hfits.width_eq hs) htransfer hp).2
      (.inr ⟨ih hs, hdef⟩)
  | carried hb hlast hdef ht hc hin =>
    exact test_of_sent hf hd hfits hfacts hp hb hlast hdef ht hc (fun _ _ => .inl hin) hu
  | across hb hlast hdef ht hc hphis hn _ ih =>
    refine test_of_sent hf hd hfits hfacts hp hb hlast hdef ht hc (fun hj hbehind => ?_) hu
    cases hn.symm.trans hj
    exact .inr ⟨ih hbehind, hphis⟩

/-- Through a block, against control: where a variable is in the state behind only if it is live
there, it is in the state in front only if it is live. -/
theorem live_of_along (hf : f.WellFormed) {d : Domain Value} (hd : d.frozen = true) {b : Block}
    (hb : b ∈ f.blocks) {facts : Facts} {p : Nat} {v : Value} (hp : d.get? p = some v)
    {pre l : List Instruction} (hsplit : liveness.direction.through b = pre ++ l) {s : FactSet}
    (hw : s.width = d.size) (halong : liveness.Along f d (· = ·) facts s l)
    (hbehind : s.test p = true → ∀ j, l.head? = some j → j.kind.isPhi = false →
      ¬ j.result = some v → Live f v j) :
    ∀ j ∈ l, j.kind.isPhi = false → ∀ u, facts[j.id]? = some u → u.test p = true →
      Live f v j := by
  induction l generalizing pre s with
  | nil => exact fun j hj => by cases hj
  | cons i rest ih =>
    obtain ⟨t, u, ht, hu, rfl, hrest⟩ := halong
    have hi : i ∈ f.instructions :=
      Direction.mem_instructions_of_mem_through hb (by rw [hsplit]; simp)
    have hlive : i.kind.isPhi = false → t.test p = true → Live f v i := by
      intro hphi htest
      rcases ((liveness_isGenKill hd).test_iff hi hw ht hp).1 htest with hread | ⟨hsp, hdef⟩
      · exact .read hi hphi hread
      · exact hbehind hsp i rfl hphi hdef
    refine List.forall_mem_cons.2 ⟨fun hphi v hv => ?_, ?_⟩
    · cases hu.symm.trans hv
      exact hlive hphi
    · have hwt := (liveness_isMonotone hf hd).transfer_width hi hw ht
      have hsplit' : liveness.direction.through b = (pre ++ [i]) ++ rest := by simp [hsplit]
      refine ih hsplit' hwt hrest fun htest j hj hphi hdef => ?_
      obtain ⟨post, rfl⟩ := List.head?_eq_some_iff.1 hj
      have hbody : b.body = post.reverse ++ j :: i :: pre.reverse :=
        Direction.through_backward.1 hsplit
      exact .inside hb hbody hphi hdef (hlive (hf.isPhi_of_next hb hbody hphi) htest)

/-- What successors send is live at the end of the block, if the facts behind their phis are. -/
theorem live_of_enters (hf : f.WellFormed) {d : Domain Value} (hd : d.frozen = true)
    {facts : Facts} (hfits : facts.Fits f.instCount d.size) {p : Nat} {v : Value}
    (hp : d.get? p = some v)
    (hlive : ∀ j ∈ f.instructions, j.kind.isPhi = false → ∀ u, facts[j.id]? = some u →
      u.test p = true → Live f v j)
    {b : Block} (hb : b ∈ f.blocks) {s : FactSet} (hs : liveness.Enters f d facts b s)
    (hsp : s.test p = true) {i : Instruction} (hlast : b.last? = some i)
    (hdef : ¬ i.result = some v) : Live f v i := by
  by_cases hnil : liveness.direction.neighbors f b = []
  · -- nothing is live where control leaves the function
    rw [Enters, if_pos hnil] at hs
    rw [hs] at hsp
    simp [liveness] at hsp
  · obtain ⟨n, hn, w, hw, hwp⟩ :=
      (hs.test_iff (m := .may) rfl hnil (Domain.lt_size_of_get? hp)).1 hsp
    obtain ⟨c, j, behind, hc, hj, hbehind, hiff⟩ := sends_test_iff hf hd hfits hw
    rcases (hiff hp).1 hwp with hin | ⟨htest, hphis⟩
    · exact .carried hb hlast hdef hn hc hin
    · have hmem := Function.mem_instructions_iff.2
        ⟨c, Function.mem_blocks_of_block? hc, Block.mem_of_behindPhis? hj⟩
      exact .across hb hlast hdef hn hc hphis hj
        (hlive j hmem (Block.isPhi_of_behindPhis? hj) behind hbehind htest)

/-- **What is in the facts is live.** -/
theorem live_of_solve (hf : f.WellFormed) {S : Solution Value}
    (h : (liveness.solve f).result = .ok S) {p : Nat} {v : Value}
    (hp : (liveness.domain f).get? p = some v) {i : Instruction} (hi : i ∈ f.instructions)
    (hphi : i.kind.isPhi = false) {u : FactSet} (hu : S.facts[i.id]? = some u)
    (htest : u.test p = true) : Live f v i := by
  refine solve_fact_invariant hf h rfl
    (Q := fun j u => j.kind.isPhi = false → u.test p = true → Live f v j) ?_ ?_ hi hu hphi htest
  · -- the table starts empty
    intro j _ _ htest
    simp [liveness, Meet.union] at htest
  · intro facts b s facts' hfits hinv hb hs halong j hj u hu hphi htest
    refine live_of_along hf rfl hb hp (List.nil_append _).symm
      ((liveness_isMonotoneIn hf rfl).enters_width hs) halong
      (fun hsp i hi _ hdef => ?_) j hj hphi u hu htest
    exact live_of_enters hf rfl hfits hp (fun j hj hphi u hu => hinv j hj u hu hphi) hb hs hsp
      (Direction.entrance?_backward.symm.trans hi) hdef

theorem liveness_holds_iff (hf : f.WellFormed) {S : Solution Value}
    (h : (liveness.solve f).result = .ok S) {i : Instruction} (hi : i ∈ f.instructions)
    (hphi : i.kind.isPhi = false) {v : Value} {b : Bool} :
    S.holds i.id v = .ok b ↔ (b = true ↔ v.isVariable = true ∧ Live f v i) := by
  rw [holds_iff_of_solve hf h rfl]
  refine iff_congr Iff.rfl ⟨?_, ?_⟩
  · rintro ⟨p, u, hp, hu, htest⟩
    exact ⟨(mem_liveness_domain_iff.1 (Domain.mem_of_get? hp)).1,
      live_of_solve hf h hp hi hphi hu htest⟩
  · rintro ⟨hvar, hlive⟩
    obtain ⟨p, hp⟩ := Domain.exists_get?_of_mem
      (mem_liveness_domain_iff.2 ⟨hvar, hlive.exists_read⟩)
    have hfits := fits_of_solve hf h rfl
    obtain ⟨u, hu, -⟩ := hfits.exists_getElem? (hf.id_lt hi)
    exact ⟨p, u, hp, hu, test_of_live hf rfl hfits (solves_of_solve hf h) hp hlive hu⟩

/-- In front of an instruction there is what it reads, and what it does not define of what is there
in front of the next one. -/
theorem liveness_holds_step (hf : f.WellFormed) {S : Solution Value}
    (h : (liveness.solve f).result = .ok S) {b : Block} (hb : b ∈ f.blocks)
    {pre post : List Instruction} {i n : Instruction} (hbody : b.body = pre ++ i :: n :: post)
    (v : Value) :
    S.holds i.id v = .ok true ↔ v.isVariable = true ∧ v ∈ i.operands ∨
      ¬ i.result = some v ∧ S.holds n.id v = .ok true := by
  have hfits := fits_of_solve hf h rfl
  have hi := (Function.Next.inside hb hbody).mem_left
  by_cases hv : v ∈ (liveness.domain f).elements
  · obtain ⟨p, hp⟩ := Domain.exists_get?_of_mem hv
    obtain ⟨s, u, hs, htransfer, hu⟩ :=
      (solves_of_solve hf h).transfer_inside hb (through_liveness hbody)
    rw [holds_eq_ok_iff_of_solve hf h rfl hp hu, holds_eq_ok_iff_of_solve hf h rfl hp hs, eq_comm,
      (liveness_isGenKill rfl).test_iff hi (hfits.width_eq hs) htransfer hp, eq_comm (a := true),
      and_comm (a := s.test p = true)]
    exact or_congr_left ⟨fun hread => ⟨(mem_liveness_domain_iff.1 hv).1, hread⟩, fun h => h.2⟩
  · -- outside the domain nothing holds, and nothing is read
    refine iff_of_false (fun hholds => hv (mem_domain_of_holds hf h rfl hholds)) ?_
    rintro (⟨hvar, hread⟩ | ⟨-, hholds⟩)
    · exact hv (mem_liveness_domain_iff.2 ⟨hvar, i, hi, hread⟩)
    · exact hv (mem_domain_of_holds hf h rfl hholds)

theorem exists_liveness_solve (hf : f.WellFormed) : ∃ S, (liveness.solve f).result = .ok S := by
  obtain ⟨S, hS, -⟩ := (liveness_isMonotoneIn hf rfl).exists_solve hf rfl
  exact ⟨S, hS⟩

/-- The solution finds the variables that are live in front of each instruction. -/
structure FindsLive (f : Function) (S : Solution Value) : Prop where
  /-- Unless the instruction is a phi, a variable holds iff it is live. -/
  live : ∀ i ∈ f.instructions, i.kind.isPhi = false → ∀ v, ∃ b, S.holds i.id v = .ok b ∧
    (b = true ↔ v.isVariable = true ∧ Live f v i)
  /-- In front of a phi its operands are added, as for any other instruction. -/
  phi : ∀ b ∈ f.blocks, ∀ pre i n post, b.body = pre ++ i :: n :: post → i.kind.isPhi = true →
    ∀ v, ∃ c, S.holds i.id v = .ok c ∧
      (c = true ↔ v.isVariable = true ∧ v ∈ i.operands ∨
        ¬ i.result = some v ∧ S.holds n.id v = .ok true)

/-- **Live variables are those that some path reads before it writes them**, where phis read on the
edges that lead to them. -/
theorem liveness_eq_live {draft : Draft} (hdraft : draft.toFunction = .ok f) :
    ∃ S, (liveness.solve f).result = .ok S ∧ FindsLive f S := by
  have hf := Draft.wellFormed_of_toFunction hdraft
  obtain ⟨S, hS⟩ := exists_liveness_solve hf
  refine ⟨S, hS, fun i hi hphi v => ?_, fun b hb pre i n post hbody _ v => ?_⟩
  · obtain ⟨c, hc⟩ := exists_holds_of_solve hf hS rfl i.id v
    exact ⟨c, hc, (liveness_holds_iff hf hS hi hphi).1 hc⟩
  · obtain ⟨c, hc⟩ := exists_holds_of_solve hf hS rfl i.id v
    refine ⟨c, hc, ?_⟩
    rw [← liveness_holds_step hf hS hb hbody, hc, Except.ok.injEq]

/-- Two phis take each other's value around the loop `1 → 2 → 1`, along two edges at once. -/
def swapDraft : Draft where
  name := "swap"
  params := 2
  blockCount := 4
  entries := [
    ⟨0, .jump 1, none⟩,
    ⟨1, .phi [⟨.param 0, 0⟩, ⟨.result 2, 2⟩], none⟩,
    ⟨1, .phi [⟨.param 1, 0⟩, ⟨.result 1, 2⟩], none⟩,
    ⟨1, .branch (.result 1) 2 3, none⟩,
    ⟨2, .branch (.param 0) 1 1, none⟩,
    ⟨3, .ret (some (.result 2)), none⟩]

theorem swapDraft_accepted : swapDraft.toFunction = .ok swapDraft.assemble :=
  Draft.toFunction_eq_ok_iff.2 ⟨by decide, rfl⟩

theorem liveness_eq_live_swap :
    swapDraft.toFunction = .ok swapDraft.assemble ∧
      ∃ S, (liveness.solve swapDraft.assemble).result = .ok S ∧ FindsLive swapDraft.assemble S :=
  ⟨swapDraft_accepted, liveness_eq_live swapDraft_accepted⟩

end Analysis

end FactFlow
