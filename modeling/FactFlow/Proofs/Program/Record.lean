import FactFlow.Proofs.Program.Acceptance
import FactFlow.Proofs.Program.Edges

/-!
# Functions as records of calls

Calls number instructions in the order in which they are made, and blocks may be filled in turns, so
the numbers say nothing about where an instruction stands.  `Function.Records` says how the two
orders go together in a function that comes out of a draft: what stands in a block, what stands
under a number, and what the edges are.
-/

namespace FactFlow

/-- The function `f` records the calls that were made for it and answered with `answers`. -/
structure Function.Records (f : Function) (calls : List Call) (answers : List Answer) : Prop where
  /-- There are as many blocks and instructions as were asked for, and as many slots, counted with
  32 bits. -/
  counts : f.slots = Call.slotCount calls ∧ f.blockCount = calls.count .block ∧
    f.instCount = (Call.appended calls).length
  /-- In program order, every number occurs exactly once. -/
  ids_once : (f.instructions.map (·.id)).Perm (List.range f.instCount)
  /-- A block has the instructions that were asked for in it, in the order of the calls. -/
  block_ids : ∀ b < f.blockCount, ∃ blk, f.block? b = some blk ∧ blk.id = b ∧
    blk.body.map (·.id) =
      (List.range f.instCount).filter (fun k => (Call.appended calls)[k]?.any (·.block == b)) ∧
    ∀ i ∈ blk.body, f.instruction? i.id = some i
  /-- The calls for instructions were answered with their numbers. -/
  ids_answered : ((calls.zip answers).filter (·.1.request?.isSome)).map (·.2) =
    (List.range f.instCount).map .inst
  /-- Under number `k` stands what call `k` for an instruction asked for. -/
  instruction_asked : ∀ k e, (Call.appended calls)[k]? = some e →
    ∃ i, f.instruction? k = some i ∧ i.id = k ∧ i.block = e.block ∧ i.kind = e.kind ∧
      (∀ v, e.dest = some v → i.result = some v ∧ ∃ n < f.slots, v = .slot n) ∧
      (e.dest = none → i.result = if e.kind.isTerminator then none else some (.result k))
  /-- Predecessors are ascending, with one entry for each edge. -/
  edges : ∀ b < f.blockCount, ∃ before, f.predecessors b = .ok before ∧
    before.Pairwise (· ≤ ·) ∧
    ∀ a < f.blockCount, ∃ after i, f.successors a = .ok after ∧ f.terminator? a = some i ∧
      i.kind.isTerminator = true ∧ before.count a = after.count b ∧
      after.count b = i.targets.count b
  /-- Entering every edge in the row of its target, block by block, gives the predecessors of all
  blocks. -/
  rows : ∃ after before, (List.range f.blockCount).mapM f.successors = .ok after ∧
    Draft.sourceRows after = .ok before ∧ (List.range f.blockCount).mapM f.predecessors = .ok before
  /-- Exits are ascending, and they are the blocks that return. -/
  exits_return : f.exits.Pairwise (· < ·) ∧
    ∀ b, b ∈ f.exits ↔ ∃ i v, f.terminator? b = some i ∧ i.kind = .ret v

namespace Draft

variable {d : Draft}

theorem block?_assemble {b : BlockId} (hb : b < d.blockCount) :
    d.assemble.block? b = some ⟨b, d.body b⟩ := by
  simp [Function.block?, assemble, blocks_eq, hb]

/-- The numbers in a block are those of the entries placed in it. -/
theorem map_id_body (d : Draft) (b : BlockId) :
    (d.body b).map (·.id) =
      (List.range d.entries.length).filter (fun k => d.entries[k]?.any (·.block == b)) := by
  have hplaces : List.range d.entries.length = d.entries.zipIdx.map (·.2) := by
    rw [List.zipIdx_map_snd, List.range_eq_range']
  have hblock : ∀ x ∈ d.entries.zipIdx,
      d.entries[x.2]?.any (·.block == b) = (x.1.block == b) := by
    intro x hx
    rw [List.mem_zipIdx_iff_getElem?.1 hx]
    rfl
  rw [hplaces, List.filter_map, body_eq, List.map_map]
  exact congrArg _ (List.filter_congr hblock).symm

/-- Under the number of an entry stands the instruction that it asks for. -/
theorem instruction?_assemble (hproblems : d.problems = []) {k : InstId} {e : Entry}
    (he : d.entries[k]? = some e) : d.assemble.instruction? k = some (instruction k e) := by
  have hf := wellFormed_of_toFunction (toFunction_eq_ok_iff.2 ⟨hproblems, rfl⟩)
  have hmem : instruction k e ∈ d.instructions := mem_instructions_iff.2 ⟨e, he, rfl⟩
  exact hf.instruction?_of_mem ((instructions_assemble_perm hproblems).mem_iff.2 hmem)

/-- The loop that enters the edges of an accepted draft row by row goes through, and enters each of
them once. -/
theorem sourceRows_assemble (hproblems : d.problems = []) :
    sourceRows (d.assemble.blocks.map (·.successors)) =
      .ok ((List.range d.assemble.blockCount).map d.assemble.sources) := by
  have hf := wellFormed_of_toFunction (toFunction_eq_ok_iff.2 ⟨hproblems, rfl⟩)
  rw [blockCount_assemble]
  refine sourceRows_successors fun i hi t ht => ?_
  rw [← blockCount_assemble]
  exact hf.target_lt ((instructions_assemble_perm hproblems).mem_iff.2 hi) ht

/-- **A function that comes out of a draft records the calls** that drew up the draft. -/
theorem records_of_toFunction {name : String} {params : Nat} {calls : List Call} {f : Function}
    (h : (drawn name params calls).toFunction = .ok f) :
    f.Records calls (answers name params calls) := by
  have hf := wellFormed_of_toFunction h
  obtain ⟨hproblems, rfl⟩ := toFunction_eq_ok_iff.1 h
  have hdrawn := (problems_eq_nil_iff fun e he => dest_of_isTerminator he).1 hproblems
  have hinst := instCount_assemble hproblems
  have hentries : (drawn name params calls).entries = Call.appended calls := entries_drawn
  have hblocks := blockCount_assemble (drawn name params calls)
  refine
    { counts := ⟨slots_drawn, hblocks.trans blockCount_drawn, by rw [hinst, hentries]⟩
      ids_once := hf.ids_perm
      block_ids := ?_
      ids_answered := by rw [hinst, hentries, answers_appended]
      instruction_asked := ?_
      edges := ?_
      rows := ⟨_, _, hf.mapM_successors, sourceRows_assemble hproblems, hf.mapM_predecessors⟩
      exits_return := ⟨hf.exits_pairwise, fun b => hf.mem_exits_iff⟩ }
  · intro b hb
    have hblk := block?_assemble (hblocks ▸ hb)
    refine ⟨_, hblk, rfl, ?_, fun i hi => ?_⟩
    · rw [hinst, ← hentries]
      exact map_id_body _ b
    · exact hf.instruction?_of_mem
        (Function.mem_instructions_iff.2 ⟨_, Function.mem_blocks_of_block? hblk, hi⟩)
  · intro k e he
    rw [← hentries] at he
    refine ⟨_, instruction?_assemble hproblems he, rfl, rfl, rfl, fun v hv => ⟨?_, ?_⟩, ?_⟩
    · rw [instruction, hv]
    · exact hdrawn.dest_slot e (List.mem_of_getElem? he) v hv
    · intro hnone
      rw [instruction, hnone]
      cases hterm : e.kind.isTerminator <;> simp [Kind.yieldsValue, hterm]
  · intro b hb
    exact ⟨_, hf.predecessors_eq hb, hf.sources_pairwise b, fun a ha => hf.count_predecessors ha⟩

/-- Block `1` is filled before block `0`, which leads to it by both arms of its branch, and block
`2` is asked for last of all; the phi takes a value that is computed behind it. -/
def weaveCalls : List Call :=
  [.block, .block,
    .phi 1 [⟨.param 0, 0⟩, ⟨.result 3, 1⟩],
    .branch 0 (.param 0) 1 1,
    .slot,
    .binaryInto 1 (.slot 0) .add (.result 0) (.slot 0),
    .binary 1 .mul (.result 0) (.slot 0),
    .block,
    .branch 1 (.result 3) 1 2,
    .ret 2 (some (.result 3))]

theorem weaveCalls_accepted :
    (drawn "weave" 1 weaveCalls).toFunction = .ok (drawn "weave" 1 weaveCalls).assemble :=
  toFunction_eq_ok_iff.2 ⟨by decide, rfl⟩

theorem records_of_toFunction_weave :
    (drawn "weave" 1 weaveCalls).toFunction = .ok (drawn "weave" 1 weaveCalls).assemble ∧
      (drawn "weave" 1 weaveCalls).assemble.instructions.map (·.id) = [1, 0, 2, 3, 4, 5] ∧
      (drawn "weave" 1 weaveCalls).assemble.predecessors 1 = .ok [0, 0, 1] ∧
      (drawn "weave" 1 weaveCalls).assemble.Records weaveCalls (answers "weave" 1 weaveCalls) :=
  ⟨weaveCalls_accepted, by decide, by decide, records_of_toFunction weaveCalls_accepted⟩

end Draft

end FactFlow
