import FactFlow.Proofs.Program.Calls
import FactFlow.Proofs.Program.Stages

/-!
# Which calls give a function

`WellDrawn` says of the instructions that calls ask for what a function needs: blocks that exist
and end in their only terminator, phis in front, destinations that are slots, and targets, operands
and sources of phis that exist.  It speaks of the instructions alone and not of their inspection, so
an instruction may refer to what comes later.

The inspection refuses everything else (`Draft.toFunction_accepts_iff`).  Each kind of problem has a
lemma that says when there is none of it, and the lemmas are put together in
`Draft.problems_eq_nil_iff`.
-/

namespace FactFlow

/-- What the instructions placed in block `b` do, in order. -/
def Entry.kindsIn (entries : List Entry) (b : BlockId) : List Kind :=
  (entries.filter (·.block == b)).map (·.kind)

/-- What an instruction may read: constants, parameters and slots that exist, and the result of an
instruction that keeps it to itself, which is neither a terminator nor given a destination. -/
def Entry.Defines (params slots : Nat) (entries : List Entry) : Value → Prop
  | .param n => n < params
  | .slot n => n < slots
  | .result k => ∃ e, entries[k]? = some e ∧ e.dest = none ∧ e.kind.isTerminator = false
  | .const _ => True

/-- What a function needs. -/
structure WellDrawn (params slots blocks : Nat) (entries : List Entry) : Prop where
  /-- There is an entry block. -/
  blocks_pos : 0 < blocks
  /-- Instructions are placed in blocks that exist. -/
  block_lt : ∀ e ∈ entries, e.block < blocks
  /-- Destinations are slots that exist. -/
  dest_slot : ∀ e ∈ entries, ∀ v, e.dest = some v → ∃ n < slots, v = .slot n
  /-- A block is not empty, its last instruction is a terminator, and no other one is. -/
  terminated : ∀ b < blocks, ∃ front last, Entry.kindsIn entries b = front ++ [last] ∧
    last.isTerminator = true ∧ ∀ k ∈ front, k.isTerminator = false
  /-- Only phis stand before a phi. -/
  phis_first : ∀ b < blocks,
    (Entry.kindsIn entries b).Pairwise fun k l => l.isPhi = true → k.isPhi = true
  /-- Targets are blocks that exist. -/
  target_lt : ∀ e ∈ entries, ∀ t ∈ e.kind.targets, t < blocks
  /-- Operands are defined. -/
  operand_defined : ∀ e ∈ entries, ∀ v ∈ e.kind.operands, Entry.Defines params slots entries v
  /-- A phi takes its alternatives from blocks whose terminator leads to it. -/
  source_leads : ∀ e ∈ entries, ∀ a ∈ e.kind.incoming, a.source < blocks ∧
    ∃ last, (Entry.kindsIn entries a.source).getLast? = some last ∧ e.block ∈ last.targets

namespace Draft

variable {d : Draft}

/-! ### When there is no problem of a kind -/

theorem placementProblems_eq_nil_iff {e : Entry} {k : InstId}
    (hdest : e.kind.isTerminator = true → e.dest = none) :
    d.placementProblems e k = [] ↔
      e.block < d.blockCount ∧ ∀ v, e.dest = some v → ∃ n < d.slots.toNat, v = .slot n := by
  have hslot : ∀ v, d.isSlot v = true ↔ ∃ n < d.slots.toNat, v = .slot n := by
    intro v
    cases v <;> simp [isSlot]
  rw [placementProblems, List.append_eq_nil_iff]
  refine and_congr (by simp) ?_
  cases he : e.dest with
  | none => simp
  | some v =>
    have hterm : e.kind.isTerminator = false := by
      cases hkind : e.kind.isTerminator with
      | false => rfl
      | true => rw [hdest hkind] at he; cases he
    simp [hterm, ← hslot]

theorem result_eq_own_iff {k : InstId} {e : Entry}
    (hdest : ∀ v, e.dest = some v → ∃ n < d.slots.toNat, v = .slot n) :
    (instruction k e).result = some (.result k) ↔ e.dest = none ∧ e.kind.isTerminator = false := by
  rw [instruction]
  cases he : e.dest with
  | none => simp [Kind.yieldsValue]
  | some v =>
    -- a destination is a slot and no result
    obtain ⟨n, -, rfl⟩ := hdest v he
    simp

theorem isDefined_iff
    (hdest : ∀ e ∈ d.entries, ∀ v, e.dest = some v → ∃ n < d.slots.toNat, v = .slot n) {v : Value} :
    d.isDefined v = true ↔ Entry.Defines d.params d.slots.toNat d.entries v := by
  cases v with
  | param n => simp [isDefined, Entry.Defines]
  | slot n => simp [isDefined, Entry.Defines]
  | const c => simp [isDefined, Entry.Defines]
  | result k =>
    rw [isDefined, Entry.Defines, getElem?_instructions]
    cases he : d.entries[k]? with
    | none => simp
    | some e => simp [result_eq_own_iff (hdest e (List.mem_of_getElem? he))]

/-- The instructions of a block do what its entries ask for. -/
theorem map_kind_body (d : Draft) (b : BlockId) :
    (d.body b).map (·.kind) = Entry.kindsIn d.entries b := by
  have hentries : d.entries = d.entries.zipIdx.map (·.1) := (List.zipIdx_map_fst 0 d.entries).symm
  rw [Entry.kindsIn]
  conv_rhs => rw [hentries, List.filter_map, List.map_map]
  rw [body_eq, List.map_map]
  rfl

/-- No phi stands behind the leading phis iff only phis stand before a phi. -/
theorem behind_phis_iff {l : List Instruction} :
    (∀ i ∈ l.dropWhile (·.kind.isPhi), i.kind.isPhi = false) ↔
      (l.map (·.kind)).Pairwise fun k l => l.isPhi = true → k.isPhi = true := by
  induction l with
  | nil => simp
  | cons i rest ih =>
    cases hi : i.kind.isPhi with
    | true => simpa [hi] using ih
    | false =>
      simp only [hi, List.dropWhile_cons_of_neg, Bool.false_eq_true, not_false_eq_true,
        List.map_cons, List.pairwise_cons, List.forall_mem_cons, List.forall_mem_map, imp_false,
        Bool.not_eq_true, true_and]
      refine ⟨fun h => ⟨h, ?_⟩, fun h => h.1⟩
      -- without any phi there is nothing to compare
      rw [List.pairwise_map]
      refine List.pairwise_of_forall_mem_list fun _ _ j hj hphi => ?_
      rw [h j hj] at hphi
      cases hphi

theorem shapeProblems_body_eq_nil_iff {b : BlockId} :
    shapeProblems ⟨b, d.body b⟩ = [] ↔
      (∃ front last, Entry.kindsIn d.entries b = front ++ [last] ∧ last.isTerminator = true ∧
        ∀ k ∈ front, k.isTerminator = false) ∧
      (Entry.kindsIn d.entries b).Pairwise fun k l => l.isPhi = true → k.isPhi = true := by
  rw [shapeProblems_eq_nil_iff, behind_phis_iff, ← and_assoc, ← map_kind_body]
  refine and_congr_left fun _ => ⟨?_, ?_⟩
  · rintro ⟨⟨last, hlast, hterm⟩, hfront⟩
    obtain ⟨front, hbody⟩ := List.getLast?_eq_some_iff.1 hlast
    dsimp only at hbody hfront
    rw [hbody, List.dropLast_concat] at hfront
    refine ⟨front.map (·.kind), last.kind, by simp [hbody], hterm, ?_⟩
    simpa using hfront
  · rintro ⟨front, last, hkinds, hterm, hfront⟩
    obtain ⟨body, rest, hbody, rfl, hrest⟩ := List.map_eq_append_iff.1 hkinds
    obtain ⟨i, rfl, rfl⟩ := List.map_eq_singleton_iff.1 hrest
    refine ⟨⟨i, by simp [Block.last?, hbody], hterm⟩, ?_⟩
    dsimp only
    rw [hbody, List.dropLast_concat]
    simpa using hfront

theorem sourceProblems_eq_nil_iff {i : Instruction} :
    sourceProblems d.assemble i = [] ↔
      ∀ a ∈ i.kind.incoming, a.source < d.blockCount ∧
        ∃ last, (Entry.kindsIn d.entries a.source).getLast? = some last ∧
          i.block ∈ last.targets := by
  have hlast : ∀ a, i.block ∈ Block.successors ⟨a, d.body a⟩ ↔
      ∃ last, (Entry.kindsIn d.entries a).getLast? = some last ∧ i.block ∈ last.targets := by
    intro a
    rw [Block.mem_successors_iff, ← map_kind_body, List.getLast?_map, Block.last?]
    cases (d.body a).getLast? <;> simp [Instruction.targets]
  have hsource : ∀ a, a ∈ d.assemble.sources i.block ↔ a < d.blockCount ∧
      ∃ last, (Entry.kindsIn d.entries a).getLast? = some last ∧ i.block ∈ last.targets := by
    intro a
    rw [Function.mem_sources_iff, assemble, blocks_eq, ← hlast]
    simp
  simp [sourceProblems, hsource]

/-! ### When there is no problem at all -/

theorem forall_zipIdx_iff {P : Entry → Prop} {l : List Entry} :
    (∀ x ∈ l.zipIdx, P x.1) ↔ ∀ e ∈ l, P e := by
  conv_rhs => rw [← List.zipIdx_map_fst 0 l]
  exact List.forall_mem_map.symm

/-- What is asked of the blocks and kinds of all instructions is asked of all entries. -/
theorem forall_instructions_iff (P : BlockId → Kind → Prop) :
    (∀ i ∈ d.instructions, P i.block i.kind) ↔ ∀ e ∈ d.entries, P e.block e.kind := by
  rw [instructions, List.forall_mem_map]
  exact forall_zipIdx_iff (P := fun e => P e.block e.kind)

theorem placement_ok_iff (hdest : ∀ e ∈ d.entries, e.kind.isTerminator = true → e.dest = none) :
    (∀ x ∈ d.entries.zipIdx, d.placementProblems x.1 x.2 = []) ↔
      ∀ e ∈ d.entries,
        e.block < d.blockCount ∧ ∀ v, e.dest = some v → ∃ n < d.slots.toNat, v = .slot n := by
  rw [← forall_zipIdx_iff]
  refine forall₂_congr fun x hx => placementProblems_eq_nil_iff (hdest x.1 ?_)
  exact List.mem_of_getElem? (List.mem_zipIdx_iff_getElem?.1 hx)

theorem references_ok_iff
    (hdest : ∀ e ∈ d.entries, ∀ v, e.dest = some v → ∃ n < d.slots.toNat, v = .slot n) :
    (∀ i ∈ d.instructions, d.referenceProblems i = []) ↔
      ∀ e ∈ d.entries, (∀ t ∈ e.kind.targets, t < d.blockCount) ∧
        ∀ v ∈ e.kind.operands, Entry.Defines d.params d.slots.toNat d.entries v := by
  simp only [referenceProblems_eq_nil_iff, isDefined_iff hdest]
  exact forall_instructions_iff fun _ k => (∀ t ∈ k.targets, t < d.blockCount) ∧
    ∀ v ∈ k.operands, Entry.Defines d.params d.slots.toNat d.entries v

theorem shapes_ok_iff :
    (∀ blk ∈ d.blocks, shapeProblems blk = []) ↔
      ∀ b < d.blockCount,
        (∃ front last, Entry.kindsIn d.entries b = front ++ [last] ∧ last.isTerminator = true ∧
          ∀ k ∈ front, k.isTerminator = false) ∧
        (Entry.kindsIn d.entries b).Pairwise fun k l => l.isPhi = true → k.isPhi = true := by
  simp only [blocks_eq, List.forall_mem_map, List.mem_range, shapeProblems_body_eq_nil_iff]

theorem sources_ok_iff (hblock : ∀ e ∈ d.entries, e.block < d.blockCount) :
    (∀ i ∈ d.assemble.instructions, sourceProblems d.assemble i = []) ↔
      ∀ e ∈ d.entries, ∀ a ∈ e.kind.incoming, a.source < d.blockCount ∧
        ∃ last, (Entry.kindsIn d.entries a.source).getLast? = some last ∧
          e.block ∈ last.targets := by
  have hmem : ∀ i, i ∈ d.assemble.instructions ↔ i ∈ d.instructions := by
    intro i
    have hlt := (forall_instructions_iff fun b _ => b < d.blockCount).2 hblock i
    simpa [Function.instructions, assemble, blocks_eq, body] using hlt
  simp only [hmem, sourceProblems_eq_nil_iff]
  exact forall_instructions_iff fun b k => ∀ a ∈ k.incoming, a.source < d.blockCount ∧
    ∃ last, (Entry.kindsIn d.entries a.source).getLast? = some last ∧ b ∈ last.targets

theorem problems_eq_nil_iff
    (hdest : ∀ e ∈ d.entries, e.kind.isTerminator = true → e.dest = none) :
    d.problems = [] ↔ WellDrawn d.params d.slots.toNat d.blockCount d.entries := by
  have hblocks : (if d.blockCount = 0 then [Malformed.noBlocks d.name] else []) = [] ↔
      0 < d.blockCount := by
    rw [ite_eq_right_iff, Nat.pos_iff_ne_zero]
    simp
  simp only [problems, List.append_eq_nil_iff, List.flatMap_eq_nil_iff, hblocks, shapes_ok_iff,
    placement_ok_iff hdest]
  constructor
  · rintro ⟨⟨⟨⟨hpos, hplace⟩, hshape⟩, href⟩, hsource⟩
    have hblock := fun e he => (hplace e he).1
    have href := (references_ok_iff fun e he => (hplace e he).2).1 href
    exact
      { blocks_pos := hpos
        block_lt := hblock
        dest_slot := fun e he => (hplace e he).2
        terminated := fun b hb => (hshape b hb).1
        phis_first := fun b hb => (hshape b hb).2
        target_lt := fun e he => (href e he).1
        operand_defined := fun e he => (href e he).2
        source_leads := (sources_ok_iff hblock).1 hsource }
  · intro h
    exact ⟨⟨⟨⟨h.blocks_pos, fun e he => ⟨h.block_lt e he, h.dest_slot e he⟩⟩,
      fun b hb => ⟨h.terminated b hb, h.phis_first b hb⟩⟩,
      (references_ok_iff h.dest_slot).2 fun e he => ⟨h.target_lt e he, h.operand_defined e he⟩⟩,
      (sources_ok_iff h.block_lt).2 h.source_leads⟩

/-- **The calls that give a function** are those that ask for what a function needs, and all others
are refused as malformed.  The slots that exist are those on record, so `UInt32.size` calls for a
slot leave none.  No lookup misses on the way to either answer. -/
theorem toFunction_accepts_iff (name : String) (params : Nat) (calls : List Call) :
    ((∃ f, (drawn name params calls).toFunction = .ok f) ↔
        WellDrawn params (Call.slotCount calls) (calls.count .block) (Call.appended calls)) ∧
      ((∃ why, (drawn name params calls).toFunction = .error (.malformed why)) ↔
        ¬ WellDrawn params (Call.slotCount calls) (calls.count .block) (Call.appended calls)) ∧
      (drawn name params calls).inspect =
        (drawn name params calls).toFunction.mapError .refused := by
  have hiff : (drawn name params calls).problems = [] ↔
      WellDrawn params (Call.slotCount calls) (calls.count .block) (Call.appended calls) := by
    rw [problems_eq_nil_iff fun e he => dest_of_isTerminator he, params_drawn, slots_drawn,
      blockCount_drawn, entries_drawn]
  refine ⟨?_, ?_, inspect_eq _⟩
  · rw [← hiff]
    simp [toFunction_eq_ok_iff]
  · rw [← hiff, toFunction]
    cases (drawn name params calls).problems <;> simp

end Draft

end FactFlow
