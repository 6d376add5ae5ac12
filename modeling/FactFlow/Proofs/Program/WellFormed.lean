import FactFlow.Program.Draft
import FactFlow.Proofs.Outcome
import Mathlib.Data.List.Nodup
import Mathlib.Data.List.Perm.Basic

/-!
# Well-formed functions

`Draft.toFunction` answers with a function only after inspecting the draft.
`Function.WellFormed` collects what that inspection leaves behind: blocks are numbered by their
place, instructions by a permutation of `0, 1, …`, every block ends in its only terminator, phis
stand first, and targets exist.

* `Draft.wellFormed_of_toFunction` : every function that comes out of a draft is well-formed.
* `Function.WellFormed.eq_of_mem_body` : an instruction stands in one block only.
* `Function.WellFormed.bodyOf_eq` : no lookup of a block's instructions misses.
-/

namespace FactFlow

/-- What the inspection of a draft leaves behind. -/
structure Function.WellFormed (f : Function) : Prop where
  /-- There is an entry block. -/
  blockCount_pos : 0 < f.blockCount
  /-- Blocks are numbered by their place. -/
  id_of_block? : ∀ {b blk}, f.block? b = some blk → blk.id = b
  /-- An instruction names the block that it stands in. -/
  block_of_mem : ∀ {blk i}, blk ∈ f.blocks → i ∈ blk.body → i.block = blk.id
  /-- Instructions are numbered from `0` on, in some order. -/
  ids_perm : (f.instructions.map (·.id)).Perm (List.range f.instCount)
  /-- A block is not empty, and its last instruction is a terminator. -/
  last_of_mem : ∀ {blk}, blk ∈ f.blocks →
    ∃ last, blk.last? = some last ∧ last.kind.isTerminator = true
  /-- No other instruction of a block is a terminator. -/
  front_of_mem : ∀ {blk i}, blk ∈ f.blocks → i ∈ blk.body.dropLast → i.kind.isTerminator = false
  /-- No phi stands behind the leading phis. -/
  behind_phis : ∀ {blk i}, blk ∈ f.blocks → i ∈ blk.body.dropWhile (·.kind.isPhi) →
    i.kind.isPhi = false
  /-- Targets are blocks of the function. -/
  target_lt : ∀ {i t}, i ∈ f.instructions → t ∈ i.targets → t < f.blockCount
  /-- An instruction defines a variable, unless it is a terminator. -/
  result_of_mem : ∀ {i}, i ∈ f.instructions →
    if i.kind.isTerminator then i.result = none else ∃ v, i.result = some v ∧ v.isVariable = true

/-- The entry begins with instruction `i`. -/
def Function.Starts (f : Function) (i : Instruction) : Prop :=
  ∃ b, f.block? Function.entry = some b ∧ b.first? = some i

theorem Block.successors_of_last? {blk : Block} {i : Instruction} (hlast : blk.last? = some i) :
    blk.successors = i.targets := by
  rw [Block.successors, hlast]

theorem Block.mem_successors_iff {blk : Block} {t : BlockId} :
    t ∈ blk.successors ↔ ∃ i, blk.last? = some i ∧ t ∈ i.targets := by
  rw [Block.successors]
  cases blk.last? <;> simp

namespace Draft

/-! ### What the inspection says -/

theorem toFunction_eq_ok_iff {d : Draft} {f : Function} :
    d.toFunction = .ok f ↔ d.problems = [] ∧ d.assemble = f := by
  unfold toFunction
  split
  · rename_i h
    simp [h]
  · rename_i h
    simp [h]

theorem mem_instructions_iff {d : Draft} {i : Instruction} :
    i ∈ d.instructions ↔ ∃ e, d.entries[i.id]? = some e ∧ instruction i.id e = i := by
  simp only [instructions, List.mem_map, Prod.exists, List.mem_zipIdx_iff_getElem?]
  constructor
  · rintro ⟨e, k, hk, rfl⟩
    exact ⟨e, hk, rfl⟩
  · rintro ⟨e, he, hi⟩
    exact ⟨e, i.id, he, hi⟩

theorem map_id_instructions (d : Draft) :
    d.instructions.map (·.id) = List.range d.entries.length := by
  apply List.ext_getElem
  · simp [instructions]
  · intro k hk hk'
    simp [instructions, instruction]

theorem mem_blocks_iff {d : Draft} {blk : Block} :
    blk ∈ d.blocks ↔ blk.id < d.blockCount ∧
      blk.body = d.instructions.filter (·.block == blk.id) := by
  simp only [blocks, List.mem_map, List.mem_range]
  constructor
  · rintro ⟨b, hb, rfl⟩
    exact ⟨hb, rfl⟩
  · rintro ⟨hb, hbody⟩
    exact ⟨blk.id, hb, by rw [← hbody]⟩

/-- Sorting a list into classes numbered below `n` keeps the members of these classes. -/
theorem flatMap_filter_perm {α : Type} (key : α → Nat) (l : List α) (n : Nat) :
    ((List.range n).flatMap fun b => l.filter (key · == b)).Perm (l.filter (key · < n)) := by
  induction n with
  | zero => simp
  | succ n ih =>
    have hlow : (l.filter (key · < n + 1)).filter (key · < n) = l.filter (key · < n) := by
      rw [List.filter_filter]
      congr 1
      funext a
      rw [Bool.eq_iff_iff]
      simp only [Bool.and_eq_true, decide_eq_true_eq]
      omega
    have hlast : (l.filter (key · < n + 1)).filter (fun a => !decide (key a < n)) =
        l.filter (key · == n) := by
      rw [List.filter_filter]
      congr 1
      funext a
      rw [Bool.eq_iff_iff]
      simp only [Bool.and_eq_true, Bool.not_eq_true', decide_eq_false_iff_not, decide_eq_true_eq,
        beq_iff_eq]
      omega
    rw [List.range_succ, List.flatMap_append, List.flatMap_singleton]
    refine (ih.append_right _).trans ?_
    have hsplit := List.filter_append_perm (key · < n) (l.filter (key · < n + 1))
    rwa [hlow, hlast] at hsplit

theorem orderProblems_eq_nil_iff {b : BlockId} {afterPhis : Bool} {l : List Instruction} :
    orderProblems b afterPhis l = [] ↔
      (∀ i ∈ l.dropLast, i.kind.isTerminator = false) ∧
        ∀ i ∈ (if afterPhis then l else l.dropWhile (·.kind.isPhi)), i.kind.isPhi = false := by
  induction l generalizing afterPhis with
  | nil => simp [orderProblems]
  | cons i rest ih =>
    have hterm : (if i.kind.isTerminator && !rest.isEmpty then [Malformed.earlyTerminator i.id b]
          else []) = [] ∧ (∀ j ∈ rest.dropLast, j.kind.isTerminator = false) ↔
        ∀ j ∈ (i :: rest).dropLast, j.kind.isTerminator = false := by
      cases rest with
      | nil => simp
      | cons j rest => simp
    have hphi : (if i.kind.isPhi && afterPhis then [Malformed.latePhi i.id b] else []) = [] ∧
          (∀ j ∈ (if (afterPhis || !i.kind.isPhi) then rest else
            rest.dropWhile (·.kind.isPhi)), j.kind.isPhi = false) ↔
        ∀ j ∈ (if afterPhis then i :: rest else (i :: rest).dropWhile (·.kind.isPhi)),
          j.kind.isPhi = false := by
      cases hi : i.kind.isPhi <;> cases afterPhis <;> simp [hi]
    rw [orderProblems, List.append_eq_nil_iff, List.append_eq_nil_iff, ih, ← hterm, ← hphi]
    tauto

theorem shapeProblems_eq_nil_iff {blk : Block} :
    shapeProblems blk = [] ↔
      (∃ last, blk.last? = some last ∧ last.kind.isTerminator = true) ∧
        (∀ i ∈ blk.body.dropLast, i.kind.isTerminator = false) ∧
        ∀ i ∈ blk.body.dropWhile (·.kind.isPhi), i.kind.isPhi = false := by
  unfold shapeProblems
  split
  · rename_i h
    simp [h]
  · rename_i last h
    split
    · rename_i hterm
      rw [orderProblems_eq_nil_iff]
      simp [h, hterm]
    · rename_i hterm
      simp [h, hterm]

theorem referenceProblems_eq_nil_iff {d : Draft} {i : Instruction} :
    d.referenceProblems i = [] ↔
      (∀ t ∈ i.targets, t < d.blockCount) ∧ ∀ v ∈ i.operands, d.isDefined v = true := by
  simp [referenceProblems]

theorem instructions_assemble_perm {d : Draft} (h : d.problems = []) :
    d.assemble.instructions.Perm d.instructions := by
  simp only [problems, List.append_eq_nil_iff, List.flatMap_eq_nil_iff] at h
  obtain ⟨⟨⟨⟨-, hplace⟩, -⟩, -⟩, -⟩ := h
  have hall : d.instructions.filter (·.block < d.blockCount) = d.instructions := by
    rw [List.filter_eq_self]
    intro i hi
    obtain ⟨e, he, hie⟩ := mem_instructions_iff.1 hi
    have hmem := hplace (e, i.id) (List.mem_zipIdx_iff_getElem?.2 he)
    simp only [placementProblems, List.append_eq_nil_iff, ite_eq_left_iff, List.cons_ne_self,
      imp_false, not_not] at hmem
    rw [← hie]
    exact decide_eq_true hmem.1
  have hperm := flatMap_filter_perm (·.block) d.instructions d.blockCount
  rw [hall] at hperm
  rwa [Function.instructions, assemble, blocks, List.flatMap_map]

theorem blockCount_assemble (d : Draft) : d.assemble.blockCount = d.blockCount := by
  simp [Function.blockCount, assemble, blocks]

theorem instCount_assemble {d : Draft} (h : d.problems = []) :
    d.assemble.instCount = d.entries.length := by
  rw [Function.instCount, (instructions_assemble_perm h).length_eq]
  simp [instructions]

theorem result_instruction {d : Draft} {k : InstId} {e : Entry} (h : d.placementProblems e k = []) :
    if e.kind.isTerminator then (instruction k e).result = none
    else ∃ v, (instruction k e).result = some v ∧ v.isVariable = true := by
  simp only [placementProblems, List.append_eq_nil_iff] at h
  cases hdest : e.dest with
  | none =>
    cases hterm : e.kind.isTerminator with
    | true => simp [instruction, hdest, Kind.yieldsValue, hterm]
    | false => simp [instruction, hdest, Kind.yieldsValue, hterm, Value.isVariable]
  | some v =>
    have hv := h.2
    simp only [hdest] at hv
    cases v with
    | slot n =>
      cases hterm : e.kind.isTerminator with
      | true =>
        rw [hterm] at hv
        split at hv <;> simp at hv
      | false => simp [instruction, hdest, Value.isVariable]
    | param n => simp [isSlot] at hv
    | result i => simp [isSlot] at hv
    | const c => simp [isSlot] at hv

/-- **Every function that comes out of a draft is well-formed.** -/
theorem wellFormed_of_toFunction {d : Draft} {f : Function} (h : d.toFunction = .ok f) :
    f.WellFormed := by
  obtain ⟨hproblems, rfl⟩ := toFunction_eq_ok_iff.1 h
  have hperm := instructions_assemble_perm hproblems
  have hlength := instCount_assemble hproblems
  simp only [problems, List.append_eq_nil_iff, List.flatMap_eq_nil_iff] at hproblems
  obtain ⟨⟨⟨⟨hcount, hplace⟩, hshape⟩, href⟩, -⟩ := hproblems
  have hshape' := fun blk hblk => shapeProblems_eq_nil_iff.1 (hshape blk hblk)
  refine
    { blockCount_pos := ?_
      id_of_block? := ?_
      block_of_mem := ?_
      ids_perm := ?_
      last_of_mem := fun hblk => (hshape' _ hblk).1
      front_of_mem := fun hblk hi => (hshape' _ hblk).2.1 _ hi
      behind_phis := fun hblk hi => (hshape' _ hblk).2.2 _ hi
      target_lt := ?_
      result_of_mem := ?_ }
  · rw [ite_eq_right_iff] at hcount
    rw [blockCount_assemble]
    exact Nat.pos_of_ne_zero fun hzero => by simpa using hcount hzero
  · intro b blk hblk
    simp only [Function.block?, assemble, blocks, List.getElem?_map, Option.map_eq_some_iff,
      List.getElem?_eq_some_iff] at hblk
    obtain ⟨c, ⟨hlt, hc⟩, rfl⟩ := hblk
    simpa using hc.symm
  · intro blk i hblk hi
    rw [(mem_blocks_iff.1 hblk).2] at hi
    simpa using (List.mem_filter.1 hi).2
  · rw [hlength, ← map_id_instructions]
    exact hperm.map _
  · intro i t hi ht
    rw [blockCount_assemble]
    exact (referenceProblems_eq_nil_iff.1 (href i (hperm.mem_iff.1 hi))).1 t ht
  · intro i hi
    obtain ⟨e, he, hie⟩ := mem_instructions_iff.1 (hperm.mem_iff.1 hi)
    have hkind : e.kind = i.kind := by rw [← hie]; rfl
    have hres := result_instruction (hplace (e, i.id) (List.mem_zipIdx_iff_getElem?.2 he))
    rwa [hie, hkind] at hres

end Draft

namespace Function

variable {f : Function}

theorem mem_instructions_iff {i : Instruction} :
    i ∈ f.instructions ↔ ∃ blk ∈ f.blocks, i ∈ blk.body := by
  simp [instructions]

theorem mem_blocks_of_block? {b : BlockId} {blk : Block} (h : f.block? b = some blk) :
    blk ∈ f.blocks :=
  List.mem_of_getElem? h

theorem mem_of_instruction? {k : InstId} {i : Instruction} (h : f.instruction? k = some i) :
    i ∈ f.instructions ∧ i.id = k :=
  ⟨List.mem_of_find?_eq_some h, by simpa using List.find?_some h⟩

theorem mem_sources_iff {a b : BlockId} :
    a ∈ f.sources b ↔ ∃ blk ∈ f.blocks, blk.id = a ∧ b ∈ blk.successors := by
  simp only [sources, List.mem_flatMap, List.mem_map, List.mem_filter, beq_iff_eq]
  constructor
  · rintro ⟨blk, hblk, c, ⟨hc, rfl⟩, rfl⟩
    exact ⟨blk, hblk, rfl, hc⟩
  · rintro ⟨blk, hblk, rfl, hb⟩
    exact ⟨blk, hblk, b, ⟨hb, rfl⟩, rfl⟩

namespace WellFormed

variable (hf : f.WellFormed)
include hf

theorem block?_of_mem {blk : Block} (h : blk ∈ f.blocks) : f.block? blk.id = some blk := by
  obtain ⟨b, hb⟩ := List.mem_iff_getElem?.1 h
  have hb' : f.block? b = some blk := hb
  rw [hf.id_of_block? hb']
  exact hb'

theorem ids_nodup : (f.instructions.map (·.id)).Nodup :=
  hf.ids_perm.nodup_iff.2 List.nodup_range

theorem id_lt {i : Instruction} (h : i ∈ f.instructions) : i.id < f.instCount :=
  List.mem_range.1 (hf.ids_perm.mem_iff.1 (List.mem_map_of_mem h))

theorem eq_of_id_eq {i j : Instruction} (hi : i ∈ f.instructions) (hj : j ∈ f.instructions)
    (h : i.id = j.id) : i = j :=
  List.inj_on_of_nodup_map hf.ids_nodup hi hj h

theorem exists_block?_of_mem_successors {blk : Block} (hblk : blk ∈ f.blocks) {t : BlockId}
    (ht : t ∈ blk.successors) : ∃ c, f.block? t = some c := by
  obtain ⟨last, hlast, ht⟩ := Block.mem_successors_iff.1 ht
  have hmem : last ∈ f.instructions :=
    mem_instructions_iff.2 ⟨blk, hblk, List.mem_of_getLast? hlast⟩
  exact ⟨_, List.getElem?_eq_getElem (hf.target_lt hmem ht)⟩

theorem exists_first {blk : Block} (h : blk ∈ f.blocks) : ∃ i, blk.first? = some i := by
  obtain ⟨last, hlast, -⟩ := hf.last_of_mem h
  have hne : blk.body ≠ [] := List.ne_nil_of_mem (List.mem_of_getLast? hlast)
  exact ⟨_, List.head?_eq_some_head hne⟩

theorem exists_starts : ∃ i, f.Starts i := by
  have hb : f.block? Function.entry = some _ := List.getElem?_eq_getElem hf.blockCount_pos
  obtain ⟨i, hi⟩ := hf.exists_first (mem_blocks_of_block? hb)
  exact ⟨i, _, hb, hi⟩

/-- A terminator stands at the end of its block. -/
theorem last?_of_isTerminator {blk : Block} (hblk : blk ∈ f.blocks) {i : Instruction}
    (hi : i ∈ blk.body) (hterm : i.kind.isTerminator = true) : blk.last? = some i := by
  obtain ⟨last, hlast, -⟩ := hf.last_of_mem hblk
  obtain ⟨front, hbody⟩ := List.getLast?_eq_some_iff.1 hlast
  rw [hbody] at hi
  rcases List.mem_append.1 hi with hfront | hi
  · have hfalse := hf.front_of_mem hblk (i := i) (by rwa [hbody, List.dropLast_concat])
    rw [hterm] at hfalse
    cases hfalse
  · rwa [List.mem_singleton.1 hi]

/-- Control leaves a block for no other one iff the block returns. -/
theorem successors_eq_nil_iff {blk : Block} (hblk : blk ∈ f.blocks) {i : Instruction}
    (hlast : blk.last? = some i) : blk.successors = [] ↔ ∃ v, i.kind = .ret v := by
  obtain ⟨last, hlast', hterm⟩ := hf.last_of_mem hblk
  cases hlast.symm.trans hlast'
  rw [Block.successors_of_last? hlast]
  cases hkind : i.kind <;> simp_all [Instruction.targets, Kind.targets, Kind.isTerminator]

theorem instruction?_of_mem {i : Instruction} (h : i ∈ f.instructions) :
    f.instruction? i.id = some i := by
  obtain ⟨j, hj⟩ : ∃ j, f.instruction? i.id = some j :=
    Option.isSome_iff_exists.1 (List.find?_isSome.2 ⟨i, h, beq_self_eq_true _⟩)
  obtain ⟨hmem, hid⟩ := mem_of_instruction? hj
  rw [hj, hf.eq_of_id_eq hmem h hid]

/-- The instructions of a block are found under their numbers. -/
theorem bodyOf_eq {b : BlockId} {blk : Block} (h : f.block? b = some blk) :
    f.bodyOf b = .ok blk.body := by
  have hb := mem_blocks_of_block? h
  have hmapM : blk.body.mapM (fun i => f.instruction i.id) = .ok blk.body := by
    refine Outcome.mapM_eq_ok_iff.2 (List.forall₂_same.2 fun i hi => ?_)
    rw [instruction, hf.instruction?_of_mem (mem_instructions_iff.2 ⟨blk, hb, hi⟩)]
  rw [bodyOf, block, h]
  exact hmapM

theorem body_ids_nodup {blk : Block} (h : blk ∈ f.blocks) : (blk.body.map (·.id)).Nodup := by
  have hsub : List.Sublist blk.body f.instructions := by
    rw [instructions, List.flatMap_def]
    exact List.sublist_flatten_of_mem (List.mem_map_of_mem h)
  exact hf.ids_nodup.sublist (hsub.map _)

theorem eq_of_mem_body {b c : Block} (hb : b ∈ f.blocks) (hc : c ∈ f.blocks) {i j : Instruction}
    (hi : i ∈ b.body) (hj : j ∈ c.body) (h : i.id = j.id) : b = c := by
  cases hf.eq_of_id_eq (mem_instructions_iff.2 ⟨b, hb, hi⟩) (mem_instructions_iff.2 ⟨c, hc, hj⟩) h
  have hid : b.id = c.id := (hf.block_of_mem hb hi).symm.trans (hf.block_of_mem hc hj)
  have hbc := hf.block?_of_mem hb
  rw [hid, hf.block?_of_mem hc] at hbc
  exact (Option.some.inj hbc).symm

end WellFormed

end Function

end FactFlow
