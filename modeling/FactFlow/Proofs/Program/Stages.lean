import FactFlow.Proofs.Outcome
import FactFlow.Proofs.Program.WellFormed

/-!
# Inspection in stages

`Draft.toFunction` lists everything that is wrong with a draft and answers with the first entry of
the list.  `Draft.inspect` finds the same answer without a list.  It enters the number of each
instruction in a row for its block, keeps the instructions in a table, and goes through rows and
table in stages, each of which stops at the first problem that it meets.  Later stages look up by
number what earlier ones have entered, and a lookup that misses is a fault.

None does (`Draft.inspect_eq`).  The numbers in the rows come from the placement of the
instructions, so the table has them; edges are entered after all targets have been found to exist;
and the alternatives of a phi are looked up in the row of the block that the phi was placed in.
-/

namespace FactFlow

namespace Draft

open Outcome

/-! ### The stages -/

/-- Stop at a problem. -/
def refuse {α : Type} (why : Malformed) : Except Failure α := .error (.refused (.malformed why))

/-- Stop at a problem, unless all is well. -/
def demand (well : Bool) (why : Malformed) : Except Failure Unit :=
  if well then .ok () else refuse why

/-- Entry `k` of a table, which has to be there. -/
def lookup {α : Type} (table : List α) (k : Nat) : Except Failure α :=
  match table[k]? with
  | some x => .ok x
  | none => .error (.fault (.entry table.length k))

/-- Put `x` at the end of row `k`, which has to be there. -/
def enter {α : Type} (rows : List (List α)) (k : Nat) (x : α) : Except Failure (List (List α)) :=
  if k < rows.length then .ok (rows.modify k (· ++ [x]))
  else .error (.fault (.entry rows.length k))

/-- The numbers of the instructions of each block, and the instructions by number. -/
structure Sheet where
  /-- The numbers, block by block. -/
  rows : List (List InstId)
  /-- The instructions. -/
  table : List Instruction

/-- Inspect the destination of an instruction. -/
def inspectDest (d : Draft) (e : Entry) (k : InstId) : Except Failure Unit :=
  match e.dest with
  | none => .ok ()
  | some v => do
    demand (d.isSlot v) (.badDestination k v)
    demand (!e.kind.isTerminator) (.terminatorResult k)

/-- Enter an instruction, if its place and its destination are in order. -/
def place (d : Draft) (s : Sheet) : Entry × InstId → Except Failure Sheet
  | (e, k) => do
    demand (e.block < s.rows.length) (.unknownBlock k e.block)
    let rows ← enter s.rows e.block k
    d.inspectDest e k
    return ⟨rows, s.table ++ [instruction k e]⟩

/-- Inspect the order of the instructions in a row. -/
def inspectOrder (table : List Instruction) (b : BlockId) :
    Bool → List InstId → Except Failure Unit
  | _, [] => .ok ()
  | afterPhis, k :: rest => do
    let i ← lookup table k
    demand (!(i.kind.isTerminator && !rest.isEmpty)) (.earlyTerminator k b)
    demand (!(i.kind.isPhi && afterPhis)) (.latePhi k b)
    inspectOrder table b (afterPhis || !i.kind.isPhi) rest

/-- Inspect the shape of a block. -/
def inspectRow (table : List Instruction) (b : BlockId) (row : List InstId) :
    Except Failure Unit :=
  match row.getLast? with
  | none => refuse (.emptyBlock b)
  | some k => do
    let last ← lookup table k
    demand last.kind.isTerminator (.openBlock b)
    inspectOrder table b false row

/-- Inspect the targets and operands of an instruction. -/
def inspectReferences (d : Draft) (i : Instruction) : Except Failure Unit := do
  i.targets.forM fun t => demand (t < d.blockCount) (.unknownTarget i.id t)
  i.operands.forM fun v => demand (d.isDefined v) (.undefinedOperand i.id v)

/-- Where control goes from the end of a row. -/
def rowTargets (table : List Instruction) (row : List InstId) : Except Failure (List BlockId) :=
  match row.getLast? with
  | none => .ok []
  | some k => (lookup table k).map (·.targets)

/-- Enter each edge in the row of its target, given the targets of each block. -/
def sourceRows (successors : List (List BlockId)) : Except Failure (List (List BlockId)) :=
  (successors.zipIdx.flatMap fun (ts, a) => ts.map fun t => (a, t)).foldlM
    (fun rows (a, t) => enter rows t a) (List.replicate successors.length [])

/-- Inspect the alternatives of a phi, given the sources of each block. -/
def inspectSources (sources : List (List BlockId)) (i : Instruction) : Except Failure Unit :=
  i.kind.incoming.forM fun a => do
    let row ← lookup sources i.block
    demand (row.contains a.source) (.strayAlternative i.id a.source i.block)

/-- The function, or the problem at which a stage stopped. -/
def inspect (d : Draft) : Except Failure Function := do
  demand (!(d.blockCount == 0)) (.noBlocks d.name)
  let s ← d.entries.zipIdx.foldlM d.place ⟨List.replicate d.blockCount [], []⟩
  s.rows.zipIdx.forM fun (row, b) => inspectRow s.table b row
  s.table.forM d.inspectReferences
  let successors ← s.rows.mapM (rowTargets s.table)
  let sources ← sourceRows successors
  let bodies ← s.rows.mapM fun row => row.mapM (lookup s.table)
  bodies.flatten.forM (inspectSources sources)
  return ⟨d.name, d.params, d.slots.toNat, bodies.zipIdx.map fun (body, b) => ⟨b, body⟩⟩

/-! ### Stopping at the first problem -/

/-- The answer `x`, unless there are problems: then the first one. -/
def passing {α : Type} (problems : List Malformed) (x : Except Failure α) : Except Failure α :=
  match problems with
  | [] => x
  | why :: _ => refuse why

section

variable {α β : Type} {ps qs : List Malformed} {x y : Except Failure α}

theorem passing_append : passing (ps ++ qs) x = passing ps (passing qs x) := by
  cases ps <;> rfl

theorem passing_bind (k : α → Except Failure β) : passing ps x >>= k = passing ps (x >>= k) := by
  cases ps <;> rfl

theorem passing_congr (h : ps = [] → x = y) : passing ps x = passing ps y := by
  cases ps with
  | nil => exact h rfl
  | cons why rest => rfl

theorem demand_eq (well : Bool) (why : Malformed) :
    demand well why = passing (if well then [] else [why]) (.ok ()) := by
  cases well <;> rfl

theorem demand_not (ill : Bool) (why : Malformed) :
    demand (!ill) why = passing (if ill then [why] else []) (.ok ()) := by
  cases ill <;> rfl

/-- A loop that stops at the first problem of each entry stops at the first problem of all. -/
theorem forM_passing {check : α → Except Failure Unit} {problems : α → List Malformed} {l : List α}
    (h : ∀ a ∈ l, check a = passing (problems a) (.ok ())) :
    l.forM check = passing (l.flatMap problems) (.ok ()) := by
  induction l with
  | nil => rfl
  | cons a rest ih =>
    obtain ⟨ha, hrest⟩ := List.forall_mem_cons.1 h
    change (check a >>= fun _ => rest.forM check) = _
    rw [ha, passing_bind, ih hrest, List.flatMap_cons, passing_append]
    rfl

theorem forM_demand (well : α → Bool) (why : α → Malformed) (l : List α) :
    l.forM (fun a => demand (well a) (why a)) =
      passing ((l.filter fun a => !well a).map why) (.ok ()) := by
  rw [forM_passing fun a _ => demand_eq (well a) (why a)]
  congr 1
  induction l with
  | nil => rfl
  | cons a rest ih => cases ha : well a <;> simp [ha, ih]

theorem toFunction_mapError (d : Draft) :
    d.toFunction.mapError .refused = passing d.problems (.ok d.assemble) := by
  unfold toFunction
  cases d.problems <;> rfl

end

/-! ### Rows -/

section

variable {α β : Type}

/-- What rows hold after entries have been made one after another. -/
theorem getElem?_foldl_modify (key : β → Nat) (val : β → α) (l : List β) (rows : List (List α))
    (b : Nat) :
    (l.foldl (fun rows x => rows.modify (key x) (· ++ [val x])) rows)[b]? =
      rows[b]?.map (· ++ (l.filter (key · == b)).map val) := by
  induction l generalizing rows with
  | nil => simp
  | cons x rest ih =>
    rw [List.foldl_cons, ih, List.getElem?_modify]
    by_cases hx : key x = b
    · simp [hx, Function.comp_def]
    · simp [hx]

/-- Entries made in empty rows are sorted by row. -/
theorem foldl_modify_replicate (key : β → Nat) (val : β → α) (l : List β) (n : Nat) :
    l.foldl (fun rows x => rows.modify (key x) (· ++ [val x])) (List.replicate n []) =
      (List.range n).map fun b => (l.filter (key · == b)).map val := by
  apply List.ext_getElem?
  intro b
  rw [getElem?_foldl_modify, List.getElem?_replicate, List.getElem?_map]
  by_cases hb : b < n <;> simp [hb]

/-- Entries in rows that are there can all be made. -/
theorem foldlM_enter (key : β → Nat) (val : β → α) {l : List β} {rows : List (List α)}
    (h : ∀ x ∈ l, key x < rows.length) :
    l.foldlM (fun rows x => enter rows (key x) (val x)) rows =
      .ok (l.foldl (fun rows x => rows.modify (key x) (· ++ [val x])) rows) := by
  induction l generalizing rows with
  | nil => rfl
  | cons x rest ih =>
    obtain ⟨hx, hrest⟩ := List.forall_mem_cons.1 h
    rw [List.foldlM_cons, enter, if_pos hx, ok_bind, ih, List.foldl_cons]
    simpa using hrest

theorem zipIdx_map_range (g : Nat → α) (n : Nat) :
    ((List.range n).map g).zipIdx = (List.range n).map fun b => (g b, b) := by
  apply List.ext_getElem
  · simp
  · intro k hk hk'
    simp

end

/-! ### What each stage finds -/

variable {d : Draft}

/-- The instructions placed in block `b`. -/
def body (d : Draft) (b : BlockId) : List Instruction := d.instructions.filter (·.block == b)

/-- The sheet of a draft: the numbers of the instructions of each block, and all instructions. -/
def sheet (d : Draft) : Sheet where
  rows := (List.range d.blockCount).map fun b => (d.body b).map (·.id)
  table := d.instructions

theorem blocks_eq (d : Draft) :
    d.blocks = (List.range d.blockCount).map fun b => ⟨b, d.body b⟩ := rfl

theorem body_eq (d : Draft) (b : BlockId) :
    d.body b = (d.entries.zipIdx.filter (·.1.block == b)).map fun (e, k) => instruction k e := by
  rw [body, instructions, List.filter_map]
  rfl

theorem getElem?_instructions (d : Draft) (k : InstId) :
    d.instructions[k]? = d.entries[k]?.map (instruction k) := by
  simp [instructions, Function.comp_def]

theorem lookup_instructions {i : Instruction} (h : i ∈ d.instructions) :
    lookup d.instructions i.id = .ok i := by
  obtain ⟨e, he, hi⟩ := mem_instructions_iff.1 h
  rw [lookup, getElem?_instructions, he, Option.map_some, hi]

theorem mem_instructions_of_mem_body {b : BlockId} {i : Instruction} (h : i ∈ d.body b) :
    i ∈ d.instructions :=
  (List.mem_filter.1 h).1

theorem place_eq {s : Sheet} (hs : s.rows.length = d.blockCount) (e : Entry) (k : InstId) :
    d.place s (e, k) = passing (d.placementProblems e k)
      (.ok ⟨s.rows.modify e.block (· ++ [k]), s.table ++ [instruction k e]⟩) := by
  rw [place, placementProblems, passing_append, demand_eq, passing_bind, ok_bind, hs]
  simp only [decide_eq_true_eq]
  refine passing_congr fun hblock => ?_
  -- the row of a block that exists is there
  have hlt : e.block < s.rows.length := by
    by_contra hge
    rw [hs] at hge
    simp [hge] at hblock
  rw [enter, if_pos hlt, ok_bind, inspectDest]
  cases e.dest with
  | none => rfl
  | some v =>
    dsimp only
    cases d.isSlot v <;> cases e.kind.isTerminator <;> rfl

theorem foldlM_place {s : Sheet} (hs : s.rows.length = d.blockCount) (l : List (Entry × InstId)) :
    l.foldlM d.place s = passing (l.flatMap fun (e, k) => d.placementProblems e k)
      (.ok ⟨l.foldl (fun rows x => rows.modify x.1.block (· ++ [x.2])) s.rows,
        s.table ++ l.map fun (e, k) => instruction k e⟩) := by
  induction l generalizing s with
  | nil => simp; rfl
  | cons x rest ih =>
    obtain ⟨e, k⟩ := x
    rw [List.foldlM_cons, place_eq hs, passing_bind, ok_bind, ih (by simpa using hs),
      List.flatMap_cons, passing_append]
    simp

/-- **Placement** leaves the sheet behind. -/
theorem place_entries (d : Draft) :
    d.entries.zipIdx.foldlM d.place ⟨List.replicate d.blockCount [], []⟩ =
      passing (d.entries.zipIdx.flatMap fun (e, k) => d.placementProblems e k) (.ok d.sheet) := by
  rw [foldlM_place (by simp), foldl_modify_replicate (fun x : Entry × InstId => x.1.block) (·.2),
    sheet]
  simp only [body_eq, List.map_map]
  rfl

theorem inspectOrder_eq {l : List Instruction} (hl : ∀ i ∈ l, i ∈ d.instructions) (b : BlockId)
    (afterPhis : Bool) :
    inspectOrder d.instructions b afterPhis (l.map (·.id)) =
      passing (orderProblems b afterPhis l) (.ok ()) := by
  induction l generalizing afterPhis with
  | nil => rfl
  | cons i rest ih =>
    obtain ⟨hi, hrest⟩ := List.forall_mem_cons.1 hl
    rw [List.map_cons, inspectOrder, lookup_instructions hi, ok_bind, ih hrest, orderProblems,
      passing_append, passing_append, demand_not, demand_not, passing_bind, ok_bind, passing_bind,
      ok_bind, List.isEmpty_map]

theorem inspectRow_eq (d : Draft) (b : BlockId) :
    inspectRow d.instructions b ((d.body b).map (·.id)) =
      passing (shapeProblems ⟨b, d.body b⟩) (.ok ()) := by
  have hl : ∀ i ∈ d.body b, i ∈ d.instructions := fun i hi => mem_instructions_of_mem_body hi
  rw [inspectRow, List.getLast?_map, shapeProblems, Block.last?]
  cases hlast : (d.body b).getLast? with
  | none => rfl
  | some i =>
    have hi := hl i (List.mem_of_getLast? hlast)
    simp only [Option.map_some, lookup_instructions hi, ok_bind, demand_eq, passing_bind,
      inspectOrder_eq hl]
    cases i.kind.isTerminator <;> rfl

/-- **Shapes**: each row is looked up in the table it was numbered by. -/
theorem inspectRow_rows (d : Draft) :
    d.sheet.rows.zipIdx.forM (fun (row, b) => inspectRow d.sheet.table b row) =
      passing (d.blocks.flatMap shapeProblems) (.ok ()) := by
  have hrow : ∀ x ∈ d.sheet.rows.zipIdx, inspectRow d.sheet.table x.2 x.1 =
      passing (shapeProblems ⟨x.2, d.body x.2⟩) (.ok ()) := by
    intro x hx
    rw [sheet, zipIdx_map_range] at hx
    obtain ⟨b, -, rfl⟩ := List.mem_map.1 hx
    exact inspectRow_eq d b
  rw [forM_passing hrow, blocks_eq, sheet, zipIdx_map_range, List.flatMap_map, List.flatMap_map]

/-- **References** of one instruction. -/
theorem inspectReferences_eq (d : Draft) (i : Instruction) :
    d.inspectReferences i = passing (d.referenceProblems i) (.ok ()) := by
  rw [inspectReferences, forM_demand, forM_demand, passing_bind, ok_bind, referenceProblems,
    passing_append]
  simp only [← Nat.not_lt, decide_not]

/-- **Successors** are read off the last instruction of each row. -/
theorem rowTargets_rows (d : Draft) :
    d.sheet.rows.mapM (rowTargets d.sheet.table) = .ok (d.blocks.map (·.successors)) := by
  rw [mapM_eq_ok_iff, sheet, blocks_eq, List.map_map, List.forall₂_map_left_iff,
    List.forall₂_map_right_iff, List.forall₂_same]
  intro b _
  rw [rowTargets, List.getLast?_map, Function.comp_apply, Block.successors, Block.last?]
  cases hlast : (d.body b).getLast? with
  | none => rfl
  | some i =>
    have hi := mem_instructions_of_mem_body (List.mem_of_getLast? hlast)
    simp only [Option.map_some, lookup_instructions hi, Except.map]

/-- **Edges** can be entered once all targets are known to exist. -/
theorem sourceRows_successors
    (htargets : ∀ i ∈ d.instructions, ∀ t ∈ i.targets, t < d.blockCount) :
    sourceRows (d.blocks.map (·.successors)) =
      .ok ((List.range d.blockCount).map d.assemble.sources) := by
  have hedges : (d.blocks.map (·.successors)).zipIdx =
      (List.range d.blockCount).map fun b => (Block.successors ⟨b, d.body b⟩, b) := by
    rw [blocks_eq, List.map_map]
    exact zipIdx_map_range _ _
  have hcount : d.blocks.length = d.blockCount := by simp [blocks]
  rw [sourceRows, hedges, List.flatMap_map, List.length_map, hcount,
    foldlM_enter (fun x : BlockId × BlockId => x.2) (·.1)]
  · rw [foldl_modify_replicate (fun x : BlockId × BlockId => x.2) (·.1)]
    simp [Function.sources, assemble, blocks_eq, List.filter_flatMap, List.map_flatMap,
      List.flatMap_map, List.filter_map, Function.comp_def]
  · intro x hx
    obtain ⟨a, -, hx⟩ := List.mem_flatMap.1 hx
    obtain ⟨t, ht, rfl⟩ := List.mem_map.1 hx
    obtain ⟨i, hlast, ht⟩ := Block.mem_successors_iff.1 ht
    rw [List.length_replicate]
    exact htargets i (mem_instructions_of_mem_body (List.mem_of_getLast? hlast)) t ht

/-- **Bodies** are the rows with every number looked up. -/
theorem lookup_rows (d : Draft) :
    d.sheet.rows.mapM (fun row => row.mapM (lookup d.sheet.table)) =
      .ok (d.blocks.map (·.body)) := by
  rw [mapM_eq_ok_iff, sheet, blocks_eq, List.map_map, List.forall₂_map_left_iff,
    List.forall₂_map_right_iff, List.forall₂_same]
  intro b _
  rw [mapM_eq_ok_iff, List.forall₂_map_left_iff]
  exact List.forall₂_same.2 fun i hi => lookup_instructions (mem_instructions_of_mem_body hi)

theorem inspectSources_eq {f : Function} {n : Nat} {i : Instruction} (hi : i.block < n) :
    inspectSources ((List.range n).map f.sources) i = passing (sourceProblems f i) (.ok ()) := by
  have hrow : lookup ((List.range n).map f.sources) i.block = .ok (f.sources i.block) := by
    simp [lookup, hi]
  simp only [inspectSources, hrow, ok_bind]
  rw [forM_demand, sourceProblems]

/-- Alternatives are looked up in the row of the block that the phi stands in. -/
theorem inspectSources_bodies (d : Draft) :
    (d.blocks.map (·.body)).flatten.forM
        (inspectSources ((List.range d.blockCount).map d.assemble.sources)) =
      passing (d.assemble.instructions.flatMap (sourceProblems d.assemble)) (.ok ()) := by
  rw [← List.flatMap_def]
  refine forM_passing fun i hi => inspectSources_eq ?_
  obtain ⟨blk, hblk, hi⟩ := List.mem_flatMap.1 hi
  obtain ⟨hlt, hbody⟩ := mem_blocks_iff.1 hblk
  rw [hbody] at hi
  rwa [beq_iff_eq.1 (List.mem_filter.1 hi).2]

theorem blocks_of_bodies (d : Draft) :
    (d.blocks.map (·.body)).zipIdx.map (fun (body, b) => (⟨b, body⟩ : Block)) = d.blocks := by
  rw [blocks_eq, List.map_map]
  simp only [Function.comp_def, zipIdx_map_range, List.map_map]

/-- **No lookup misses**: the stages find the function, or the first problem with the draft. -/
theorem inspect_eq (d : Draft) : d.inspect = d.toFunction.mapError .refused := by
  rw [toFunction_mapError, problems, passing_append, passing_append, passing_append, passing_append,
    inspect, demand_not, passing_bind, ok_bind]
  simp only [beq_iff_eq]
  rw [place_entries, passing_bind, ok_bind, inspectRow_rows, passing_bind, ok_bind,
    forM_passing fun i _ => inspectReferences_eq d i, passing_bind, ok_bind]
  -- without problems so far, all targets exist
  refine passing_congr fun _ => passing_congr fun _ => passing_congr fun _ =>
    passing_congr fun hreferences => ?_
  have htargets : ∀ i ∈ d.instructions, ∀ t ∈ i.targets, t < d.blockCount := fun i hi =>
    (referenceProblems_eq_nil_iff.1 (List.flatMap_eq_nil_iff.1 hreferences i hi)).1
  rw [rowTargets_rows, ok_bind, sourceRows_successors htargets, ok_bind, lookup_rows, ok_bind,
    inspectSources_bodies, passing_bind, ok_bind, blocks_of_bodies]
  rfl

end Draft

end FactFlow
