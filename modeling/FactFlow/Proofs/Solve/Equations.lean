import FactFlow.Proofs.FactSet.Order
import FactFlow.Proofs.Program.WellFormed
import FactFlow.Solve

/-!
# The equations of an analysis

A table of facts solves an analysis on a function (`Analysis.Solves`) when two kinds of equations
hold.  The state where facts enter a block is the boundary value if the block has no neighbors, and
else the meet of what its neighbors send (`Analysis.Enters`).  From there on, the fact of each
instruction is what the transfer makes of the state in front of it (`Analysis.Along`).

Solving works on tables that do not satisfy these equations yet, so `Along` compares the computed
state with the stored fact by an arbitrary relation: equality for a solution, the order of the meet
for a table that is still coming down.

* `Analysis.blockInput_eq_ok_iff` : the state that the solver computes at the entrance of a block
  is the one that the equations speak about.
* `Analysis.KeepsWidth` and `Analysis.IsMonotone` say what a well-behaved analysis is;
  `Analysis.IsMonotoneIn` adds which of the two orders its tables come down in.
-/

namespace FactFlow

namespace Facts

/-- One set of `width` positions for each of `count` instructions. -/
structure Fits (facts : Facts) (count width : Nat) : Prop where
  /-- There are as many facts as instructions. -/
  size_eq : facts.size = count
  /-- All facts have one width. -/
  width_eq : ∀ {k : InstId} {s : FactSet}, facts[k]? = some s → s.width = width

/-- The facts of each instruction are related by `r`. -/
def Pointwise (r : FactSet → FactSet → Prop) (facts facts' : Facts) : Prop :=
  ∀ (k : InstId) (s s' : FactSet), facts[k]? = some s → facts'[k]? = some s' → r s s'

theorem Pointwise.refl {r : FactSet → FactSet → Prop} (hr : ∀ u, r u u) (facts : Facts) :
    Pointwise r facts facts := by
  intro k u u' hu hu'
  cases hu.symm.trans hu'
  exact hr u

theorem Fits.exists_getElem? {facts : Facts} {count width k : Nat} (h : Fits facts count width)
    (hk : k < count) : ∃ s, facts[k]? = some s ∧ s.width = width := by
  have hlt : k < facts.size := h.size_eq ▸ hk
  exact ⟨facts[k], Array.getElem?_eq_getElem hlt, h.width_eq (Array.getElem?_eq_getElem hlt)⟩

/-- A table of the same size and with the same widths fits where the other does. -/
theorem Fits.of_widths {facts facts' : Facts} {count width : Nat} (h : Fits facts count width)
    (hsize : facts'.size = facts.size)
    (hwidth : Pointwise (fun s s' => s'.width = s.width) facts facts') :
    Fits facts' count width := by
  refine ⟨hsize.trans h.size_eq, fun {k s'} hs' => ?_⟩
  have hlt : k < facts.size := hsize ▸ (Array.getElem?_eq_some_iff.1 hs').1
  obtain ⟨s, hs, hw⟩ := h.exists_getElem? (h.size_eq ▸ hlt)
  exact (hwidth k s s' hs hs').trans hw

theorem Fits.setIfInBounds {facts : Facts} {count width : Nat} (h : Fits facts count width)
    {k : InstId} {t : FactSet} (ht : t.width = width) :
    Fits (facts.setIfInBounds k t) count width := by
  refine h.of_widths Array.size_setIfInBounds fun j s s' hs hs' => ?_
  rw [Array.getElem?_setIfInBounds] at hs'
  split at hs'
  · split at hs'
    · cases hs'
      exact ht.trans (h.width_eq hs).symm
    · cases hs'
  · cases hs.symm.trans hs'
    rfl

end Facts

/-- One set of `width` positions for each instruction of `f`, and one state for each block. -/
structure Tables.Fits (t : Tables) (f : Function) (width : Nat) : Prop where
  /-- There is one fact for each instruction. -/
  facts : t.facts.Fits f.instCount width
  /-- There is a place for the state of each block. -/
  boundaries : t.boundaries.size = f.blockCount

theorem Tables.Fits.lt_boundaries {t : Tables} {f : Function} {width : Nat} (h : t.Fits f width)
    (hf : f.WellFormed) {b : Block} (hb : b ∈ f.blocks) : b.id < t.boundaries.size :=
  h.boundaries ▸ (List.getElem?_eq_some_iff.1 (hf.block?_of_mem hb)).1

namespace Direction

theorem mem_through_iff {dir : Direction} {b : Block} {i : Instruction} :
    i ∈ dir.through b ↔ i ∈ b.body := by
  cases dir <;> simp [through, arrange]

theorem mem_instructions_of_mem_through {dir : Direction} {f : Function} {b : Block}
    (hb : b ∈ f.blocks) {i : Instruction} (hi : i ∈ dir.through b) : i ∈ f.instructions :=
  Function.mem_instructions_iff.2 ⟨b, hb, mem_through_iff.1 hi⟩

theorem mem_schedule_iff {dir : Direction} {f : Function} {b : Block} :
    b ∈ dir.schedule f ↔ b ∈ f.blocks := by
  cases dir <;> simp [schedule, arrange]

theorem mem_of_exit? {dir : Direction} {b : Block} {i : Instruction} (h : dir.exit? b = some i) :
    i ∈ b.body :=
  mem_through_iff.1 (List.mem_of_getLast? h)

theorem mem_of_entrance? {dir : Direction} {b : Block} {i : Instruction}
    (h : dir.entrance? b = some i) : i ∈ b.body :=
  mem_through_iff.1 (List.mem_of_mem_head? h)

theorem through_ids_nodup {f : Function} (hf : f.WellFormed) (dir : Direction) {b : Block}
    (hb : b ∈ f.blocks) : ((dir.through b).map (·.id)).Nodup := by
  have hbody := hf.body_ids_nodup hb
  cases dir with
  | forward => exact hbody
  | backward =>
    rw [through, arrange, List.map_reverse]
    exact List.nodup_reverse.2 hbody

/-- Facts leave every neighbor through one of its instructions. -/
theorem exists_exit? {f : Function} (hf : f.WellFormed) {dir : Direction} {b : Block}
    (hb : b ∈ f.blocks) {n : BlockId} (hn : n ∈ dir.neighbors f b) :
    ∃ blk i, f.block? n = some blk ∧ dir.exit? blk = some i ∧ i ∈ f.instructions := by
  obtain ⟨blk, hblk⟩ : ∃ blk, f.block? n = some blk := by
    cases dir with
    | forward =>
      obtain ⟨blk, hblk, rfl, -⟩ := Function.mem_sources_iff.1 hn
      exact ⟨blk, hf.block?_of_mem hblk⟩
    | backward => exact hf.exists_block?_of_mem_successors hb hn
  have hmem := Function.mem_blocks_of_block? hblk
  obtain ⟨last, hlast, -⟩ := hf.last_of_mem hmem
  have hne : dir.through blk ≠ [] := by
    intro hnil
    have hthrough : last ∈ dir.through blk := mem_through_iff.2 (List.mem_of_getLast? hlast)
    rw [hnil] at hthrough
    cases hthrough
  have hexit : dir.exit? blk = some ((dir.through blk).getLast hne) :=
    List.getLast?_eq_some_getLast hne
  exact ⟨blk, _, hblk, hexit, Function.mem_instructions_iff.2 ⟨blk, hmem, mem_of_exit? hexit⟩⟩

end Direction

namespace Analysis

variable {α : Type} (A : Analysis α) (f : Function) (d : Domain α)

/-- Block `b` receives `v` from its neighbor `n`: the fact through which facts leave `n`, adjusted
along the edge. -/
def Sends (facts : Facts) (b : Block) (n : BlockId) (v : FactSet) : Prop :=
  ∃ blk i u, f.block? n = some blk ∧ A.direction.exit? blk = some i ∧ facts[i.id]? = some u ∧
    A.alongEdge f b.id n facts d u = .ok v

/-- Facts enter block `b` in state `s`: the boundary value if the block has no neighbors, and else
the meet of what its neighbors send. -/
def Enters (facts : Facts) (b : Block) (s : FactSet) : Prop :=
  if A.direction.neighbors f b = [] then s = A.boundary d
  else ∃ values, List.Forall₂ (A.Sends f d facts b) (A.direction.neighbors f b) values ∧
    A.meet.meetList d.size values = .ok s

/-- The transfer takes `s` through instructions one after another, and what it computes for each is
related by `r` to the fact stored for it. -/
def Along (r : FactSet → FactSet → Prop) (facts : Facts) : FactSet → List Instruction → Prop
  | _, [] => True
  | s, i :: rest => ∃ t u, A.transfer f i d s = .ok t ∧ facts[i.id]? = some u ∧ r t u ∧
      Along r facts t rest

/-- Every block relates what the transfer computes from its entrance on to the stored facts. -/
def Balanced (r : FactSet → FactSet → Prop) (facts : Facts) : Prop :=
  ∀ b ∈ f.blocks, ∃ s, A.Enters f d facts b s ∧ A.Along f d r facts s (A.direction.through b)

/-- The facts solve the equations of the analysis: each is what the transfer computes. -/
def Solves (facts : Facts) : Prop := A.Balanced f d (· = ·) facts

/-- Boundary, transfer and edges answer with sets as wide as the domain. -/
structure KeepsWidth : Prop where
  /-- The boundary is as wide as the domain. -/
  boundary_width : (A.boundary d).width = d.size
  /-- The transfer keeps the width. -/
  transfer_total : ∀ {i s}, i ∈ f.instructions → s.width = d.size →
    ∃ t, A.transfer f i d s = .ok t ∧ t.width = d.size
  /-- So do the edges. -/
  edge_total : ∀ {b n facts s}, b ∈ f.blocks → n ∈ A.direction.neighbors f b →
    Facts.Fits facts f.instCount d.size → s.width = d.size →
    ∃ t, A.alongEdge f b.id n facts d s = .ok t ∧ t.width = d.size

/-- Moreover larger sets, and larger tables, give larger answers. -/
structure IsMonotone : Prop extends A.KeepsWidth f d where
  /-- The transfer is monotone. -/
  transfer_mono : ∀ {i s t s' t'}, i ∈ f.instructions → s.width = d.size → s ≤ t →
    A.transfer f i d s = .ok s' → A.transfer f i d t = .ok t' → s' ≤ t'
  /-- So are the edges, in the value and in the table. -/
  edge_mono : ∀ {b n facts facts' s t s' t'}, b ∈ f.blocks → n ∈ A.direction.neighbors f b →
    Facts.Fits facts f.instCount d.size → Facts.Fits facts' f.instCount d.size →
    Facts.Pointwise (· ≤ ·) facts facts' → s.width = d.size → s ≤ t →
    A.alongEdge f b.id n facts d s = .ok s' → A.alongEdge f b.id n facts' d t = .ok t' → s' ≤ t'

/-- Moreover its meet is that of a mode, in whose order tables then come down. -/
structure IsMonotoneIn (m : Mode) : Prop extends A.IsMonotone f d where
  /-- The meet is that of the mode. -/
  meet_eq : A.meet = m.operator

variable {A f d}

/-! ### What the solver computes at the entrance of a block -/

theorem received_eq_ok_iff (hf : f.WellFormed) {facts : Facts} (hsize : facts.size = f.instCount)
    {b : Block} (hb : b ∈ f.blocks) {n : BlockId} (hn : n ∈ A.direction.neighbors f b)
    {o : Option FactSet} :
    A.received f d facts b n = .ok o ↔ ∃ v, A.Sends f d facts b n v ∧ o = some v := by
  obtain ⟨blk, i, hblk, hi, hmem⟩ := Direction.exists_exit? hf hb hn
  have hlt : i.id < facts.size := hsize ▸ hf.id_lt hmem
  have hu : facts[i.id]? = some facts[i.id] := Array.getElem?_eq_getElem hlt
  have hreceived : A.received f d facts b n =
      (A.alongEdge f b.id n facts d facts[i.id]).map some := by
    simp [received, hblk, hi, hu]
  rw [hreceived, Outcome.map_eq_ok_iff]
  constructor
  · rintro ⟨v, hv, rfl⟩
    exact ⟨v, ⟨blk, i, _, hblk, hi, hu, hv⟩, rfl⟩
  · rintro ⟨v, ⟨blk', i', u, hblk', hi', hu', hv⟩, rfl⟩
    cases hblk.symm.trans hblk'
    cases hi.symm.trans hi'
    cases hu.symm.trans hu'
    exact ⟨v, hv, rfl⟩

theorem mapM_received_eq_ok_iff (hf : f.WellFormed) {facts : Facts}
    (hsize : facts.size = f.instCount) {b : Block} (hb : b ∈ f.blocks) {ns : List BlockId}
    (hns : ∀ n ∈ ns, n ∈ A.direction.neighbors f b) {os : List (Option FactSet)} :
    ns.mapM (A.received f d facts b) = .ok os ↔
      ∃ values, List.Forall₂ (A.Sends f d facts b) ns values ∧ os = values.map some := by
  rw [Outcome.mapM_eq_ok_iff]
  induction ns generalizing os with
  | nil => simp [List.forall₂_nil_left_iff]
  | cons n ns ih =>
    have hns' := List.forall_mem_cons.1 hns
    simp only [List.forall₂_cons_left_iff, received_eq_ok_iff hf hsize hb hns'.1, ih hns'.2]
    constructor
    · rintro ⟨-, -, ⟨v, hv, rfl⟩, ⟨values, hvalues, rfl⟩, rfl⟩
      exact ⟨v :: values, ⟨v, values, hv, hvalues, rfl⟩, rfl⟩
    · rintro ⟨-, ⟨v, values, hv, hvalues, rfl⟩, rfl⟩
      exact ⟨some v, values.map some, ⟨v, hv, rfl⟩, ⟨values, hvalues, rfl⟩, rfl⟩

/-- **The state at the entrance of a block** is the one that the equations speak about. -/
theorem blockInput_eq_ok_iff (hf : f.WellFormed) {facts : Facts}
    (hsize : facts.size = f.instCount) {b : Block} (hb : b ∈ f.blocks) {s : FactSet} :
    A.blockInput f d (A.boundary d) facts b = .ok s ↔ A.Enters f d facts b s := by
  unfold blockInput Enters
  split
  · rename_i hnil
    rw [if_pos hnil, Except.ok.injEq]
    exact eq_comm
  · rename_i hne
    rw [if_neg hne, Outcome.bind_eq_ok_iff]
    constructor
    · rintro ⟨os, hos, hs⟩
      obtain ⟨values, hvalues, rfl⟩ :=
        (mapM_received_eq_ok_iff hf hsize hb fun _ hn => hn).1 hos
      exact ⟨values, hvalues, by simpa [List.filterMap_map] using hs⟩
    · rintro ⟨values, hvalues, hs⟩
      refine ⟨values.map some,
        (mapM_received_eq_ok_iff hf hsize hb fun _ hn => hn).2 ⟨values, hvalues, rfl⟩, ?_⟩
      simpa [List.filterMap_map] using hs

theorem Enters.unique (hf : f.WellFormed) {facts : Facts} (hsize : facts.size = f.instCount)
    {b : Block} (hb : b ∈ f.blocks) {s t : FactSet} (hs : A.Enters f d facts b s)
    (ht : A.Enters f d facts b t) : s = t := by
  have hs' := (blockInput_eq_ok_iff hf hsize hb).2 hs
  have ht' := (blockInput_eq_ok_iff hf hsize hb).2 ht
  exact Except.ok.inj (hs'.symm.trans ht')

theorem KeepsWidth.transfer_width (hA : A.KeepsWidth f d) {i : Instruction}
    (hi : i ∈ f.instructions) {s t : FactSet} (hw : s.width = d.size)
    (ht : A.transfer f i d s = .ok t) : t.width = d.size := by
  obtain ⟨t', ht', hw'⟩ := hA.transfer_total hi hw
  cases ht.symm.trans ht'
  exact hw'

theorem Sends.unique {facts : Facts} {b : Block} {n : BlockId} {v w : FactSet}
    (hv : A.Sends f d facts b n v) (hw : A.Sends f d facts b n w) : v = w := by
  obtain ⟨blk, i, u, hblk, hi, hu, hv⟩ := hv
  obtain ⟨blk', i', u', hblk', hi', hu', hw⟩ := hw
  cases hblk.symm.trans hblk'
  cases hi.symm.trans hi'
  cases hu.symm.trans hu'
  exact Except.ok.inj (hv.symm.trans hw)

theorem Enters.width_eq (hm : A.meet.ChecksWidth d.size)
    (hwidth : (A.boundary d).width = d.size) {facts : Facts} {b : Block} {s : FactSet}
    (h : A.Enters f d facts b s) : s.width = d.size := by
  unfold Enters at h
  split at h
  · rw [h, hwidth]
  · obtain ⟨values, -, hs⟩ := h
    exact hm.meetList_width hs

theorem exists_sends (hA : A.KeepsWidth f d) (hf : f.WellFormed) {facts : Facts}
    (hfits : facts.Fits f.instCount d.size) {b : Block} (hb : b ∈ f.blocks) {n : BlockId}
    (hn : n ∈ A.direction.neighbors f b) : ∃ v, A.Sends f d facts b n v := by
  obtain ⟨blk, i, hblk, hi, hmem⟩ := Direction.exists_exit? hf hb hn
  obtain ⟨u, hu, hwu⟩ := hfits.exists_getElem? (hf.id_lt hmem)
  obtain ⟨v, hv, -⟩ := hA.edge_total hb hn hfits hwu
  exact ⟨v, blk, i, u, hblk, hi, hu, hv⟩

theorem Sends.width_eq (hA : A.KeepsWidth f d) {facts : Facts}
    (hfits : facts.Fits f.instCount d.size) {b : Block} (hb : b ∈ f.blocks) {n : BlockId}
    (hn : n ∈ A.direction.neighbors f b) {v : FactSet} (h : A.Sends f d facts b n v) :
    v.width = d.size := by
  obtain ⟨blk, i, u, -, -, hu, hv⟩ := h
  obtain ⟨v', hv', hw⟩ := hA.edge_total hb hn hfits (hfits.width_eq hu)
  cases hv.symm.trans hv'
  exact hw

theorem exists_enters (hA : A.KeepsWidth f d) (hm : A.meet.KeepsWidth d.size)
    (hf : f.WellFormed) {facts : Facts} (hfits : facts.Fits f.instCount d.size) {b : Block}
    (hb : b ∈ f.blocks) : ∃ s, A.Enters f d facts b s ∧ s.width = d.size := by
  unfold Enters
  split
  · exact ⟨_, rfl, hA.boundary_width⟩
  · obtain ⟨values, hvalues⟩ :=
      Outcome.exists_forall₂ fun n hn => exists_sends hA hf hfits hb (n := n) hn
    have hwidth : ∀ v ∈ values, v.width = d.size := by
      intro v hv
      obtain ⟨n, hn, hsend⟩ := Outcome.exists_left_of_mem hvalues hv
      exact hsend.width_eq hA hfits hb hn
    obtain ⟨s, hs, hws⟩ := hm.meetList_total hwidth
    exact ⟨s, ⟨values, hvalues, hs⟩, hws⟩

theorem Enters.exists_isMeet {m : Mode} (hm : A.meet = m.operator) {facts : Facts} {b : Block}
    {s : FactSet} (h : A.Enters f d facts b s) (hne : A.direction.neighbors f b ≠ []) :
    ∃ values, List.Forall₂ (A.Sends f d facts b) (A.direction.neighbors f b) values ∧
      m.IsMeet d.size values s := by
  rw [Enters, if_neg hne] at h
  obtain ⟨values, hvalues, hs⟩ := h
  rw [hm] at hs
  exact ⟨values, hvalues, Mode.meetList_eq_ok_iff.1 hs⟩

/-- A position is in the meet of what the neighbors send iff all of them, or some, send it. -/
theorem Enters.test_iff {m : Mode} (hm : A.meet = m.operator) {facts : Facts} {b : Block}
    {s : FactSet} (h : A.Enters f d facts b s) (hne : A.direction.neighbors f b ≠ []) {p : Nat}
    (hp : p < d.size) :
    s.test p = true ↔ match m with
      | .must => ∀ n ∈ A.direction.neighbors f b, ∃ v, A.Sends f d facts b n v ∧
          v.test p = true
      | .may => ∃ n ∈ A.direction.neighbors f b, ∃ v, A.Sends f d facts b n v ∧
          v.test p = true := by
  obtain ⟨values, hvalues, hs⟩ := h.exists_isMeet hm hne
  have hiff := hs.test_iff p hp
  cases m with
  | must =>
    refine hiff.trans ⟨fun h n hn => ?_, fun h v hv => ?_⟩
    · obtain ⟨v, hv, hsend⟩ := Outcome.exists_right_of_mem hvalues hn
      exact ⟨v, hsend, h v hv⟩
    · obtain ⟨n, hn, hsend⟩ := Outcome.exists_left_of_mem hvalues hv
      obtain ⟨w, hw, htest⟩ := h n hn
      rwa [hsend.unique hw]
  | may =>
    refine hiff.trans ⟨fun ⟨v, hv, htest⟩ => ?_, fun ⟨n, hn, w, hw, htest⟩ => ?_⟩
    · obtain ⟨n, hn, hsend⟩ := Outcome.exists_left_of_mem hvalues hv
      exact ⟨n, hn, v, hsend, htest⟩
    · obtain ⟨v, hv, hsend⟩ := Outcome.exists_right_of_mem hvalues hn
      exact ⟨v, hv, by rwa [hsend.unique hw]⟩

/-! ### Chains -/

theorem Along.imp {r r' : FactSet → FactSet → Prop} (hr : ∀ t u, r t u → r' t u) {facts : Facts}
    {s : FactSet} {l : List Instruction} (h : A.Along f d r facts s l) :
    A.Along f d r' facts s l := by
  induction l generalizing s with
  | nil => trivial
  | cons i rest ih =>
    obtain ⟨t, u, ht, hu, htu, hrest⟩ := h
    exact ⟨t, u, ht, hu, hr t u htu, ih hrest⟩

/-- A chain looks at the facts of its own instructions only. -/
theorem Along.congr {r : FactSet → FactSet → Prop} {facts facts' : Facts} {s : FactSet}
    {l : List Instruction} (heq : ∀ i ∈ l, facts'[i.id]? = facts[i.id]?)
    (h : A.Along f d r facts s l) : A.Along f d r facts' s l := by
  induction l generalizing s with
  | nil => trivial
  | cons i rest ih =>
    obtain ⟨t, u, ht, hu, htu, hrest⟩ := h
    obtain ⟨hi, hl⟩ := List.forall_mem_cons.1 heq
    exact ⟨t, u, ht, hi.trans hu, htu, ih hl hrest⟩

/-- The equation of one instruction of a chain: the state in front of it is the fact of the
instruction before, or the state that the chain starts from. -/
theorem Along.exists_front {facts : Facts} {s : FactSet} {pre post : List Instruction}
    {j : Instruction} (h : A.Along f d (· = ·) facts s (pre ++ j :: post)) :
    ∃ s' u, A.transfer f j d s' = .ok u ∧ facts[j.id]? = some u ∧
      match pre.getLast? with
      | none => s' = s
      | some i => facts[i.id]? = some s' := by
  induction pre generalizing s with
  | nil =>
    obtain ⟨t, u, ht, hu, rfl, -⟩ := h
    exact ⟨s, t, ht, hu, rfl⟩
  | cons i pre ih =>
    obtain ⟨t, u, -, hu, rfl, hrest⟩ := h
    obtain ⟨s', v, hv, hfact, hfront⟩ := ih hrest
    refine ⟨s', v, hv, hfact, ?_⟩
    cases pre with
    | nil =>
      rw [List.getLast?_nil] at hfront
      rwa [List.getLast?_singleton, hfront]
    | cons k pre => rwa [List.getLast?_cons_cons]

theorem Solves.transfer_inside {facts : Facts} (h : A.Solves f d facts) {b : Block}
    (hb : b ∈ f.blocks) {pre post : List Instruction} {i j : Instruction}
    (hsplit : A.direction.through b = pre ++ i :: j :: post) :
    ∃ s u, facts[i.id]? = some s ∧ A.transfer f j d s = .ok u ∧ facts[j.id]? = some u := by
  obtain ⟨r, -, halong⟩ := h b hb
  have hsplit' : A.direction.through b = (pre ++ [i]) ++ j :: post := by simp [hsplit]
  rw [hsplit'] at halong
  obtain ⟨s, u, hu, hfact, hfront⟩ := halong.exists_front
  rw [List.getLast?_concat] at hfront
  exact ⟨s, u, hfront, hu, hfact⟩

theorem Solves.transfer_entrance {facts : Facts} (h : A.Solves f d facts) {b : Block}
    (hb : b ∈ f.blocks) {j : Instruction} (hj : A.direction.entrance? b = some j) :
    ∃ s u, A.Enters f d facts b s ∧ A.transfer f j d s = .ok u ∧ facts[j.id]? = some u := by
  obtain ⟨s, hs, halong⟩ := h b hb
  obtain ⟨post, hpost⟩ := List.head?_eq_some_iff.1 hj
  rw [hpost] at halong
  obtain ⟨t, u, ht, hu, rfl, -⟩ := halong
  exact ⟨s, t, hs, ht, hu⟩

/-- Every fact is what the transfer makes of some state. -/
theorem Solves.exists_transfer {facts : Facts} (h : A.Solves f d facts)
    (hfits : facts.Fits f.instCount d.size)
    (hwidth : ∀ {b s}, A.Enters f d facts b s → s.width = d.size) {j : Instruction}
    (hj : j ∈ f.instructions) :
    ∃ s u, s.width = d.size ∧ A.transfer f j d s = .ok u ∧ facts[j.id]? = some u := by
  obtain ⟨b, hb, hjb⟩ := Function.mem_instructions_iff.1 hj
  obtain ⟨pre, post, hsplit⟩ :=
    List.append_of_mem ((Direction.mem_through_iff (b := b)).2 hjb : j ∈ A.direction.through b)
  obtain ⟨r, hr, halong⟩ := h b hb
  rw [hsplit] at halong
  obtain ⟨s, u, hu, hfact, hfront⟩ := halong.exists_front
  refine ⟨s, u, ?_, hu, hfact⟩
  split at hfront
  · rw [hfront]
    exact hwidth hr
  · exact hfits.width_eq hfront

namespace IsMonotoneIn

variable {m : Mode} (hA : A.IsMonotoneIn f d m)
include hA

theorem meet_keepsWidth : A.meet.KeepsWidth d.size := hA.meet_eq ▸ m.keepsWidth d.size

theorem enters_width {facts : Facts} {b : Block} {s : FactSet} (h : A.Enters f d facts b s) :
    s.width = d.size :=
  h.width_eq (hA.meet_eq ▸ m.checksWidth d.size) hA.boundary_width

theorem transfer_below {i : Instruction} (hi : i ∈ f.instructions) {s t s' t' : FactSet}
    (hw : s.width = d.size) (h : m.Below s t) (hs : A.transfer f i d s = .ok s')
    (ht : A.transfer f i d t = .ok t') : m.Below s' t' := by
  have hwt : t.width = d.size := h.width_eq ▸ hw
  cases m with
  | must => exact hA.transfer_mono hi hw h hs ht
  | may => exact hA.transfer_mono hi hwt h ht hs

/-- Lower tables send lower values. -/
theorem sends_below {facts facts' : Facts} (hfits : facts.Fits f.instCount d.size)
    (hfits' : facts'.Fits f.instCount d.size) (h : Facts.Pointwise m.Below facts facts')
    {b : Block} (hb : b ∈ f.blocks) {n : BlockId} (hn : n ∈ A.direction.neighbors f b)
    {v v' : FactSet} (hv : A.Sends f d facts b n v) (hv' : A.Sends f d facts' b n v') :
    m.Below v v' := by
  obtain ⟨blk, i, u, hblk, hi, hu, hv⟩ := hv
  obtain ⟨blk', i', u', hblk', hi', hu', hv'⟩ := hv'
  cases hblk.symm.trans hblk'
  cases hi.symm.trans hi'
  have hle := h i.id u u' hu hu'
  have hwu := hfits.width_eq hu
  have hwu' := hfits'.width_eq hu'
  cases m with
  | must => exact hA.edge_mono hb hn hfits hfits' h hwu hle hv hv'
  | may =>
    exact hA.edge_mono hb hn hfits' hfits (fun k s s' hs hs' => h k s' s hs' hs) hwu' hle hv' hv

/-- From lower tables, facts enter a block in a lower state. -/
theorem enters_below {facts facts' : Facts} (hfits : facts.Fits f.instCount d.size)
    (hfits' : facts'.Fits f.instCount d.size) (h : Facts.Pointwise m.Below facts facts')
    {b : Block} (hb : b ∈ f.blocks) {s s' : FactSet} (hs : A.Enters f d facts b s)
    (hs' : A.Enters f d facts' b s') : m.Below s s' := by
  by_cases hnil : A.direction.neighbors f b = []
  · rw [Enters, if_pos hnil] at hs hs'
    rw [hs, hs']
    exact Mode.Below.refl _ _
  · obtain ⟨values, hvalues, hs⟩ := hs.exists_isMeet hA.meet_eq hnil
    obtain ⟨values', hvalues', hs'⟩ := hs'.exists_isMeet hA.meet_eq hnil
    refine Mode.IsMeet.mono (fun v' hv' => ?_) hs hs'
    obtain ⟨n, hn, hsend'⟩ := Outcome.exists_left_of_mem hvalues' hv'
    obtain ⟨v, hv, hsend⟩ := Outcome.exists_right_of_mem hvalues hn
    exact ⟨v, hv, hA.sends_below hfits hfits' h hb hn hsend hsend'⟩

/-- A chain that starts lower stays lower. -/
theorem along_below {facts : Facts} {s s' : FactSet} {l : List Instruction}
    (hl : ∀ i ∈ l, i ∈ f.instructions) (hw : s.width = d.size) (hle : m.Below s' s)
    (h : A.Along f d m.Below facts s l) : A.Along f d m.Below facts s' l := by
  induction l generalizing s s' with
  | nil => trivial
  | cons i rest ih =>
    obtain ⟨hi, hrest⟩ := List.forall_mem_cons.1 hl
    obtain ⟨t, u, ht, hu, htu, hchain⟩ := h
    have hw' : s'.width = d.size := hle.width_eq.trans hw
    obtain ⟨t', ht', -⟩ := hA.transfer_total hi hw'
    have hle' := hA.transfer_below hi hw' hle ht' ht
    exact ⟨t', u, ht', hu, hle'.trans htu, ih hrest (hA.transfer_width hi hw ht) hle' hchain⟩

end IsMonotoneIn

end Analysis

end FactFlow
