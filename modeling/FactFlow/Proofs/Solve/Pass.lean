import FactFlow.Proofs.Domain
import FactFlow.Proofs.Solve.Equations

/-!
# What a pass does

Nothing here assumes that an analysis is well-behaved.  Each step of the solver is taken apart once
(`flow_cons_eq_ok_iff`, `visit_eq_ok_iff`, `pass_cons_eq_ok_iff`, `result_settle_succ`,
`result_solve`), and the rest follows.

* `Analysis.flow_spec` : pushing a state through a block stores just what the transfer computes,
  leaves all other facts alone, and counts a change iff there is one.
* `Analysis.settle_facts_invariant` : what visiting a block preserves holds of every table that
  passes settle on; `Analysis.solve_invariant` is the form for answers of the solver, and
  `Analysis.solve_fact_invariant` that for properties of single facts.
* `Analysis.solves_of_solve` : **every answer solves the equations**, since the last pass changed
  nothing (`Analysis.last_pass_of_solve`).
-/

namespace FactFlow

namespace Analysis

variable {α : Type} {A : Analysis α} {f : Function} {d : Domain α}

/-! ### Through a block -/

theorem setIfInBounds_self {facts : Facts} {k : Nat} {u : FactSet} (hu : facts[k]? = some u) :
    facts.setIfInBounds k u = facts := by
  apply Array.ext_getElem?
  intro j
  rw [Array.getElem?_setIfInBounds]
  split
  · rename_i hkj
    subst hkj
    split
    · exact hu.symm
    · rename_i hlt
      exact (Array.getElem?_eq_none (Nat.le_of_not_lt hlt)).symm
  · rfl

/-- A chain does not look at the facts of other instructions. -/
theorem Along.setIfInBounds {r : FactSet → FactSet → Prop} {facts : Facts} {s u : FactSet}
    {l : List Instruction} {k : InstId} (hk : k ∉ l.map (·.id)) (h : A.Along f d r facts s l) :
    A.Along f d r (facts.setIfInBounds k u) s l := by
  refine h.congr fun j hj => Array.getElem?_setIfInBounds_ne fun hkj => hk ?_
  exact List.mem_map.2 ⟨j, hj, hkj.symm⟩

/-- One instruction: its fact becomes what the transfer computes, and the count says whether it was
something else before. -/
theorem flow_cons_eq_ok_iff {i : Instruction} {rest : List Instruction} {s u : FactSet}
    {facts facts' : Facts} {n : Nat} (hu : facts[i.id]? = some u) :
    A.flow f d (i :: rest) s facts = .ok (facts', n) ↔
      ∃ t k, A.transfer f i d s = .ok t ∧ t.width = u.width ∧
        A.flow f d rest t (facts.setIfInBounds i.id t) = .ok (facts', k) ∧
        n = k + if t = u then 0 else 1 := by
  simp only [flow, hu, Outcome.bind_eq_ok_iff, FactSet.differsFrom_eq_ok_iff]
  constructor
  · rintro ⟨t, ht, changed, ⟨hw, hchanged⟩, hrest⟩
    by_cases htu : t = u
    · subst htu
      have hfalse : ¬ changed = true := fun h => hchanged.1 h rfl
      rw [if_neg hfalse] at hrest
      exact ⟨t, n, ht, hw, by rwa [setIfInBounds_self hu], by simp⟩
    · rw [if_pos (hchanged.2 htu)] at hrest
      obtain ⟨⟨facts₁, k⟩, hflow, heq⟩ := Outcome.bind_eq_ok_iff.1 hrest
      cases heq
      exact ⟨t, k, ht, hw, hflow, by simp [htu]⟩
  · rintro ⟨t, k, ht, hw, hflow, rfl⟩
    by_cases htu : t = u
    · subst htu
      rw [setIfInBounds_self hu] at hflow
      exact ⟨t, ht, false, ⟨hw, by simp⟩, by simpa using hflow⟩
    · refine ⟨t, ht, true, ⟨hw, by simp [htu]⟩, ?_⟩
      rw [if_pos rfl, Outcome.bind_eq_ok_iff]
      exact ⟨(facts', k), hflow, by simp [htu]; rfl⟩

/-- What pushing a state through instructions does to a table. -/
structure Flowed (A : Analysis α) (f : Function) (d : Domain α) (l : List Instruction)
    (s : FactSet) (facts facts' : Facts) (n : Nat) : Prop where
  /-- The table keeps its size. -/
  size_eq : facts'.size = facts.size
  /-- Facts keep their width. -/
  width_eq : Facts.Pointwise (fun u u' => u'.width = u.width) facts facts'
  /-- Facts of other instructions are left alone. -/
  frame : ∀ k : InstId, (∀ i ∈ l, i.id ≠ k) → facts'[k]? = facts[k]?
  /-- The facts passed are what the transfer computes. -/
  along : A.Along f d (· = ·) facts' s l
  /-- Nothing is counted only if nothing changes. -/
  eq_of_zero : n = 0 → facts' = facts

theorem flow_spec {l : List Instruction} {s : FactSet} {facts facts' : Facts} {n : Nat}
    (hlt : ∀ i ∈ l, i.id < facts.size) (hnodup : (l.map (·.id)).Nodup)
    (h : A.flow f d l s facts = .ok (facts', n)) : A.Flowed f d l s facts facts' n := by
  induction l generalizing s facts n with
  | nil =>
    cases h
    refine ⟨rfl, ?_, fun _ _ => rfl, trivial, fun _ => rfl⟩
    exact Facts.Pointwise.refl (fun u => Eq.refl u.width) _
  | cons i rest ih =>
    obtain ⟨hi, hrest⟩ := List.forall_mem_cons.1 hlt
    obtain ⟨hfresh, hnodup'⟩ := List.nodup_cons.1 hnodup
    have hne : ∀ j ∈ rest, j.id ≠ i.id := fun j hj hji =>
      hfresh (List.mem_map.2 ⟨j, hj, hji⟩)
    obtain ⟨t, k, ht, hw, hflow, rfl⟩ :=
      (flow_cons_eq_ok_iff (Array.getElem?_eq_getElem hi)).1 h
    have hsize : (facts.setIfInBounds i.id t).size = facts.size := by simp
    have hself : (facts.setIfInBounds i.id t)[i.id]? = some t := by simp [hi]
    -- numbers are distinct, so the instructions ahead leave the fact just stored alone
    obtain ⟨hsize', hwidth, hframe, halong, hzero⟩ :=
      ih (fun j hj => by rw [hsize]; exact hrest j hj) hnodup' hflow
    refine ⟨hsize'.trans hsize, fun j u u' hu hu' => ?_, fun j hj => ?_,
      ⟨t, t, ht, (hframe _ hne).trans hself, rfl, halong⟩, fun hz => ?_⟩
    · by_cases hji : i.id = j
      · subst hji
        have hu₀ : facts[i.id]? = some facts[i.id] := Array.getElem?_eq_getElem hi
        cases hu.symm.trans hu₀
        exact (hwidth _ _ _ hself hu').trans hw
      · refine hwidth j u u' ?_ hu'
        rwa [Array.getElem?_setIfInBounds_ne hji]
    · obtain ⟨hij, hj'⟩ := List.forall_mem_cons.1 hj
      rw [hframe j hj', Array.getElem?_setIfInBounds_ne hij]
    · by_cases htu : t = facts[i.id]
      · rw [hzero (by omega), htu, setIfInBounds_self (Array.getElem?_eq_getElem hi)]
      · rw [if_neg htu] at hz
        omega

/-! ### Block by block -/

theorem record_eq_ok_iff {t : Tables} {b : BlockId} {s : FactSet} {boundaries : Array FactSet} :
    t.record b s = .ok boundaries ↔
      b < t.boundaries.size ∧ t.boundaries.setIfInBounds b s = boundaries := by
  unfold Tables.record
  split
  · rename_i hb
    rw [Except.ok.injEq, and_iff_right hb]
  · rename_i hb
    simp [hb]

/-- Visiting a block that is found under its number, where there is a place for its state. -/
theorem visit_eq_ok_iff (hf : f.WellFormed) {boundary : FactSet} {t t' : Tables} {b : Block}
    (hb : b ∈ f.blocks) {n : Nat} :
    A.visit f d boundary t b = .ok (t', n) ↔
      ∃ s, A.blockInput f d boundary t.facts b = .ok s ∧ b.id < t.boundaries.size ∧
        A.flow f d (A.direction.through b) s t.facts = .ok (t'.facts, n) ∧
        t'.boundaries = t.boundaries.setIfInBounds b.id s := by
  simp only [visit, Outcome.bind_eq_ok_iff, record_eq_ok_iff, hf.bodyOf_eq (hf.block?_of_mem hb),
    Except.ok.injEq]
  constructor
  · rintro ⟨s, hs, _, ⟨hlt, rfl⟩, _, rfl, ⟨facts, k⟩, hflow, heq⟩
    cases heq
    exact ⟨s, hs, hlt, hflow, rfl⟩
  · rintro ⟨s, hs, hlt, hflow, hboundaries⟩
    refine ⟨s, hs, _, ⟨hlt, rfl⟩, b.body, rfl, (t'.facts, n), hflow, ?_⟩
    rw [← hboundaries]
    rfl

theorem visit_boundaries_size {boundary : FactSet} {t t' : Tables} {b : Block} {n : Nat}
    (h : A.visit f d boundary t b = .ok (t', n)) : t'.boundaries.size = t.boundaries.size := by
  obtain ⟨s, -, h⟩ := Outcome.bind_eq_ok_iff.1 h
  obtain ⟨boundaries, hrecord, h⟩ := Outcome.bind_eq_ok_iff.1 h
  obtain ⟨body, -, h⟩ := Outcome.bind_eq_ok_iff.1 h
  obtain ⟨⟨facts, k⟩, -, heq⟩ := Outcome.bind_eq_ok_iff.1 h
  obtain ⟨-, rfl⟩ := record_eq_ok_iff.1 hrecord
  cases heq
  exact Array.size_setIfInBounds

/-- Visiting a block of a well-formed function: facts enter it as the equations say. -/
theorem visit_spec (hf : f.WellFormed) {t t' : Tables} {b : Block} {n : Nat}
    (hsize : t.facts.size = f.instCount) (hb : b ∈ f.blocks)
    (h : A.visit f d (A.boundary d) t b = .ok (t', n)) :
    ∃ s, A.Enters f d t.facts b s ∧
      A.Flowed f d (A.direction.through b) s t.facts t'.facts n := by
  obtain ⟨s, hs, -, hflow, -⟩ := (visit_eq_ok_iff hf hb).1 h
  refine ⟨s, (blockInput_eq_ok_iff hf hsize hb).1 hs,
    flow_spec (fun i hi => ?_) (Direction.through_ids_nodup hf _ hb) hflow⟩
  rw [hsize]
  exact hf.id_lt (Direction.mem_instructions_of_mem_through hb hi)

theorem pass_cons_eq_ok_iff {boundary : FactSet} {b : Block} {rest : List Block} {t t' : Tables}
    {n : Nat} :
    A.pass f d boundary (b :: rest) t = .ok (t', n) ↔
      ∃ t₁ k₁ k₂, A.visit f d boundary t b = .ok (t₁, k₁) ∧
        A.pass f d boundary rest t₁ = .ok (t', k₂) ∧ n = k₁ + k₂ := by
  simp only [pass, Outcome.bind_eq_ok_iff]
  constructor
  · rintro ⟨⟨t₁, k₁⟩, hvisit, ⟨t₂, k₂⟩, hrest, heq⟩
    cases heq
    exact ⟨t₁, k₁, k₂, hvisit, hrest, rfl⟩
  · rintro ⟨t₁, k₁, k₂, hvisit, hrest, rfl⟩
    exact ⟨(t₁, k₁), hvisit, (t', k₂), hrest, rfl⟩

theorem pass_invariant {boundary : FactSet} {order : List Block} {P : Tables → Prop}
    (step : ∀ {t b t' n}, b ∈ order → P t → A.visit f d boundary t b = .ok (t', n) → P t')
    {t t' : Tables} {n : Nat} (ht : P t) (h : A.pass f d boundary order t = .ok (t', n)) :
    P t' := by
  induction order generalizing t n with
  | nil =>
    cases h
    exact ht
  | cons b rest ih =>
    obtain ⟨t₁, k₁, k₂, hvisit, hrest, -⟩ := pass_cons_eq_ok_iff.1 h
    exact ih (fun hb => step (List.mem_cons_of_mem _ hb)) (step List.mem_cons_self ht hvisit) hrest

/-- A pass leaves the facts of blocks that it does not visit alone. -/
theorem pass_frame (hf : f.WellFormed) {order : List Block} (horder : ∀ b ∈ order, b ∈ f.blocks)
    {t t' : Tables} {n : Nat} (hsize : t.facts.size = f.instCount)
    (h : A.pass f d (A.boundary d) order t = .ok (t', n)) {c : Block} (hc : c ∈ f.blocks)
    (hnot : c ∉ order) {i : Instruction} (hi : i ∈ c.body) :
    t'.facts[i.id]? = t.facts[i.id]? := by
  refine (pass_invariant (P := fun t₁ => t₁.facts.size = f.instCount ∧
    t₁.facts[i.id]? = t.facts[i.id]?) (fun {t₁ b t₂ k} hb ht hvisit => ?_) ⟨hsize, rfl⟩ h).2
  obtain ⟨s, -, hflowed⟩ := visit_spec hf ht.1 (horder b hb) hvisit
  refine ⟨hflowed.size_eq.trans ht.1, (hflowed.frame i.id fun j hj hji => hnot ?_).trans ht.2⟩
  have hcb := hf.eq_of_mem_body hc (horder b hb) hi (Direction.mem_through_iff.1 hj) hji.symm
  rwa [hcb]

/-- A pass that changes nothing finds every block in balance. -/
theorem pass_zero (hf : f.WellFormed) {order : List Block} (horder : ∀ b ∈ order, b ∈ f.blocks)
    {t t' : Tables} (hsize : t.facts.size = f.instCount)
    (h : A.pass f d (A.boundary d) order t = .ok (t', 0)) :
    t'.facts = t.facts ∧ ∀ b ∈ order, ∃ s, A.Enters f d t.facts b s ∧
      A.Along f d (· = ·) t.facts s (A.direction.through b) := by
  induction order generalizing t with
  | nil =>
    cases h
    exact ⟨rfl, fun b hb => by cases hb⟩
  | cons b rest ih =>
    obtain ⟨hb, hrest⟩ := List.forall_mem_cons.1 horder
    obtain ⟨t₁, k₁, k₂, hvisit, hpass, hk⟩ := pass_cons_eq_ok_iff.1 h
    -- no change in all means none at this block, so the blocks behind it see the same table
    obtain ⟨rfl, rfl⟩ : k₁ = 0 ∧ k₂ = 0 := by omega
    obtain ⟨s, hs, hflowed⟩ := visit_spec hf hsize hb hvisit
    have heq := hflowed.eq_of_zero rfl
    obtain ⟨hfacts, hbalanced⟩ := ih hrest (heq ▸ hsize) hpass
    rw [heq] at hfacts hbalanced
    exact ⟨hfacts, List.forall_mem_cons.2 ⟨⟨s, hs, heq ▸ hflowed.along⟩, hbalanced⟩⟩

/-! ### Until nothing changes -/

theorem result_settle_succ {boundary : FactSet} {order : List Block} {limit done : Nat}
    {t : Tables} :
    (A.settle f d boundary order (limit + 1) done t).result =
      (A.pass f d boundary order t).mapError .fault >>= fun r =>
        if r.2 = 0 then .ok (r.1, done + 1)
        else (A.settle f d boundary order limit (done + 1) r.1).result := by
  simp only [settle, Traced.result_bind, Traced.result_ofFault, Traced.result_emit]
  refine congrArg _ (funext fun r => ?_)
  split <;> rfl

theorem settle_succ_eq_ok_iff {boundary : FactSet} {order : List Block} {limit done : Nat}
    {t t' : Tables} {passes : Nat} :
    (A.settle f d boundary order (limit + 1) done t).result = .ok (t', passes) ↔
      ∃ t₁ changed, A.pass f d boundary order t = .ok (t₁, changed) ∧
        if changed = 0 then t₁ = t' ∧ done + 1 = passes
        else (A.settle f d boundary order limit (done + 1) t₁).result = .ok (t', passes) := by
  rw [result_settle_succ]
  simp only [Outcome.bind_eq_ok_iff, Outcome.mapError_eq_ok_iff, Prod.exists]
  refine exists_congr fun t₁ => exists_congr fun changed => and_congr_right fun _ => ?_
  split
  · rw [Except.ok.injEq, Prod.mk.injEq]
  · rfl

theorem settle_invariant {boundary : FactSet} {order : List Block} {P : Tables → Prop}
    (step : ∀ {t b t' n}, b ∈ order → P t → A.visit f d boundary t b = .ok (t', n) → P t')
    {limit done passes : Nat} {t t' : Tables} (ht : P t)
    (h : (A.settle f d boundary order limit done t).result = .ok (t', passes)) :
    P t' ∧ ∃ t₁, P t₁ ∧ A.pass f d boundary order t₁ = .ok (t', 0) := by
  induction limit generalizing done t with
  | zero => cases h
  | succ limit ih =>
    obtain ⟨t₁, changed, hpass, hrest⟩ := settle_succ_eq_ok_iff.1 h
    have ht₁ := pass_invariant step ht hpass
    split at hrest
    · rename_i hzero
      obtain ⟨rfl, -⟩ := hrest
      exact ⟨ht₁, t, ht, hzero ▸ hpass⟩
    · exact ih ht₁ hrest

theorem boundaries_size_of_settle {boundary : FactSet} {order : List Block}
    {limit done passes : Nat} {t t' : Tables}
    (h : (A.settle f d boundary order limit done t).result = .ok (t', passes)) :
    t'.boundaries.size = t.boundaries.size :=
  (settle_invariant (P := fun t₁ => t₁.boundaries.size = t.boundaries.size)
    (fun _ ht hvisit => (visit_boundaries_size hvisit).trans ht) rfl h).1

/-- **A run of the solver**: the two checks, and passes from the tables of identities on. -/
theorem result_solve [DecidableEq α] :
    (A.solve f).result = (A.precondition f).mapError .refused >>= fun _ =>
      if (A.boundary (A.domain f)).width ≠ (A.domain f).size then
        .error (.fault
          (.boundaryWidth A.name (A.boundary (A.domain f)).width (A.domain f).size))
      else
        (A.settle f (A.domain f) (A.boundary (A.domain f)) (A.direction.schedule f)
          (A.tableCount f (A.domain f)) 0
          (A.start f (A.domain f) (A.boundary (A.domain f)))).result.map fun r =>
            ⟨A.name, A.direction, A.domain f, r.1.facts, r.1.boundaries, r.2⟩ := by
  simp only [solve, Traced.result_bind, Traced.result_ofError, Traced.result_ofFault, discover_eq,
    Except.mapError, Outcome.ok_bind]
  refine congrArg _ (funext fun _ => ?_)
  split
  · rfl
  · simp only [Traced.result_bind, Traced.result_emit, Outcome.ok_bind]
    cases (A.settle f (A.domain f) (A.boundary (A.domain f)) (A.direction.schedule f)
      (A.tableCount f (A.domain f)) 0
      (A.start f (A.domain f) (A.boundary (A.domain f)))).result <;> rfl

theorem solve_eq_ok_iff [DecidableEq α] {S : Solution α} :
    (A.solve f).result = .ok S ↔
      A.precondition f = .ok () ∧ (A.boundary (A.domain f)).width = (A.domain f).size ∧
        ∃ t passes, (A.settle f (A.domain f) (A.boundary (A.domain f)) (A.direction.schedule f)
            (A.tableCount f (A.domain f)) 0
            (A.start f (A.domain f) (A.boundary (A.domain f)))).result = .ok (t, passes) ∧
          S = ⟨A.name, A.direction, A.domain f, t.facts, t.boundaries, passes⟩ := by
  rw [result_solve]
  simp only [Outcome.bind_eq_ok_iff, Outcome.mapError_eq_ok_iff]
  refine Unique.exists_iff.trans (and_congr_right fun _ => ?_)
  split
  · rename_i hw
    simp [hw]
  · rename_i hw
    rw [and_iff_right (not_not.1 hw), Outcome.map_eq_ok_iff, Prod.exists]
    exact exists_congr fun t => exists_congr fun passes => and_congr_right fun _ => eq_comm

/-- A run that accepts the function fails on the width of the boundary, or while passes settle. -/
theorem solve_eq_error_iff [DecidableEq α] {e : Failure} :
    (A.solve f).result = .error e ↔
      (∃ r, A.precondition f = .error r ∧ e = .refused r) ∨
      A.precondition f = .ok () ∧
        (((A.boundary (A.domain f)).width ≠ (A.domain f).size ∧ e = .fault
          (.boundaryWidth A.name (A.boundary (A.domain f)).width (A.domain f).size)) ∨
        ((A.boundary (A.domain f)).width = (A.domain f).size ∧
          (A.settle f (A.domain f) (A.boundary (A.domain f)) (A.direction.schedule f)
            (A.tableCount f (A.domain f)) 0
            (A.start f (A.domain f) (A.boundary (A.domain f)))).result = .error e)) := by
  rw [result_solve]
  cases A.precondition f with
  | error r => simp [Except.mapError, bind, Except.bind, eq_comm]
  | ok _ =>
    simp only [Except.mapError, Outcome.ok_bind, reduceCtorEq, false_and, exists_false, false_or,
      true_and]
    split
    · rename_i hw
      simp [hw, eq_comm]
    · rename_i hw
      rw [Outcome.map_eq_error_iff]
      simp [not_not.1 hw]

/-! ### Answers of the solver -/

theorem fits_replicate (count : Nat) (u : FactSet) :
    Facts.Fits (Array.replicate count u) count u.width := by
  refine ⟨by simp, fun {k s} hs => ?_⟩
  rw [Array.getElem?_replicate] at hs
  split at hs
  · cases hs
    rfl
  · cases hs

/-- The tables before the first pass fit, in the width of the identity. -/
theorem fits_start (boundary : FactSet) :
    (A.start f d boundary).Fits f (A.meet.unit d.size).width :=
  ⟨fits_replicate _ _, Array.size_replicate⟩

/-- A table of identities fits, if the identity is as wide as the domain. -/
theorem fits_identities {m : Meet} {width : Nat} (hunit : (m.unit width).width = width)
    (count : Nat) : Facts.Fits (Array.replicate count (m.unit width)) count width := by
  have hfits := fits_replicate count (m.unit width)
  rwa [hunit] at hfits

theorem Flowed.fits {l : List Instruction} {s : FactSet} {facts facts' : Facts}
    {n count width : Nat} (h : A.Flowed f d l s facts facts' n)
    (hfits : facts.Fits count width) : facts'.Fits count width :=
  hfits.of_widths h.size_eq h.width_eq

theorem fits_of_visit (hf : f.WellFormed) {b : Block} (hb : b ∈ f.blocks) {width n : Nat}
    {t t' : Tables} (hfits : t.Fits f width)
    (h : A.visit f d (A.boundary d) t b = .ok (t', n)) : t'.Fits f width := by
  obtain ⟨s, -, hflowed⟩ := visit_spec hf hfits.facts.size_eq hb h
  exact ⟨hflowed.fits hfits.facts, (visit_boundaries_size h).trans hfits.boundaries⟩

theorem fits_of_pass (hf : f.WellFormed) {order : List Block} (horder : ∀ b ∈ order, b ∈ f.blocks)
    {width n : Nat} {t t' : Tables} (hfits : t.Fits f width)
    (h : A.pass f d (A.boundary d) order t = .ok (t', n)) : t'.Fits f width :=
  pass_invariant (P := fun t => t.Fits f width)
    (fun {_ b _ _} hb ht hvisit => fits_of_visit hf (horder b hb) ht hvisit) hfits h

/-- What holds of the facts at the start and is preserved by every block holds of every table that
passes settle on, in whatever order they visit the blocks. -/
theorem settle_facts_invariant (hf : f.WellFormed) {order : List Block}
    (horder : ∀ b ∈ order, b ∈ f.blocks) {width : Nat} {P : Facts → Prop}
    (step : ∀ {facts b s facts' n}, facts.Fits f.instCount width → P facts → b ∈ f.blocks →
      A.Enters f d facts b s → A.Flowed f d (A.direction.through b) s facts facts' n → P facts')
    {limit done passes : Nat} {t t' : Tables} (hfits : t.facts.Fits f.instCount width)
    (ht : P t.facts)
    (h : (A.settle f d (A.boundary d) order limit done t).result = .ok (t', passes)) :
    P t'.facts ∧ t'.facts.Fits f.instCount width := by
  refine (settle_invariant (P := fun t => P t.facts ∧ t.facts.Fits f.instCount width)
    (fun {t b t' n} hb ht hvisit => ?_) ⟨ht, hfits⟩ h).1
  obtain ⟨s, hs, hflowed⟩ := visit_spec hf ht.2.size_eq (horder b hb) hvisit
  exact ⟨step ht.2 ht.1 (horder b hb) hs hflowed, hflowed.fits ht.2⟩

theorem fits_of_settle (hf : f.WellFormed) {order : List Block}
    (horder : ∀ b ∈ order, b ∈ f.blocks) {width limit done passes : Nat} {t t' : Tables}
    (hfits : t.facts.Fits f.instCount width)
    (h : (A.settle f d (A.boundary d) order limit done t).result = .ok (t', passes)) :
    t'.facts.Fits f.instCount width :=
  (settle_facts_invariant (P := fun _ => True) hf horder (fun _ _ _ _ _ => trivial) hfits trivial
    h).2

section

variable [DecidableEq α] (hf : f.WellFormed) {S : Solution α} (h : (A.solve f).result = .ok S)
  (hunit : (A.meet.unit (A.domain f).size).width = (A.domain f).size)
include hf h

omit hf in
theorem domain_of_solve : S.domain = A.domain f := by
  obtain ⟨-, -, t, passes, -, rfl⟩ := solve_eq_ok_iff.1 h
  rfl

theorem facts_size_of_solve : S.facts.size = f.instCount := by
  obtain ⟨-, -, t, passes, hsettle, rfl⟩ := solve_eq_ok_iff.1 h
  exact (fits_of_settle hf (fun b hb => Direction.mem_schedule_iff.1 hb) (fits_start _).facts
    hsettle).size_eq

include hunit

theorem fits_of_solve : S.facts.Fits f.instCount (A.domain f).size := by
  obtain ⟨-, -, t, passes, hsettle, rfl⟩ := solve_eq_ok_iff.1 h
  exact fits_of_settle hf (fun b hb => Direction.mem_schedule_iff.1 hb)
    (fits_identities hunit _) hsettle

/-- What holds of the facts at the start and is preserved by every block holds of every answer. -/
theorem solve_invariant {P : Facts → Prop}
    (start : P (Array.replicate f.instCount (A.meet.unit (A.domain f).size)))
    (step : ∀ {facts b s facts' n}, facts.Fits f.instCount (A.domain f).size → P facts →
      b ∈ f.blocks → A.Enters f (A.domain f) facts b s →
      A.Flowed f (A.domain f) (A.direction.through b) s facts facts' n → P facts') :
    P S.facts := by
  obtain ⟨-, -, t, passes, hsettle, rfl⟩ := solve_eq_ok_iff.1 h
  exact (settle_facts_invariant hf (fun b hb => Direction.mem_schedule_iff.1 hb) step
    (fits_identities hunit _) start hsettle).1

/-- The same, fact by fact: a property of single facts has to be preserved only along the block
that is visited. -/
theorem solve_fact_invariant {Q : Instruction → FactSet → Prop}
    (start : ∀ j ∈ f.instructions, Q j (A.meet.unit (A.domain f).size))
    (step : ∀ {facts b s facts'}, facts.Fits f.instCount (A.domain f).size →
      (∀ j ∈ f.instructions, ∀ u, facts[j.id]? = some u → Q j u) → b ∈ f.blocks →
      A.Enters f (A.domain f) facts b s →
      A.Along f (A.domain f) (· = ·) facts' s (A.direction.through b) →
      ∀ j ∈ A.direction.through b, ∀ u, facts'[j.id]? = some u → Q j u)
    {j : Instruction} (hj : j ∈ f.instructions) {u : FactSet} (hu : S.facts[j.id]? = some u) :
    Q j u := by
  refine solve_invariant hf h hunit (P := fun facts => ∀ j ∈ f.instructions, ∀ u : FactSet,
    facts[j.id]? = some u → Q j u) ?_ ?_ j hj u hu
  · intro j hj u hu
    rw [Array.getElem?_replicate, if_pos (hf.id_lt hj)] at hu
    cases hu
    exact start j hj
  · intro facts b s facts' n hfits hinv hb hs hflowed j hj u hu
    by_cases hjb : ∃ i ∈ A.direction.through b, i.id = j.id
    · -- numbers are not shared, so `j` itself stands in the block
      obtain ⟨i, hi, hij⟩ := hjb
      cases hf.eq_of_id_eq (Direction.mem_instructions_of_mem_through hb hi) hj hij
      exact step hfits hinv hb hs hflowed.along j hi u hu
    · push Not at hjb
      rw [hflowed.frame j.id hjb] at hu
      exact hinv j hj u hu

/-- An answer holds an element at an instruction iff the bit of its number is set in the fact. -/
theorem holds_iff_of_solve {i : InstId} {e : α} {b : Bool} :
    S.holds i e = .ok b ↔ (b = true ↔
      ∃ p u, (A.domain f).get? p = some e ∧ S.facts[i]? = some u ∧ u.test p = true) := by
  have hdomain := domain_of_solve h
  have hwidth : ∀ {i s}, S.fact? i = some s → s.width = S.domain.size := fun hs => by
    rw [hdomain]
    exact (fits_of_solve hf h hunit).width_eq hs
  rw [Solution.holds_eq_ok_iff (by rw [hdomain]; rfl) hwidth, hdomain]
  rfl

theorem exists_holds_of_solve (i : InstId) (e : α) : ∃ b, S.holds i e = .ok b := by
  classical
  exact ⟨decide _, (holds_iff_of_solve hf h hunit).2 decide_eq_true_iff⟩

theorem holds_eq_ok_iff_of_solve {p : Nat} {e : α} (hp : (A.domain f).get? p = some e)
    {i : InstId} {u : FactSet} (hu : S.facts[i]? = some u) {b : Bool} :
    S.holds i e = .ok b ↔ b = u.test p := by
  have hdomain := domain_of_solve h
  refine Solution.holds_eq_ok_iff_test (by rw [hdomain]; rfl) (fun hs => ?_) (by rwa [hdomain]) hu
  rw [hdomain]
  exact (fits_of_solve hf h hunit).width_eq hs

theorem mem_domain_of_holds {i : InstId} {e : α} (hholds : S.holds i e = .ok true) :
    e ∈ (A.domain f).elements := by
  obtain ⟨p, -, hp, -⟩ := ((holds_iff_of_solve hf h hunit).1 hholds).1 rfl
  exact Domain.mem_of_get? hp

end

/-- Behind every table that passes settle on there is a pass that led to it and changed nothing. -/
theorem last_pass_of_settle (hf : f.WellFormed) {order : List Block}
    (horder : ∀ b ∈ order, b ∈ f.blocks) {limit done passes : Nat} {t t' : Tables}
    (hsize : t.facts.size = f.instCount)
    (h : (A.settle f d (A.boundary d) order limit done t).result = .ok (t', passes)) :
    ∃ t₁ : Tables, t₁.facts.size = f.instCount ∧
      A.pass f d (A.boundary d) order t₁ = .ok (t', 0) := by
  refine (settle_invariant (P := fun t => t.facts.size = f.instCount)
    (fun {t b t' n} hb ht hvisit => ?_) hsize h).2
  obtain ⟨s, -, hflowed⟩ := visit_spec hf ht (horder b hb) hvisit
  exact hflowed.size_eq.trans ht

theorem last_pass_of_solve [DecidableEq α] (hf : f.WellFormed) {S : Solution α}
    (h : (A.solve f).result = .ok S) :
    ∃ t : Tables, t.facts.size = f.instCount ∧
      A.pass f (A.domain f) (A.boundary (A.domain f)) (A.direction.schedule f) t =
        .ok (⟨S.facts, S.boundaries⟩, 0) := by
  obtain ⟨-, -, t, passes, hsettle, rfl⟩ := solve_eq_ok_iff.1 h
  exact last_pass_of_settle hf (fun b hb => Direction.mem_schedule_iff.1 hb)
    (fits_start _).facts.size_eq hsettle

/-- **Every answer solves the equations.** -/
theorem solves_of_solve [DecidableEq α] (hf : f.WellFormed) {S : Solution α}
    (h : (A.solve f).result = .ok S) : A.Solves f (A.domain f) S.facts := by
  obtain ⟨t, hsize, hpass⟩ := last_pass_of_solve hf h
  obtain ⟨hfacts, hbalanced⟩ :=
    pass_zero hf (fun b hb => Direction.mem_schedule_iff.1 hb) hsize hpass
  intro b hb
  rw [show S.facts = t.facts from hfacts]
  exact hbalanced b (Direction.mem_schedule_iff.2 hb)

end Analysis

end FactFlow
