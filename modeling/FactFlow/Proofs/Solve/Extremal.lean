import FactFlow.Proofs.Analysis.GenKill
import FactFlow.Proofs.Solve.Pass
import Mathlib.Algebra.Order.BigOperators.Group.Finset

/-!
# The extremal solution

For an analysis that keeps widths and is monotone, and whose meet is one of the two that come with
the library, solving ends and finds the extremal solution of the equations.

Facts are updated in place, so a block may meet old facts of one neighbor and new facts of another.
What makes the argument go through all the same is an invariant of every single visit: the table is
*descending*, that is, recomputing any block from the table as it stands gives facts that are below
the stored ones (`Balanced m.Below`, for the mode `m` of the analysis).  A visit keeps it
(`visit_descends`) because it lowers the table, and lower tables give lower states.

* Each change takes a fact strictly down, so the depth of the table (`Facts.depth`, the number of
  positions in which it differs from the start) grows by at least the number of changes, and it is
  bounded by the number of instructions times the size of the domain.
* Every table that lies below what it computes stays below all tables of the run
  (`below_of_settle`); solutions are such tables.
* `Analysis.solve_extremal` puts the two together.
-/

namespace FactFlow

namespace Facts

/-- The number of positions, over all facts, that differ from the identity of the meet. -/
def depth (m : Mode) (facts : Facts) : Nat :=
  ∑ k ∈ Finset.range facts.size, (facts[k]?.map m.depth).getD 0

theorem depth_le {m : Mode} {facts : Facts} {count width : Nat} (h : Fits facts count width) :
    depth m facts ≤ count * width := by
  have hk : ∀ k ∈ Finset.range facts.size, (facts[k]?.map m.depth).getD 0 ≤ width := by
    intro k hk
    obtain ⟨u, hu, hw⟩ := h.exists_getElem? (h.size_eq ▸ Finset.mem_range.1 hk)
    rw [hu, Option.map_some, Option.getD_some, ← hw]
    exact m.depth_le_width u
  calc depth m facts ≤ ∑ _k ∈ Finset.range facts.size, width := Finset.sum_le_sum hk
    _ = count * width := by rw [Finset.sum_const_nat fun _ _ => rfl, Finset.card_range, h.size_eq]

/-- Storing a lower fact adds to the depth, unless it is the fact that was there. -/
theorem depth_setIfInBounds {m : Mode} {facts : Facts} {k : InstId} {t u : FactSet}
    (hu : facts[k]? = some u) (h : m.Below t u) :
    depth m facts + (if t = u then 0 else 1) ≤ depth m (facts.setIfInBounds k t) := by
  split
  · rename_i htu
    rw [htu, Analysis.setIfInBounds_self hu]
    rfl
  · rename_i htu
    have hk : k < facts.size := (Array.getElem?_eq_some_iff.1 hu).1
    have hself : (facts.setIfInBounds k t)[k]? = some t := by simp [hk]
    rw [depth, depth, Array.size_setIfInBounds]
    refine Nat.succ_le_of_lt (Finset.sum_lt_sum (fun j _ => ?_) ⟨k, Finset.mem_range.2 hk, ?_⟩)
    · by_cases hjk : k = j
      · subst hjk
        rw [hu, hself]
        exact Mode.depth_le h
      · rw [Array.getElem?_setIfInBounds_ne hjk]
    · rw [hu, hself]
      exact Mode.depth_lt h htu

end Facts

namespace Analysis

variable {α : Type} {A : Analysis α} {f : Function} {d : Domain α}

/-! ### Descending tables -/

/-- Where the computed states lie below the stored facts, the flow goes through and lowers the
table by at least one position for each change. -/
theorem flow_descends {m : Mode} {l : List Instruction} {s : FactSet} {facts : Facts}
    (hnodup : (l.map (·.id)).Nodup) (h : A.Along f d m.Below facts s l) :
    ∃ facts' n, A.flow f d l s facts = .ok (facts', n) ∧
      Facts.depth m facts + n ≤ Facts.depth m facts' := by
  induction l generalizing s facts with
  | nil => exact ⟨facts, 0, rfl, le_refl _⟩
  | cons i rest ih =>
    obtain ⟨hfresh, hnodup'⟩ := List.nodup_cons.1 hnodup
    obtain ⟨t, u, ht, hu, htu, hrest⟩ := h
    obtain ⟨facts', n, hflow, hdepth⟩ := ih hnodup' (hrest.setIfInBounds (k := i.id) hfresh)
    refine ⟨facts', n + if t = u then 0 else 1,
      (flow_cons_eq_ok_iff hu).2 ⟨t, n, ht, htu.width_eq, hflow, rfl⟩, ?_⟩
    have hset := Facts.depth_setIfInBounds hu htu
    omega

/-- The flow replaces the stored facts by those of the chain that they are related to. -/
theorem Flowed.pointwise {r : FactSet → FactSet → Prop} (hr : ∀ u, r u u) {l : List Instruction}
    {s : FactSet} {facts facts' : Facts} {n : Nat} (hflowed : A.Flowed f d l s facts facts' n)
    (h : A.Along f d r facts s l) : Facts.Pointwise r facts' facts := by
  have hchain : ∀ i ∈ l, ∀ u u', facts'[i.id]? = some u' → facts[i.id]? = some u → r u' u := by
    have halong := hflowed.along
    clear hflowed
    induction l generalizing s with
    | nil => exact fun i hi => by cases hi
    | cons i rest ih =>
      obtain ⟨t, u, ht, hu, htu, hrest⟩ := h
      obtain ⟨t', u', ht', hu', rfl, hrest'⟩ := halong
      cases ht.symm.trans ht'
      refine List.forall_mem_cons.2 ⟨fun v v' hv' hv => ?_, ih hrest hrest'⟩
      cases hu'.symm.trans hv'
      cases hu.symm.trans hv
      exact htu
  intro k u' u hu' hu
  by_cases hk : ∃ i ∈ l, i.id = k
  · obtain ⟨i, hi, rfl⟩ := hk
    exact hchain i hi u u' hu' hu
  · push Not at hk
    rw [hflowed.frame k hk] at hu'
    cases hu'.symm.trans hu
    exact hr _

/-- The flow from a state whose chain lies below the stored facts lowers the table. -/
theorem Flowed.below {m : Mode} {l : List Instruction} {s : FactSet} {facts facts' : Facts}
    {n : Nat} (hflowed : A.Flowed f d l s facts facts' n) (h : A.Along f d m.Below facts s l) :
    Facts.Pointwise m.Below facts' facts :=
  hflowed.pointwise (Mode.Below.refl _) h

section

variable (hA : A.KeepsWidth f d) (hf : f.WellFormed) {facts : Facts}
  (hfits : facts.Fits f.instCount d.size) {r : FactSet → FactSet → Prop}
  (hr : ∀ {i t u}, i ∈ f.instructions → t.width = d.size → facts[i.id]? = some u → r t u)
include hA hf hfits hr

/-- Chains go through a table that fits, for every relation that holds between sets of the domain's
width and its facts. -/
theorem KeepsWidth.along {l : List Instruction} (hl : ∀ i ∈ l, i ∈ f.instructions) {s : FactSet}
    (hw : s.width = d.size) : A.Along f d r facts s l := by
  induction l generalizing s with
  | nil => trivial
  | cons i rest ih =>
    obtain ⟨hi, hrest⟩ := List.forall_mem_cons.1 hl
    obtain ⟨t, ht, hwt⟩ := hA.transfer_total hi hw
    obtain ⟨u, hu, -⟩ := hfits.exists_getElem? (hf.id_lt hi)
    exact ⟨t, u, ht, hu, hr hi hwt hu, ih hrest hwt⟩

theorem KeepsWidth.balanced (hm : A.meet.KeepsWidth d.size) : A.Balanced f d r facts := by
  intro b hb
  obtain ⟨s, hs, hw⟩ := exists_enters hA hm hf hfits hb
  exact ⟨s, hs, hA.along hf hfits hr
    (fun i hi => Direction.mem_instructions_of_mem_through hb hi) hw⟩

end

theorem tableCount_eq (hunit : (A.meet.unit d.size).width = d.size) :
    A.tableCount f d = 2 ^ (f.instCount * d.size) := by
  rw [tableCount, hunit, Nat.pow_eq]

namespace IsMonotoneIn

variable {m : Mode} (hA : A.IsMonotoneIn f d m) (hf : f.WellFormed)
include hA hf

theorem balanced_identities :
    A.Balanced f d m.Below (Array.replicate f.instCount (A.meet.unit d.size)) := by
  have hfits := fits_identities hA.meet_keepsWidth.unit_width f.instCount
  refine hA.balanced hf hfits (fun {i t u} hi hwt hu => ?_) hA.meet_keepsWidth
  rw [Array.getElem?_replicate, if_pos (hf.id_lt hi), hA.meet_eq] at hu
  cases hu
  exact hwt ▸ m.below_unit t

/-- **Visiting a block of a descending table** goes through, and leaves a lower descending table. -/
theorem visit_descends {t : Tables} (hfits : t.Fits f d.size)
    (hbal : A.Balanced f d m.Below t.facts) {b : Block} (hb : b ∈ f.blocks) :
    ∃ t' n, A.visit f d (A.boundary d) t b = .ok (t', n) ∧ t'.Fits f d.size ∧
      A.Balanced f d m.Below t'.facts ∧
      Facts.Pointwise m.Below t'.facts t.facts ∧
      Facts.depth m t.facts + n ≤ Facts.depth m t'.facts := by
  obtain ⟨s, hs, halong⟩ := hbal b hb
  obtain ⟨facts', n, hflow, hdepth⟩ := flow_descends (Direction.through_ids_nodup hf _ hb) halong
  have hsize := hfits.facts.size_eq
  have hvisit : A.visit f d (A.boundary d) t b =
      .ok (⟨facts', t.boundaries.setIfInBounds b.id s⟩, n) :=
    (visit_eq_ok_iff hf hb).2
      ⟨s, (blockInput_eq_ok_iff hf hsize hb).2 hs, hfits.lt_boundaries hf hb, hflow, rfl⟩
  obtain ⟨s₀, hs₀, hflowed⟩ := visit_spec hf hsize hb hvisit
  obtain rfl : s₀ = s := hs₀.unique hf hsize hb hs
  have hfits' := fits_of_visit hf hb hfits hvisit
  have hbelow := hflowed.below halong
  refine ⟨_, n, hvisit, hfits', fun c hc => ?_, hbelow, hdepth⟩
  obtain ⟨r, hr, -⟩ := exists_enters hA.toKeepsWidth hA.meet_keepsWidth hf hfits'.facts hc
  refine ⟨r, hr, ?_⟩
  have hl : ∀ i ∈ A.direction.through c, i ∈ f.instructions := fun i hi =>
    Direction.mem_instructions_of_mem_through hc hi
  by_cases hcb : c = b
  · -- the block just visited: its facts are the chain from a state above the new one
    subst hcb
    have hchain : A.Along f d m.Below facts' s₀ (A.direction.through c) :=
      hflowed.along.imp fun t u htu => htu ▸ Mode.Below.refl _ _
    exact hA.along_below hl (hA.enters_width hs₀)
      (hA.enters_below hfits'.facts hfits.facts hbelow hc hr hs₀) hchain
  · -- any other block: its facts are untouched
    obtain ⟨r₀, hr₀, hchain⟩ := hbal c hc
    have hlow := hA.along_below hl (hA.enters_width hr₀)
      (hA.enters_below hfits'.facts hfits.facts hbelow hc hr hr₀) hchain
    refine hlow.congr fun i hi => hflowed.frame _ fun j hj hij => hcb ?_
    exact hf.eq_of_mem_body hc hb (Direction.mem_through_iff.1 hi)
      (Direction.mem_through_iff.1 hj) hij.symm

theorem pass_descends {order : List Block} (horder : ∀ b ∈ order, b ∈ f.blocks) {t : Tables}
    (hfits : t.Fits f d.size) (hbal : A.Balanced f d m.Below t.facts) :
    ∃ t' n, A.pass f d (A.boundary d) order t = .ok (t', n) ∧ t'.Fits f d.size ∧
      A.Balanced f d m.Below t'.facts ∧
      Facts.depth m t.facts + n ≤ Facts.depth m t'.facts := by
  induction order generalizing t with
  | nil => exact ⟨t, 0, rfl, hfits, hbal, le_refl _⟩
  | cons b rest ih =>
    obtain ⟨hb, hrest⟩ := List.forall_mem_cons.1 horder
    obtain ⟨t₁, k₁, hvisit, hfits₁, hbal₁, -, hdepth₁⟩ := hA.visit_descends hf hfits hbal hb
    obtain ⟨t₂, k₂, hpass, hfits₂, hbal₂, hdepth₂⟩ := ih hrest hfits₁ hbal₁
    refine ⟨t₂, k₁ + k₂, pass_cons_eq_ok_iff.2 ⟨t₁, k₁, k₂, hvisit, hpass, rfl⟩, hfits₂, hbal₂, ?_⟩
    omega

/-- **Passes over a descending table come to an end**: each one but the last adds to the depth. -/
theorem settle_descends {order : List Block} (horder : ∀ b ∈ order, b ∈ f.blocks)
    {limit : Nat} (done : Nat) {t : Tables} (hfits : t.Fits f d.size)
    (hbal : A.Balanced f d m.Below t.facts)
    (hlimit : f.instCount * d.size - Facts.depth m t.facts < limit) :
    ∃ t' passes, (A.settle f d (A.boundary d) order limit done t).result = .ok (t', passes) ∧
      passes ≤ done + (f.instCount * d.size - Facts.depth m t.facts) + 1 := by
  -- what is left of the depth goes down with every pass, so the limit is never met
  induction limit generalizing done t with
  | zero => omega
  | succ limit ih =>
    obtain ⟨t₁, changed, hpass, hfits₁, hbal₁, hdepth⟩ := hA.pass_descends hf horder hfits hbal
    by_cases hzero : changed = 0
    · refine ⟨t₁, done + 1, settle_succ_eq_ok_iff.2 ⟨t₁, changed, hpass, ?_⟩, by omega⟩
      simp [hzero]
    · have hbound := Facts.depth_le (m := m) hfits₁.facts
      obtain ⟨t', passes, hsettle, hpasses⟩ := ih (done + 1) hfits₁ hbal₁ (by omega)
      refine ⟨t', passes, settle_succ_eq_ok_iff.2 ⟨t₁, changed, hpass, ?_⟩, by omega⟩
      rwa [if_neg hzero]

end IsMonotoneIn

/-! ### Extremality -/

/-- Two chains, the one from the lower state bounding its facts from above: the facts of the other
lie above them. -/
theorem IsMonotoneIn.below_of_along {m : Mode} (hA : A.IsMonotoneIn f d m) {l : List Instruction}
    (hl : ∀ i ∈ l, i ∈ f.instructions) {low facts : Facts} {r s : FactSet} (hw : r.width = d.size)
    (hrs : m.Below r s) (hlow : A.Along f d (fun t u => m.Below u t) low r l)
    (h : A.Along f d (· = ·) facts s l) :
    ∀ i ∈ l, ∀ u u', low[i.id]? = some u → facts[i.id]? = some u' → m.Below u u' := by
  induction l generalizing r s with
  | nil => exact fun i hi => by cases hi
  | cons i rest ih =>
    obtain ⟨hi, hrest⟩ := List.forall_mem_cons.1 hl
    obtain ⟨t, u, ht, hu, hut, hlow⟩ := hlow
    obtain ⟨t', u', ht', hu', rfl, h⟩ := h
    have htt' := hA.transfer_below hi hw hrs ht ht'
    refine List.forall_mem_cons.2
      ⟨fun v v' hv hv' => ?_, ih hrest (hA.transfer_width hi hw ht) htt' hlow h⟩
    cases hu.symm.trans hv
    cases hu'.symm.trans hv'
    exact hut.trans htt'

/-- A table that lies below what it computes lies below every table that passes settle on, in
whatever order they visit the blocks. -/
theorem IsMonotoneIn.below_of_settle {m : Mode} (hA : A.IsMonotoneIn f d m) (hf : f.WellFormed)
    {order : List Block} (horder : ∀ b ∈ order, b ∈ f.blocks) {low : Facts}
    (hfits : low.Fits f.instCount d.size)
    (hlow : A.Balanced f d (fun t u => m.Below u t) low) {limit done passes : Nat}
    {boundaries : Array FactSet} {t : Tables}
    (h : (A.settle f d (A.boundary d) order limit done
      ⟨Array.replicate f.instCount (A.meet.unit d.size), boundaries⟩).result = .ok (t, passes)) :
    Facts.Pointwise m.Below low t.facts := by
  refine (settle_facts_invariant (P := Facts.Pointwise m.Below low) hf horder ?_
    (fits_identities hA.meet_keepsWidth.unit_width _) ?_ h).1
  · intro facts b s facts' n hfacts hle hb hs hflowed k u u' hu hu'
    by_cases hk : ∃ i ∈ A.direction.through b, i.id = k
    · obtain ⟨i, hi, rfl⟩ := hk
      obtain ⟨r, hr, hchain⟩ := hlow b hb
      refine hA.below_of_along (fun i hi => ?_) (hA.enters_width hr)
        (hA.enters_below hfits hfacts hle hb hr hs) hchain hflowed.along i hi u u' hu hu'
      exact Direction.mem_instructions_of_mem_through hb hi
    · push Not at hk
      rw [hflowed.frame k hk] at hu'
      exact hle k u u' hu hu'
  · intro k u u' hu hu'
    rw [Array.getElem?_replicate] at hu'
    split at hu'
    · cases hu'
      rw [hA.meet_eq, ← hfits.width_eq hu]
      exact m.below_unit u
    · cases hu'

/-- The facts solve the equations, they are the greatest to do so if meets intersect and the least
if meets unite, and there were no more passes than positions, and one. -/
structure IsExtremal [DecidableEq α] (A : Analysis α) (f : Function) (S : Solution α) : Prop where
  /-- The solution speaks about the elements that instructions contribute. -/
  domain_eq : S.domain = A.domain f
  /-- There is one fact for each instruction. -/
  fits : S.facts.Fits f.instCount (A.domain f).size
  /-- The facts solve the equations. -/
  solves : A.Solves f (A.domain f) S.facts
  /-- If meets intersect, all solutions lie below. -/
  greatest : A.meet = .intersect → ∀ {facts : Facts}, facts.Fits f.instCount (A.domain f).size →
    A.Solves f (A.domain f) facts → Facts.Pointwise (· ≤ ·) facts S.facts
  /-- If meets unite, all solutions lie above. -/
  least : A.meet = .union → ∀ {facts : Facts}, facts.Fits f.instCount (A.domain f).size →
    A.Solves f (A.domain f) facts → Facts.Pointwise (· ≤ ·) S.facts facts
  /-- Passes are bounded by the number of positions. -/
  passes_le : S.passes ≤ f.instCount * (A.domain f).size + 1

theorem IsMonotoneIn.exists_solve [DecidableEq α] {m : Mode} (hA : A.IsMonotoneIn f (A.domain f) m)
    (hf : f.WellFormed) (hpre : A.precondition f = .ok ()) :
    ∃ S, (A.solve f).result = .ok S ∧ S.passes ≤ f.instCount * (A.domain f).size + 1 := by
  have hunit := hA.meet_keepsWidth.unit_width
  have hlimit : f.instCount * (A.domain f).size -
      Facts.depth m (A.start f (A.domain f) (A.boundary (A.domain f))).facts <
        A.tableCount f (A.domain f) := by
    rw [tableCount_eq hunit]
    exact lt_of_le_of_lt (Nat.sub_le _ _) Nat.lt_two_pow_self
  obtain ⟨t, passes, hsettle, hpasses⟩ := hA.settle_descends hf
    (fun b hb => Direction.mem_schedule_iff.1 hb) 0
    ⟨fits_identities hunit _, (fits_start _).boundaries⟩ (hA.balanced_identities hf) hlimit
  refine ⟨_, solve_eq_ok_iff.2 ⟨hpre, hA.boundary_width, t, passes, hsettle, rfl⟩, ?_⟩
  dsimp only
  omega

/-- Solutions lie below every table that passes settle on. -/
theorem IsMonotoneIn.solves_below_settle {m : Mode} (hA : A.IsMonotoneIn f d m)
    (hf : f.WellFormed) {order : List Block} (horder : ∀ b ∈ order, b ∈ f.blocks) {facts : Facts}
    (hfits : facts.Fits f.instCount d.size) (hfacts : A.Solves f d facts)
    {limit done passes : Nat} {boundaries : Array FactSet} {t : Tables}
    (h : (A.settle f d (A.boundary d) order limit done
      ⟨Array.replicate f.instCount (A.meet.unit d.size), boundaries⟩).result = .ok (t, passes)) :
    Facts.Pointwise m.Below facts t.facts := by
  refine hA.below_of_settle hf horder hfits (fun b hb => ?_) h
  obtain ⟨s, hs, halong⟩ := hfacts b hb
  exact ⟨s, hs, halong.imp fun t u htu => htu ▸ Mode.Below.refl _ _⟩

theorem IsMonotoneIn.solves_below [DecidableEq α] {m : Mode}
    (hA : A.IsMonotoneIn f (A.domain f) m) (hf : f.WellFormed) {S : Solution α}
    (h : (A.solve f).result = .ok S) {facts : Facts}
    (hfits : facts.Fits f.instCount (A.domain f).size) (hfacts : A.Solves f (A.domain f) facts) :
    Facts.Pointwise m.Below facts S.facts := by
  obtain ⟨-, -, t, passes, hsettle, rfl⟩ := solve_eq_ok_iff.1 h
  exact hA.solves_below_settle hf (fun b hb => Direction.mem_schedule_iff.1 hb) hfits hfacts hsettle

theorem IsMonotone.isExtremal [DecidableEq α] (hA : A.IsMonotone f (A.domain f))
    (hf : f.WellFormed) {S : Solution α} (hsolve : (A.solve f).result = .ok S)
    (hunit : (A.meet.unit (A.domain f).size).width = (A.domain f).size)
    (hpasses : S.passes ≤ f.instCount * (A.domain f).size + 1) : A.IsExtremal f S where
  domain_eq := domain_of_solve hsolve
  fits := fits_of_solve hf hsolve hunit
  solves := solves_of_solve hf hsolve
  greatest hmeet _ hfits hfacts :=
    IsMonotoneIn.solves_below (m := .must) ⟨hA, hmeet⟩ hf hsolve hfits hfacts
  least hmeet _ hfits hfacts k s s' hs hs' :=
    IsMonotoneIn.solves_below (m := .may) ⟨hA, hmeet⟩ hf hsolve hfits hfacts k s' s hs' hs
  passes_le := hpasses

/-- **Solving a monotone analysis** ends, with the extremal solution of its equations. -/
theorem solve_extremal [DecidableEq α] {draft : Draft} (hdraft : draft.toFunction = .ok f)
    (hpre : A.precondition f = .ok ()) (hmeet : A.meet ∈ Meet.all)
    (hA : A.IsMonotone f (A.domain f)) :
    ∃ S, (A.solve f).result = .ok S ∧ A.IsExtremal f S := by
  have hf := Draft.wellFormed_of_toFunction hdraft
  obtain ⟨m, hm⟩ := Mode.mem_all_iff.1 hmeet
  have hAm : A.IsMonotoneIn f (A.domain f) m := ⟨hA, hm⟩
  obtain ⟨S, hsolve, hpasses⟩ := hAm.exists_solve hf hpre
  exact ⟨S, hsolve, hA.isExtremal hf hsolve hAm.meet_keepsWidth.unit_width hpasses⟩

/-- An operand is overwritten around the loop `1 → 2 → 1`, which is entered from the entry and from
block `4`, to which nothing leads. -/
def loopDraft : Draft where
  name := "loop"
  params := 2
  slots := 1
  blockCount := 5
  entries := [
    ⟨0, .binary .add (.slot 0) (.param 0), none⟩,
    ⟨0, .jump 1, none⟩,
    ⟨1, .binary .mul (.param 0) (.param 1), none⟩,
    ⟨1, .branch (.param 1) 2 3, none⟩,
    ⟨2, .binary .add (.slot 0) (.param 0), some (.slot 0)⟩,
    ⟨2, .jump 1, none⟩,
    ⟨3, .ret none, none⟩,
    ⟨4, .jump 1, none⟩]

theorem loopDraft_accepted : loopDraft.toFunction = .ok loopDraft.assemble :=
  Draft.toFunction_eq_ok_iff.2 ⟨by decide, rfl⟩

theorem solve_extremal_loop :
    loopDraft.toFunction = .ok loopDraft.assemble ∧
      ∃ S, (available.solve loopDraft.assemble).result = .ok S ∧
        available.IsExtremal loopDraft.assemble S :=
  ⟨loopDraft_accepted, solve_extremal loopDraft_accepted rfl List.mem_cons_self
    (available_isMonotone (Draft.wellFormed_of_toFunction loopDraft_accepted))⟩

end Analysis

end FactFlow
