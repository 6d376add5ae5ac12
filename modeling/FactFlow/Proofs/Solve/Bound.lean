import FactFlow.Proofs.Solve.Pass
import Mathlib.Data.Fintype.BigOperators

/-!
# The bound on passes

`Analysis.solve` gives a run up after as many passes as there are tables of facts
(`Analysis.tableCount`).  No answer is lost by that: a run that is given up would never have ended
(`Analysis.solve_unsettled_iff`).

What a pass does depends on the facts that it finds and on there being a place for each boundary,
not on the boundaries themselves (`Tables.Alike`).  So it is decided by the facts how many passes
are still to come (`Analysis.Ends.unique`), and a run that ends meets no table of facts twice.
There are `2 ^ (n * w)` tables of `n` facts of width `w`.
-/

namespace FactFlow

/-! ### Counting tables -/

namespace Facts

/-- Whether position `p` is in the fact of instruction `i`. -/
def testAt (facts : Facts) (i p : Nat) : Bool := facts[i]?.any (·.test p)

theorem eq_of_testAt {facts facts' : Facts} {n w : Nat} (h : facts.Fits n w)
    (h' : facts'.Fits n w) (heq : ∀ i < n, ∀ p < w, facts.testAt i p = facts'.testAt i p) :
    facts = facts' := by
  refine Array.ext_getElem? fun i => ?_
  by_cases hi : i < n
  · obtain ⟨u, hu, hw⟩ := h.exists_getElem? hi
    obtain ⟨u', hu', hw'⟩ := h'.exists_getElem? hi
    rw [hu, hu', Option.some.injEq]
    refine FactSet.eq_of_test (hw.trans hw'.symm) fun p => ?_
    by_cases hp : p < w
    · simpa [testAt, hu, hu'] using heq i hi p hp
    · rw [u.test_of_le (by omega), u'.test_of_le (by omega)]
  · rw [Array.getElem?_eq_none (by rw [h.size_eq]; omega),
      Array.getElem?_eq_none (by rw [h'.size_eq]; omega)]

/-- Different tables are told apart by the positions of their facts, so there are `2 ^ (n * w)`. -/
theorem card_le {n w count : Nat} (table : Fin count → Facts) (hfits : ∀ j, (table j).Fits n w)
    (hinj : ∀ j k, table j = table k → j = k) : count ≤ 2 ^ (n * w) := by
  let code (j : Fin count) (i : Fin n) (p : Fin w) : Bool := (table j).testAt i p
  have hcode : Function.Injective code := by
    intro j k hjk
    refine hinj j k (eq_of_testAt (hfits j) (hfits k) fun i hi p hp => ?_)
    exact congrFun (congrFun hjk ⟨i, hi⟩) ⟨p, hp⟩
  have hcard := Fintype.card_le_of_injective code hcode
  rwa [Fintype.card_fin, Fintype.card_fun, Fintype.card_fun, Fintype.card_fin, Fintype.card_fin,
    Fintype.card_bool, ← pow_mul, Nat.mul_comm] at hcard

end Facts

/-- The same facts, and as many places for boundaries. -/
structure Tables.Alike (t t' : Tables) : Prop where
  /-- The facts are the same. -/
  facts : t.facts = t'.facts
  /-- There are as many boundaries. -/
  boundaries : t.boundaries.size = t'.boundaries.size

theorem Tables.Alike.symm {t t' : Tables} (h : t.Alike t') : t'.Alike t :=
  ⟨h.facts.symm, h.boundaries.symm⟩

namespace Analysis

variable {α : Type} {A : Analysis α} {f : Function} {d : Domain α} {boundary : FactSet}
  {order : List Block}

/-! ### What is still to come -/

/-- From `t` on, `k` passes change something, and the one behind them faults or changes nothing. -/
def Ends (A : Analysis α) (f : Function) (d : Domain α) (boundary : FactSet)
    (order : List Block) : Nat → Tables → Prop
  | 0, t => ∀ t' n, A.pass f d boundary order t = .ok (t', n) → n = 0
  | k + 1, t => ∃ t' n, A.pass f d boundary order t = .ok (t', n) ∧ n ≠ 0 ∧
      Ends A f d boundary order k t'

theorem Ends.unique {k k' : Nat} {t : Tables} (h : A.Ends f d boundary order k t)
    (h' : A.Ends f d boundary order k' t) : k = k' := by
  induction k generalizing k' t with
  | zero =>
    cases k' with
    | zero => rfl
    | succ k' =>
      obtain ⟨t₁, n, hpass, hne, -⟩ := h'
      exact absurd (h t₁ n hpass) hne
  | succ k ih =>
    obtain ⟨t₁, n, hpass, hne, hrest⟩ := h
    cases k' with
    | zero => exact absurd (h' t₁ n hpass) hne
    | succ k' =>
      obtain ⟨t₂, n', hpass', -, hrest'⟩ := h'
      cases hpass.symm.trans hpass'
      rw [ih hrest hrest']

/-- A run that is not given up ends, and its passes are counted. -/
theorem exists_ends_of_settle {limit done : Nat} {t : Tables}
    (h : (A.settle f d boundary order limit done t).result ≠ .error .unsettled) :
    ∃ k < limit, A.Ends f d boundary order k t ∧ ∀ t' passes,
      (A.settle f d boundary order limit done t).result = .ok (t', passes) →
        passes = done + k + 1 := by
  induction limit generalizing done t with
  | zero => exact absurd rfl h
  | succ limit ih =>
    rw [result_settle_succ] at h ⊢
    cases hpass : A.pass f d boundary order t with
    | error e =>
      refine ⟨0, Nat.succ_pos _, fun t' n h => ?_, fun t' passes h => by cases h⟩
      rw [hpass] at h
      cases h
    | ok r =>
      obtain ⟨t₁, n⟩ := r
      rw [hpass] at h
      simp only [Except.mapError, Outcome.ok_bind] at h ⊢
      by_cases hzero : n = 0
      · refine ⟨0, Nat.succ_pos _, fun t' n' h => ?_, fun t' passes h => ?_⟩
        · cases hpass.symm.trans h
          exact hzero
        · rw [if_pos hzero] at h
          cases h
          rfl
      · rw [if_neg hzero] at h ⊢
        obtain ⟨k, hk, hends, hpasses⟩ := ih h
        refine ⟨k + 1, Nat.succ_lt_succ hk, ⟨t₁, n, hpass, hzero, hends⟩, fun t' passes h => ?_⟩
        rw [hpasses t' passes h]
        omega

/-- **Every limit that leaves room for the passes to come gives the same result.** -/
theorem Ends.settle_eq {k : Nat} {t : Tables} (h : A.Ends f d boundary order k t)
    {limit limit' : Nat} (hk : k < limit) (hk' : k < limit') (done : Nat) :
    (A.settle f d boundary order limit done t).result =
      (A.settle f d boundary order limit' done t).result := by
  induction k generalizing limit limit' done t with
  | zero =>
    obtain ⟨room, rfl⟩ := Nat.exists_eq_succ_of_ne_zero (Nat.ne_of_gt hk)
    obtain ⟨room', rfl⟩ := Nat.exists_eq_succ_of_ne_zero (Nat.ne_of_gt hk')
    rw [result_settle_succ, result_settle_succ]
    cases hpass : A.pass f d boundary order t with
    | error e => rfl
    | ok r =>
      have hzero : r.2 = 0 := h r.1 r.2 hpass
      simp only [Except.mapError, Outcome.ok_bind, if_pos hzero]
  | succ k ih =>
    obtain ⟨room, rfl⟩ := Nat.exists_eq_succ_of_ne_zero (Nat.ne_zero_of_lt hk)
    obtain ⟨room', rfl⟩ := Nat.exists_eq_succ_of_ne_zero (Nat.ne_zero_of_lt hk')
    obtain ⟨t₁, n, hpass, hne, hrest⟩ := h
    rw [result_settle_succ, result_settle_succ, hpass]
    simp only [Except.mapError, Outcome.ok_bind, if_neg hne]
    exact ih hrest (Nat.lt_of_succ_lt_succ hk) (Nat.lt_of_succ_lt_succ hk') (done + 1)

/-- A run that settles does so under every limit that leaves room for its passes. -/
theorem settle_of_le {limit done passes : Nat} {t t' : Tables}
    (h : (A.settle f d boundary order limit done t).result = .ok (t', passes)) {limit' : Nat}
    (hle : passes ≤ done + limit') :
    (A.settle f d boundary order limit' done t).result = .ok (t', passes) := by
  obtain ⟨k, hk, hends, hpasses⟩ := exists_ends_of_settle (by rw [h]; simp)
  have hcount := hpasses t' passes h
  rw [← h]
  exact hends.settle_eq (by omega) hk done

/-! ### The facts decide -/

section

variable (hf : f.WellFormed)
include hf

/-- Visits of alike tables change the facts alike. -/
theorem visit_alike {b : Block} (hb : b ∈ f.blocks) {t t₁ t' : Tables} {n : Nat}
    (halike : t.Alike t') (h : A.visit f d boundary t b = .ok (t₁, n)) :
    ∃ t₁', A.visit f d boundary t' b = .ok (t₁', n) ∧ t₁.Alike t₁' := by
  obtain ⟨s, hs, hlt, hflow, hset⟩ := (visit_eq_ok_iff hf hb).1 h
  rw [halike.facts] at hs hflow
  rw [halike.boundaries] at hlt
  refine ⟨⟨t₁.facts, t'.boundaries.setIfInBounds b.id s⟩,
    (visit_eq_ok_iff hf hb).2 ⟨s, hs, hlt, hflow, rfl⟩, rfl, ?_⟩
  rw [hset, Array.size_setIfInBounds, Array.size_setIfInBounds, halike.boundaries]

variable (horder : ∀ b ∈ order, b ∈ f.blocks)
include horder

theorem pass_alike {t t₁ t' : Tables} {n : Nat} (halike : t.Alike t')
    (h : A.pass f d boundary order t = .ok (t₁, n)) :
    ∃ t₁', A.pass f d boundary order t' = .ok (t₁', n) ∧ t₁.Alike t₁' := by
  induction order generalizing t t' n with
  | nil =>
    cases h
    exact ⟨t', rfl, halike⟩
  | cons b rest ih =>
    obtain ⟨hb, hrest⟩ := List.forall_mem_cons.1 horder
    obtain ⟨t₂, k₁, k₂, hvisit, hpass, rfl⟩ := pass_cons_eq_ok_iff.1 h
    obtain ⟨t₂', hvisit', halike₂⟩ := visit_alike hf hb halike hvisit
    obtain ⟨t₁', hpass', halike₁⟩ := ih hrest halike₂ hpass
    exact ⟨t₁', pass_cons_eq_ok_iff.2 ⟨t₂', k₁, k₂, hvisit', hpass', rfl⟩, halike₁⟩

theorem Ends.alike {k : Nat} {t t' : Tables} (halike : t.Alike t')
    (h : A.Ends f d boundary order k t) : A.Ends f d boundary order k t' := by
  induction k generalizing t t' with
  | zero =>
    intro t₁ n hpass
    obtain ⟨t₁', hpass', -⟩ := pass_alike hf horder halike.symm hpass
    exact h t₁' n hpass'
  | succ k ih =>
    obtain ⟨t₁, n, hpass, hne, hrest⟩ := h
    obtain ⟨t₁', hpass', halike₁⟩ := pass_alike hf horder halike hpass
    exact ⟨t₁', n, hpass', hne, ih halike₁ hrest⟩

variable {width : Nat}

/-- On its way to the end a run comes through a table for each number of passes to come. -/
theorem Ends.exists_table {k : Nat} {t : Tables} (h : A.Ends f d (A.boundary d) order k t)
    (hfits : t.Fits f width) {j : Nat} (hj : j ≤ k) :
    ∃ t' : Tables, t'.Fits f width ∧ A.Ends f d (A.boundary d) order j t' := by
  induction k generalizing t with
  | zero =>
    obtain rfl : j = 0 := Nat.le_zero.1 hj
    exact ⟨t, hfits, h⟩
  | succ k ih =>
    rcases Nat.of_le_succ hj with hj | rfl
    · obtain ⟨t₁, n, hpass, -, hrest⟩ := h
      exact ih hrest (fits_of_pass hf horder hfits hpass) hj
    · exact ⟨t, hfits, h⟩

/-- **A run that ends meets no table twice**, so it has fewer passes to come than there are
tables. -/
theorem Ends.lt_card {k : Nat} {t : Tables} (h : A.Ends f d (A.boundary d) order k t)
    (hfits : t.Fits f width) : k < 2 ^ (f.instCount * width) := by
  choose table htable hends using fun j : Fin (k + 1) =>
    h.exists_table hf horder hfits (Nat.le_of_lt_succ j.isLt)
  refine Facts.card_le (fun j => (table j).facts) (fun j => (htable j).facts) ?_
  intro i j hij
  have halike : (table i).Alike (table j) :=
    ⟨hij, (htable i).boundaries.trans (htable j).boundaries.symm⟩
  exact Fin.ext (((hends i).alike hf horder halike).unique (hends j))

/-- **Under a limit of all tables a run ends if it does under any limit**, and in the same way. -/
theorem settle_eq_of_ne_unsettled {t : Tables} (hfits : t.Fits f width) {limit done : Nat}
    (h : (A.settle f d (A.boundary d) order limit done t).result ≠ .error .unsettled) :
    (A.settle f d (A.boundary d) order (2 ^ (f.instCount * width)) done t).result =
      (A.settle f d (A.boundary d) order limit done t).result := by
  obtain ⟨k, hk, hends, -⟩ := exists_ends_of_settle h
  exact hends.settle_eq (hends.lt_card hf horder hfits) hk done

end

/-- **The solver gives a run up iff it would go on forever**, however many passes were allowed. -/
theorem solve_unsettled_iff [DecidableEq α] (hf : f.WellFormed) :
    (A.solve f).result = .error .unsettled ↔
      A.precondition f = .ok () ∧ (A.boundary (A.domain f)).width = (A.domain f).size ∧
        ∀ limit, (A.settle f (A.domain f) (A.boundary (A.domain f)) (A.direction.schedule f) limit
          0 (A.start f (A.domain f) (A.boundary (A.domain f)))).result = .error .unsettled := by
  rw [solve_eq_error_iff]
  simp only [reduceCtorEq, and_false, exists_false, false_or]
  refine and_congr_right fun _ => and_congr_right fun _ => ⟨fun h limit => ?_, fun h => h _⟩
  by_contra hne
  have hsame := settle_eq_of_ne_unsettled hf (fun b hb => Direction.mem_schedule_iff.1 hb)
    (fits_start (A.boundary (A.domain f))) hne
  rw [← hsame] at hne
  exact hne h

end Analysis

end FactFlow
