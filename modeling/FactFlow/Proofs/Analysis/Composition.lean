import FactFlow.Proofs.Analysis.Totality
import FactFlow.Proofs.Solve.Reading

/-!
# Composition with a solution found elsewhere

The will-be-available expressions of a function are composed from its own kill-only pass and from a
solution that the caller hands in.  That solution need not be the anticipated one, nor belong to the
function at hand.  Three checks stand between it and the sets of the pass: the function must have no
critical arm, the solution as many facts as the function has instructions, and its elements must be
the expressions of the function in the same order.  The third check is made only after the pass has
settled.

Nothing checks the widths of the facts that are handed in.  They fit because every solution is in
shape (`Solution.Found.shaped`), so the domain decides their width
(`WillBeAvailable.composesWith_of_found`).
-/

namespace FactFlow

/-- The expressions that a function computes, each at its first occurrence. -/
def Function.expressions (f : Function) : List Expression :=
  (f.instructions.filterMap Expression.computedBy?).eraseDups

namespace Analysis

/-- The domain of an analysis of expressions has the expressions of the function. -/
theorem elements_domain_of_contributed {A : Analysis Expression} {f : Function}
    (h : ∀ i, A.contribute f i = Expression.contributed i) :
    (A.domain f).elements = f.expressions := by
  change (Domain.ofElements (f.instructions.flatMap (A.contribute f))).elements = _
  rw [funext h, Domain.elements_ofElements, Function.expressions,
    List.filterMap_eq_flatMap_toList]
  rfl

namespace WillBeAvailable

/-- Set `u` has the positions of `s` and those of `t`, and no others. -/
structure IsUnion (u s t : FactSet) : Prop where
  /-- The first set is as wide. -/
  width_left : s.width = u.width
  /-- So is the second. -/
  width_right : t.width = u.width
  /-- Each position, in either of them. -/
  test_eq : ∀ p, u.test p = (s.test p || t.test p)

/-- Solution `S` is `own` with the facts of `X` on top, instruction by instruction and block by
block. -/
structure IsOverlaid (f : Function) (own X S : Solution Expression) : Prop where
  /-- All but the two tables is as it was. -/
  eq_own : S = { own with facts := S.facts, boundaries := S.boundaries }
  /-- The elements are the expressions of the function. -/
  elements_eq : S.domain.elements = f.expressions
  /-- The tables are those of a solution for the function. -/
  shaped : S.Shaped f
  /-- The fact of an instruction is joined with the fact of the same number. -/
  fact : ∀ {k i}, f.instruction? k = some i → ∃ s x u, own.fact? k = some s ∧
    X.fact? k = some x ∧ S.fact? k = some u ∧ IsUnion u s x
  /-- The boundary of a block is joined with the fact of its first instruction. -/
  boundary : ∀ {b blk}, f.block? b = some blk → ∃ i s x u, blk.first? = some i ∧
    own.boundary? b = some s ∧ X.fact? i.id = some x ∧ S.boundary? b = some u ∧ IsUnion u s x

/-- How composing with `X` ends on `f`: the first check that fails is the answer, and if none fails
there is a solution. -/
structure ComposesWith (f : Function) (X : Solution Expression) : Prop where
  /-- Nothing faults and nothing is given up: every failure is a refusal. -/
  refused : ∀ {e : Failure}, (solve X f).result = .error e → ∃ r, e = .refused r
  /-- The first critical arm is refused. -/
  critical : ∀ x, f.IsCritical x → ∃ first, f.IsFirstCritical first ∧
    (solve X f).result = .error (.refused (.criticalEdge first.source first.target))
  /-- Another number of facts is refused. -/
  count : (∀ x, ¬ f.IsCritical x) → X.facts.size ≠ f.instCount →
    (solve X f).result = .error (.refused (.resultMismatch f.instCount X.facts.size))
  /-- Other elements, or another order, are refused. -/
  elements : (∀ x, ¬ f.IsCritical x) → X.facts.size = f.instCount →
    X.domain.elements ≠ f.expressions → (solve X f).result =
      .error (.refused (.domainMismatch f.expressions.length X.domain.size))
  /-- All else is composed. -/
  overlaid : (∀ x, ¬ f.IsCritical x) → X.facts.size = f.instCount →
    X.domain.elements = f.expressions → ∃ own S, ((willBeAvailable X).solve f).result = .ok own ∧
      (solve X f).result = .ok S ∧ IsOverlaid f own X S

variable {f : Function} {X own S : Solution Expression}

/-! ### The three checks -/

/-- The pass discovers the expressions of the function. -/
theorem elements_of_solve (hown : ((willBeAvailable X).solve f).result = .ok own) :
    own.domain.elements = f.expressions := by
  rw [domain_of_solve hown]
  exact elements_domain_of_contributed fun _ => rfl

theorem agrees_iff {d e : Domain Expression} : d.agrees e = true ↔ d.elements = e.elements :=
  beq_iff_eq

/-- What the pass refuses, the composition refuses. -/
theorem solve_refused {e : Error} (h : (willBeAvailable X).precondition f = .error e) :
    (solve X f).result = .error (.refused e) := by
  rw [solve, Traced.result_bind, solve_eq_refused h]
  rfl

theorem solve_critical (hf : f.WellFormed) {x : Arm} (hx : f.IsCritical x) :
    ∃ first, f.IsFirstCritical first ∧
      (solve X f).result = .error (.refused (.criticalEdge first.source first.target)) := by
  obtain ⟨first, hfirst, hedge⟩ := noCriticalEdge_refused hf hx
  refine ⟨first, hfirst, solve_refused ?_⟩
  change (noCriticalEdge f >>= _) = _
  rw [hedge]
  rfl

theorem solve_resultMismatch (hedges : noCriticalEdge f = .ok ())
    (hsize : X.facts.size ≠ f.instCount) :
    (solve X f).result = .error (.refused (.resultMismatch f.instCount X.facts.size)) := by
  refine solve_refused ?_
  change (noCriticalEdge f >>= _) = _
  rw [hedges]
  exact if_neg hsize

theorem solve_domainMismatch (hf : f.WellFormed) (hedges : noCriticalEdge f = .ok ())
    (hsize : X.facts.size = f.instCount) (helements : X.domain.elements ≠ f.expressions) :
    (solve X f).result =
      .error (.refused (.domainMismatch f.expressions.length X.domain.size)) := by
  obtain ⟨own, hown⟩ := exists_willBeAvailable_solve hf hedges hsize
  have hdomain := elements_of_solve hown
  have hagrees : ¬ own.domain.agrees X.domain = true := fun h =>
    helements ((agrees_iff.1 h).symm.trans hdomain)
  rw [solve, Traced.result_bind, hown, Outcome.ok_bind, addAnticipated, if_neg hagrees, ← hdomain]
  rfl

/-! ### What is composed -/

theorem isUnion_of_joined {s t u : FactSet} (h : joined s (some t) = .ok u) : IsUnion u s t := by
  obtain ⟨hw, hu, htest⟩ := joined_eq_ok_iff.1 h
  refine ⟨hu.symm, (hw t rfl).symm.trans hu.symm, fun p => Bool.eq_iff_iff.2 ?_⟩
  simp [htest p]

theorem exists_fact? (hf : f.WellFormed) (hsize : X.facts.size = f.instCount) {i : Instruction}
    (hi : i ∈ f.instructions) : ∃ x, X.fact? i.id = some x :=
  ⟨_, Array.getElem?_eq_getElem (hsize ▸ hf.id_lt hi)⟩

theorem IsJoined.isOverlaid (hf : f.WellFormed) (h : IsJoined f own X S) (hown : own.Shaped f)
    (helements : own.domain.elements = f.expressions) (hsize : X.facts.size = f.instCount) :
    IsOverlaid f own X S where
  eq_own := h.eq_own
  elements_eq := h.domain_eq ▸ helements
  shaped := hown.of_isJoined h
  fact {k i} hi := by
    obtain ⟨hmem, rfl⟩ := Function.mem_of_instruction? hi
    obtain ⟨s, hs, -⟩ := hown.facts.exists_getElem? (hf.id_lt hmem)
    obtain ⟨x, hx⟩ := exists_fact? hf hsize hmem
    obtain ⟨u, hu, hjoin⟩ := h.fact hs
    rw [hx] at hjoin
    exact ⟨s, x, u, hs, hx, hu, isUnion_of_joined hjoin⟩
  boundary {b blk} hblk := by
    have hb := Function.mem_blocks_of_block? hblk
    obtain ⟨i, hi⟩ := hf.exists_first hb
    have hmem : i ∈ f.instructions :=
      Function.mem_instructions_iff.2 ⟨blk, hb, List.mem_of_head? hi⟩
    obtain ⟨s, hs, -⟩ := hown.boundaries.exists_getElem? (List.getElem?_eq_some_iff.1 hblk).1
    obtain ⟨x, hx⟩ := exists_fact? hf hsize hmem
    obtain ⟨u, hu, hjoin⟩ := h.boundary hs
    have hfirst : firstFact? f X b = some x := by
      rw [firstFact?, hblk, Option.bind_some, hi, Option.bind_some, hx]
    rw [hfirst] at hjoin
    exact ⟨i, s, x, u, hi, hs, hx, hu, isUnion_of_joined hjoin⟩

/-- Facts of a solution in shape can be added where the elements are the same: they are as wide as
those of the pass. -/
theorem exists_isOverlaid (hf : f.WellFormed) {g : Function} (hX : X.Shaped g)
    (hedges : noCriticalEdge f = .ok ()) (hsize : X.facts.size = f.instCount)
    (helements : X.domain.elements = f.expressions) :
    ∃ own S, ((willBeAvailable X).solve f).result = .ok own ∧ (solve X f).result = .ok S ∧
      IsOverlaid f own X S := by
  obtain ⟨own, hown⟩ := exists_willBeAvailable_solve hf hedges hsize
  have hshaped := Solution.shaped_of_solve hf hown (Mode.must.checksWidth _)
  have hdomain := elements_of_solve hown
  have hsame : own.domain.elements = X.domain.elements := hdomain.trans helements.symm
  have hwidth : X.domain.size = own.domain.size := (congrArg List.length hsame).symm
  obtain ⟨S, hS⟩ := exists_addAnticipated (f := f) (agrees_iff.2 hsame) hshaped.facts.width_eq
    hshaped.boundaries.width_eq fun ht => (hX.facts.width_eq ht).trans hwidth
  exact ⟨own, S, hown, composed_eq_ok_iff.2 ⟨own, hown, hS⟩,
    (addAnticipated_spec hS).isOverlaid hf hshaped hdomain hsize⟩

/-- One of the checks fails, or the facts are added. -/
theorem exists_refused (hf : f.WellFormed) {g : Function} (hX : X.Shaped g) {e : Failure}
    (h : (solve X f).result = .error e) : ∃ r, e = .refused r := by
  by_cases hcritical : ∃ x, f.IsCritical x
  · obtain ⟨x, hx⟩ := hcritical
    obtain ⟨first, -, hrefused⟩ := solve_critical (X := X) hf hx
    exact ⟨_, Except.error.inj (h.symm.trans hrefused)⟩
  · have hedges := noCriticalEdge_eq_ok_iff.2
      (hf.criticalEdges_eq_nil_iff.2 (not_exists.1 hcritical))
    by_cases hsize : X.facts.size = f.instCount
    · by_cases helements : X.domain.elements = f.expressions
      · obtain ⟨-, S, -, hS, -⟩ := exists_isOverlaid hf hX hedges hsize helements
        cases h.symm.trans hS
      · exact ⟨_, Except.error.inj
          (h.symm.trans (solve_domainMismatch hf hedges hsize helements))⟩
    · exact ⟨_, Except.error.inj (h.symm.trans (solve_resultMismatch hedges hsize))⟩

/-- One block computes a sum and jumps to another, which returns. -/
def hopDraft : Draft where
  name := "hop"
  params := 2
  blockCount := 2
  entries := [
    ⟨0, .binary .add (.param 0) (.param 1), none⟩,
    ⟨0, .jump 1, none⟩,
    ⟨1, .ret none, none⟩]

theorem hopDraft_accepted : hopDraft.toFunction = .ok hopDraft.assemble :=
  Draft.toFunction_eq_ok_iff.2 ⟨by decide, rfl⟩

/-- **Composition with any solution is checked and safe**: whichever function the solution was found
for and whichever analysis found it. -/
theorem composesWith_of_found {draft draft' : Draft} {g : Function}
    (hdraft : draft.toFunction = .ok f) (hdraft' : draft'.toFunction = .ok g) (hX : X.Found g) :
    ComposesWith f X := by
  have hf := Draft.wellFormed_of_toFunction hdraft
  have hshaped := hX.shaped (Draft.wellFormed_of_toFunction hdraft')
  have hedges : (∀ x, ¬ f.IsCritical x) → noCriticalEdge f = .ok () := fun h =>
    noCriticalEdge_eq_ok_iff.2 (hf.criticalEdges_eq_nil_iff.2 h)
  exact
    { refused := exists_refused hf hshaped
      critical := fun _ hx => solve_critical hf hx
      count := fun h hsize => solve_resultMismatch (hedges h) hsize
      elements := fun h hsize helements => solve_domainMismatch hf (hedges h) hsize helements
      overlaid := fun h hsize helements =>
        exists_isOverlaid hf hshaped (hedges h) hsize helements }

/-- The available expressions of another function, a loop through its entry, pass all checks. -/
theorem composesWith_of_found_hop :
    hopDraft.toFunction = .ok hopDraft.assemble ∧ backDraft.toFunction = .ok backDraft.assemble ∧
      (∀ x, ¬ hopDraft.assemble.IsCritical x) ∧
      ∃ X, (available.solve backDraft.assemble).result = .ok X ∧
        X.facts.size = hopDraft.assemble.instCount ∧
        X.domain.elements = hopDraft.assemble.expressions ∧ ComposesWith hopDraft.assemble X := by
  have hf := Draft.wellFormed_of_toFunction hopDraft_accepted
  have hg := Draft.wellFormed_of_toFunction backDraft_accepted
  obtain ⟨X, hX⟩ := exists_available_solve hg
  have hsize : X.facts.size = hopDraft.assemble.instCount := facts_size_of_solve hg hX
  have helements : X.domain.elements = hopDraft.assemble.expressions := by
    rw [domain_of_solve hX]
    decide
  exact ⟨hopDraft_accepted, backDraft_accepted, hf.criticalEdges_eq_nil_iff.1 rfl, X, hX, hsize,
    helements, composesWith_of_found hopDraft_accepted backDraft_accepted
      (.solved (Mode.must.checksWidth _) hX)⟩

end WillBeAvailable

end Analysis

end FactFlow
