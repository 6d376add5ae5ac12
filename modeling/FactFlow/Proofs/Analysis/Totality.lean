import FactFlow.Proofs.Analysis.Available
import FactFlow.Proofs.Analysis.Liveness
import FactFlow.Proofs.Analysis.WillBeAvailable
import FactFlow.Proofs.Program.Edges
import FactFlow.Proofs.Solve.Faults

/-!
# Which functions the analyses accept

Available expressions and live variables are found on every function that comes out of a draft.
Anticipated expressions are refused on critical edges and on nothing else, and the refusal names the
first critical arm, by block and then by place in the terminator.  Wherever they are found, the
will-be-available expressions are found from them.  So no run of these analyses meets a fault, and
no run of any analysis meets one that is not its own doing (`Analysis.runs_of_toFunction`).
-/

namespace FactFlow

namespace Analysis

/-- How the analyses end on `f`. -/
structure RunsOn (f : Function) : Prop where
  /-- The solver misses no index: every fault is the doing of the analysis. -/
  faults : ∀ {α : Type} [DecidableEq α] (A : Analysis α) {e : Fault},
    (A.solve f).result = .error (.fault e) → A.Causes f (A.domain f) e
  /-- Available expressions are found. -/
  available : ∃ S, (available.solve f).result = .ok S
  /-- Live variables are found. -/
  liveness : ∃ S, (liveness.solve f).result = .ok S
  /-- Anticipated expressions are found iff no arm is critical. -/
  anticipated_iff : (∃ ant, (anticipated.solve f).result = .ok ant) ↔ ∀ x, ¬ f.IsCritical x
  /-- Otherwise the first critical arm is the reason why not. -/
  anticipated_refused : ∀ x, f.IsCritical x → ∃ first, f.IsFirstCritical first ∧
    (anticipated.solve f).result = .error (.refused (.criticalEdge first.source first.target))
  /-- Will-be-available expressions are found from the anticipated ones. -/
  willBeAvailable : ∀ ant, (anticipated.solve f).result = .ok ant →
    ∃ S, (WillBeAvailable.solve ant f).result = .ok S

variable {f : Function}

/-- A function that the analysis does not accept is refused before anything else is done. -/
theorem solve_eq_refused {α : Type} [DecidableEq α] {A : Analysis α} {e : Error}
    (h : A.precondition f = .error e) : (A.solve f).result = .error (.refused e) :=
  solve_eq_error_iff.2 (.inl ⟨e, h, rfl⟩)

theorem anticipated_solve_iff (hf : f.WellFormed) :
    (∃ ant, (anticipated.solve f).result = .ok ant) ↔ ∀ x, ¬ f.IsCritical x := by
  rw [← hf.criticalEdges_eq_nil_iff]
  constructor
  · rintro ⟨ant, hant⟩
    exact noCriticalEdge_eq_ok_iff.1 (solve_eq_ok_iff.1 hant).1
  · exact exists_anticipated_solve hf

theorem noCriticalEdge_refused (hf : f.WellFormed) {x : Arm} (hx : f.IsCritical x) :
    ∃ first, f.IsFirstCritical first ∧
      noCriticalEdge f = .error (.criticalEdge first.source first.target) := by
  cases hedges : f.criticalEdges with
  | nil => exact absurd hx (hf.criticalEdges_eq_nil_iff.1 hedges x)
  | cons edge rest =>
    obtain ⟨a, t⟩ := edge
    obtain ⟨k, hfirst⟩ := hf.exists_isFirstCritical hedges
    exact ⟨⟨a, k, t⟩, hfirst, by rw [noCriticalEdge, hedges]⟩

theorem anticipated_refused (hf : f.WellFormed) {x : Arm} (hx : f.IsCritical x) :
    ∃ first, f.IsFirstCritical first ∧
      (anticipated.solve f).result =
        .error (.refused (.criticalEdge first.source first.target)) := by
  obtain ⟨first, hfirst, hpre⟩ := noCriticalEdge_refused hf hx
  exact ⟨first, hfirst, solve_eq_refused hpre⟩

/-- **The analyses run on every function that comes out of a draft**, and the one refusal is that of
critical edges. -/
theorem runs_of_toFunction {draft : Draft} (hdraft : draft.toFunction = .ok f) : RunsOn f := by
  have hf := Draft.wellFormed_of_toFunction hdraft
  exact
    { faults := fun _ => causes_of_solve hf
      available := exists_available_solve hf
      liveness := exists_liveness_solve hf
      anticipated_iff := anticipated_solve_iff hf
      anticipated_refused := fun _ hx => anticipated_refused hf hx
      willBeAvailable := fun _ hant => by
        obtain ⟨S, hS, -⟩ := exists_isComposed hf hant
        exact ⟨S, hS⟩ }

/-- Both arms of the branch of block `2` are critical. -/
theorem runs_of_toFunction_swap :
    swapDraft.toFunction = .ok swapDraft.assemble ∧
      (anticipated.solve swapDraft.assemble).result = .error (.refused (.criticalEdge 2 1)) ∧
      RunsOn swapDraft.assemble :=
  ⟨swapDraft_accepted, solve_eq_refused rfl, runs_of_toFunction swapDraft_accepted⟩

end Analysis

end FactFlow
