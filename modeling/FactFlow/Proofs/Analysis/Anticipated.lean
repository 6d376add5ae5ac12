import FactFlow.Proofs.Solve.Extremal
import FactFlow.Proofs.Solve.MeetOverPaths

/-!
# Anticipated expressions and the paths ahead

An expression is missing from the fact of an instruction iff some path from there never computes it
and ends where one of its operands is redefined or where the function returns
(`Expression.SkippedFrom`, `anticipated_eq_all_paths_ahead`).  A run that never returns is no such
path: around a loop without a way out, everything that the loop does not redefine is anticipated.

Facts are in front of instructions here.  So an instruction that computes an expression and
redefines an operand of it, such as `x := x + y`, does not skip the expression: it reads `x` before
it writes it.
-/

namespace FactFlow

namespace Expression

/-- Some path from `i` never computes `e`, and ends where an operand of `e` is redefined or where
the function returns. -/
def SkippedFrom (f : Function) (e : Expression) (i : Instruction) : Prop :=
  ∃ path j, f.Path i path j ∧ (∀ k ∈ path, ¬ computedBy? k = some e) ∧
    (e.RedefinedBy j ∨ ∃ v, j.kind = .ret v)

variable {f : Function} {e : Expression} {i j : Instruction} {path : List Instruction}

theorem skippedFrom_iff_exposed (hf : f.WellFormed) : e.SkippedFrom f i ↔
    Analysis.Exposed .backward f (fun i e => computedBy? i = some e) (fun i e => e.RedefinedBy i)
      e i := by
  rw [Analysis.exposed_backward_iff]
  refine exists_congr fun path => exists_congr fun j => and_congr_right fun hpath =>
    and_congr_right fun _ => or_congr_right ⟨?_, ?_⟩
  · -- a return ends its block and leads nowhere
    rintro ⟨v, hret⟩
    obtain ⟨b, hb, hj⟩ := Function.mem_instructions_iff.1 hpath.mem_right
    have hlast := hf.last?_of_isTerminator hb hj (by rw [hret]; rfl)
    exact ⟨b, hb, (hf.successors_eq_nil_iff hb hlast).2 ⟨v, hret⟩, hlast⟩
  · rintro ⟨b, hb, hnil, hlast⟩
    exact (hf.successors_eq_nil_iff hb hlast).1 hnil

theorem not_skippedFrom_of_computed (h : computedBy? i = some e) : ¬ e.SkippedFrom f i := by
  rintro ⟨path, j, hpath, hclear, -⟩
  exact hclear i hpath.left_mem h

/-- An expression skipped from the next instruction is skipped from here, unless it is computed
here. -/
theorem SkippedFrom.cons (hj : e.SkippedFrom f j) (hstep : f.Next i j)
    (hi : ¬ computedBy? i = some e) : e.SkippedFrom f i := by
  obtain ⟨path, k, hpath, hclear, hend⟩ := hj
  exact ⟨i :: path, k, .cons hstep hpath, List.forall_mem_cons.2 ⟨hi, hclear⟩, hend⟩

end Expression

namespace Analysis

open Expression

variable {f : Function}

theorem noCriticalEdge_eq_ok_iff : noCriticalEdge f = .ok () ↔ f.criticalEdges = [] := by
  unfold noCriticalEdge
  split
  · rename_i hnil
    simp [hnil]
  · rename_i hcons
    simp [hcons]

theorem anticipated_isMust (hf : f.WellFormed) :
    anticipated.IsMust f (anticipated.domain f) (fun i e => computedBy? i = some e)
      (fun i e => e.RedefinedBy i) where
  toIsGenKill := anticipated_isGenKill hf rfl
  meet_eq := rfl
  plain _ _ _ _ := rfl
  boundary_eq := rfl

theorem exists_anticipated_solve (hf : f.WellFormed) (hedges : f.criticalEdges = []) :
    ∃ ant, (anticipated.solve f).result = .ok ant := by
  obtain ⟨ant, hant, -⟩ :=
    (anticipated_isMust hf).isMonotoneIn.exists_solve hf (noCriticalEdge_eq_ok_iff.2 hedges)
  exact ⟨ant, hant⟩

theorem anticipated_holds_eq_false_iff (hf : f.WellFormed) {ant : Solution Expression}
    (h : (anticipated.solve f).result = .ok ant) {e : Expression}
    (he : e ∈ (anticipated.domain f).elements) {i : Instruction} (hi : i ∈ f.instructions) :
    ant.holds i.id e = .ok false ↔ e.SkippedFrom f i :=
  ((anticipated_isMust hf).holds_eq_false_iff hf h he hi).trans (skippedFrom_iff_exposed hf).symm

theorem anticipated_holds_iff (hf : f.WellFormed) {ant : Solution Expression}
    (h : (anticipated.solve f).result = .ok ant) {e : Expression}
    (he : e ∈ (anticipated.domain f).elements) {i : Instruction} (hi : i ∈ f.instructions) :
    ant.holds i.id e = .ok true ↔ ¬ e.SkippedFrom f i := by
  rw [← anticipated_holds_eq_false_iff hf h he hi]
  obtain ⟨b, hb⟩ := exists_holds_of_solve hf h rfl i.id e
  rw [hb]
  cases b <;> simp

/-- **Anticipated expressions are those that no path ahead skips.** -/
theorem anticipated_eq_all_paths_ahead {draft : Draft} (hdraft : draft.toFunction = .ok f)
    (hedges : f.criticalEdges = []) :
    ∃ ant, (anticipated.solve f).result = .ok ant ∧
      anticipated.Misses f ant fun e i => e.SkippedFrom f i := by
  have hf := Draft.wellFormed_of_toFunction hdraft
  obtain ⟨ant, hant⟩ := exists_anticipated_solve hf hedges
  exact ⟨ant, hant, (anticipated_isMust hf).misses hf hant (skippedFrom_iff_exposed hf)⟩

/-- One arm overwrites an operand of the sum that it computes, a phi joins the two arms, and behind
it control either returns or stays in block `5` forever. -/
def spinDraft : Draft where
  name := "spin"
  params := 2
  slots := 1
  blockCount := 7
  entries := [
    ⟨0, .branch (.param 0) 1 2, none⟩,
    ⟨1, .binary .add (.slot 0) (.param 1), some (.slot 0)⟩,
    ⟨1, .jump 3, none⟩,
    ⟨2, .jump 3, none⟩,
    ⟨3, .phi [⟨.param 0, 1⟩, ⟨.param 1, 2⟩], none⟩,
    ⟨3, .binary .mul (.result 4) (.param 1), none⟩,
    ⟨3, .branch (.param 1) 4 6, none⟩,
    ⟨4, .jump 5, none⟩,
    ⟨5, .jump 5, none⟩,
    ⟨6, .ret none, none⟩]

theorem spinDraft_accepted : spinDraft.toFunction = .ok spinDraft.assemble :=
  Draft.toFunction_eq_ok_iff.2 ⟨by decide, rfl⟩

theorem anticipated_eq_all_paths_ahead_spin :
    spinDraft.toFunction = .ok spinDraft.assemble ∧ spinDraft.assemble.criticalEdges = [] ∧
      ∃ ant, (anticipated.solve spinDraft.assemble).result = .ok ant ∧
        anticipated.Misses spinDraft.assemble ant fun e i => e.SkippedFrom spinDraft.assemble i :=
  ⟨spinDraft_accepted, rfl, anticipated_eq_all_paths_ahead spinDraft_accepted rfl⟩

end Analysis

end FactFlow
