import FactFlow.Analysis.Available
import FactFlow.Analysis.WillBeAvailable
import FactFlow.Proofs.Domain
import FactFlow.Proofs.Solve.Equations

/-!
# Gen and kill

All analyses here decide each element by itself: an instruction *generates* some elements, *kills*
some, and passes the others on.  `Analysis.IsGenKill` says this about the transfer of an analysis,
and it makes the analysis monotone (`Analysis.IsGenKill.isMonotone`).

* `Expression.kill_spec`, `Expression.generate_spec` : the two steps of the expression analyses,
  element by element.
* `Analysis.available_isGenKill` : an instruction generates the expression that it computes, unless
  it redefines an operand of that expression.
* `Analysis.anticipated_isGenKill` : read backwards, the redefinition comes after the computation,
  so the expression is generated in any case.
* `Analysis.willBeAvailable_isGenKill` : nothing is generated.
-/

namespace FactFlow

namespace FactSet

theorem exists_insert {s : FactSet} {k : Nat} (hk : k < s.width) :
    ∃ t, s.insert k = .ok t ∧ t.width = s.width ∧
      ∀ p, t.test p = true ↔ p = k ∨ s.test p = true := by
  refine ⟨s.insertAt k hk, by rw [insert, dif_pos hk], rfl, fun p => ?_⟩
  simp

theorem exists_erase {s : FactSet} {k : Nat} (hk : k < s.width) :
    ∃ t, s.erase k = .ok t ∧ t.width = s.width ∧
      ∀ p, t.test p = true ↔ p ≠ k ∧ s.test p = true := by
  refine ⟨s.eraseAt k hk, by rw [erase, dif_pos hk], rfl, fun p => ?_⟩
  simp

end FactSet

namespace Domain

variable {α : Type} {d : Domain α} {gen kill : α → Prop}

/-- Set `t` has the generated elements, and those of `s` that are not killed. -/
def Updates (d : Domain α) (gen kill : α → Prop) (s t : FactSet) : Prop :=
  t.width = d.size ∧ ∀ {p : Nat} {e : α}, d.get? p = some e →
    (t.test p = true ↔ gen e ∨ s.test p = true ∧ ¬ kill e)

theorem Updates.mono {x y x' y' : FactSet} (hx : d.Updates gen kill x x')
    (hy : d.Updates gen kill y y') (hle : x ≤ y) : x' ≤ y' := by
  refine FactSet.le_iff.2 ⟨hx.1.trans hy.1.symm, fun p hp => ?_⟩
  obtain ⟨e, he⟩ := exists_get?_of_lt (hx.1 ▸ FactSet.lt_width_of_test hp)
  refine (hy.2 he).2 (((hx.2 he).1 hp).imp_right fun h => ⟨?_, h.2⟩)
  exact FactSet.test_of_le_of_test hle h.1

end Domain

namespace Expression

/-- Instruction `i` writes a variable that `e` reads. -/
def RedefinedBy (e : Expression) (i : Instruction) : Prop :=
  ∃ v, i.result = some v ∧ e.uses v = true

instance (e : Expression) (i : Instruction) : Decidable (e.RedefinedBy i) :=
  match h : i.result with
  | none => .isFalse fun ⟨v, hv, _⟩ => by rw [h] at hv; cases hv
  | some v =>
    if hv : e.uses v = true then .isTrue ⟨v, h, hv⟩
    else .isFalse fun ⟨w, hw, hu⟩ => by rw [h] at hw; cases hw; exact hv hu

theorem overwritesOperand_iff {i : Instruction} {e : Expression} (h : computedBy? i = some e) :
    overwritesOperand i = true ↔ e.RedefinedBy i := by
  unfold overwritesOperand RedefinedBy
  rw [h]
  cases i.result <;> simp

/-- The loop over the domain: each entry that reads `v` is taken out. -/
theorem foldlM_erase_spec (v : Value) (l : List (Expression × Nat)) {s : FactSet}
    (hl : ∀ x ∈ l, x.2 < s.width) :
    ∃ t, l.foldlM (fun s (e, k) => if e.uses v then s.erase k else .ok s) s = .ok t ∧
      t.width = s.width ∧
      ∀ p, t.test p = true ↔ s.test p = true ∧ ∀ x ∈ l, x.2 = p → x.1.uses v = false := by
  induction l generalizing s with
  | nil => exact ⟨s, rfl, rfl, by simp⟩
  | cons x l ih =>
    obtain ⟨hx, hl'⟩ := List.forall_mem_cons.1 hl
    obtain ⟨e, k⟩ := x
    by_cases hv : e.uses v = true
    · obtain ⟨u, hu, hwu, htu⟩ := FactSet.exists_erase hx
      obtain ⟨t, ht, hwt, htt⟩ := ih fun y hy => hwu ▸ hl' y hy
      refine ⟨t, ?_, hwt.trans hwu, fun p => ?_⟩
      · rw [List.foldlM_cons, Outcome.bind_eq_ok_iff]
        exact ⟨u, (if_pos hv).trans hu, ht⟩
      · rw [htt, htu, List.forall_mem_cons]
        constructor
        · rintro ⟨⟨hpk, hs⟩, hrest⟩
          exact ⟨hs, fun h => absurd h.symm hpk, hrest⟩
        · rintro ⟨hs, hk, hrest⟩
          exact ⟨⟨fun h => by simp [hk h.symm] at hv, hs⟩, hrest⟩
    · obtain ⟨t, ht, hwt, htt⟩ := ih hl'
      refine ⟨t, ?_, hwt, fun p => ?_⟩
      · rw [List.foldlM_cons, Outcome.bind_eq_ok_iff]
        exact ⟨s, if_neg hv, ht⟩
      · rw [htt, List.forall_mem_cons]
        simp [hv]

theorem kill_spec {i : Instruction} (hi : ∀ v, i.result = some v → v.isVariable = true)
    {d : Domain Expression} {s : FactSet} (hw : s.width = d.size) :
    ∃ t, kill i d s = .ok t ∧ t.width = d.size ∧
      ∀ {p e}, d.get? p = some e → (t.test p = true ↔ s.test p = true ∧ ¬ e.RedefinedBy i) := by
  unfold kill
  cases hres : i.result with
  | none =>
    refine ⟨s, rfl, hw, fun {p e} _ => ?_⟩
    simp [RedefinedBy, hres]
  | some v =>
    have hl : ∀ x ∈ d.elements.zipIdx, x.2 < s.width := by
      rintro ⟨e, k⟩ hx
      rw [hw]
      exact Domain.lt_size_of_get? (List.mem_zipIdx_iff_getElem?.1 hx)
    obtain ⟨t, ht, hwt, htt⟩ := foldlM_erase_spec v d.elements.zipIdx hl
    refine ⟨t, ?_, hwt.trans hw, fun {p e} hp => ?_⟩
    · have hvar : (some v).filter (·.isVariable) = some v := by simp [Option.filter, hi v hres]
      rwa [hvar]
    · rw [htt]
      refine and_congr_right fun _ => ?_
      simp only [RedefinedBy, hres, Option.some.injEq, exists_eq_left']
      constructor
      · intro h
        rw [h (e, p) (List.mem_zipIdx_iff_getElem?.2 hp) rfl]
        exact Bool.false_ne_true
      · rintro h ⟨e', k⟩ hx rfl
        have hx' : d.get? k = some e' := List.mem_zipIdx_iff_getElem?.1 hx
        cases hp.symm.trans hx'
        simpa using h

theorem generate_spec {i : Instruction} {d : Domain Expression} (hd : d.frozen = true)
    {s : FactSet} (hw : s.width = d.size) :
    ∃ t, generate i d s = .ok t ∧ t.width = d.size ∧ ∀ {p e}, d.get? p = some e →
      (t.test p = true ↔ s.test p = true ∨ computedBy? i = some e) := by
  unfold generate
  cases hi : computedBy? i with
  | none => exact ⟨s, rfl, hw, by simp⟩
  | some e₀ =>
    rcases Domain.indexOf_cases hd e₀ with ⟨k, hk, hget⟩ | ⟨hk, he⟩
    · have hlt : k < s.width := hw ▸ Domain.lt_size_of_get? hget
      obtain ⟨t, ht, hwt, htt⟩ := FactSet.exists_insert hlt
      refine ⟨t, Outcome.bind_eq_ok_iff.2 ⟨some k, hk, ht⟩, hwt.trans hw, fun {p e} hp => ?_⟩
      rw [htt, or_comm, Option.some.injEq]
      refine or_congr_right ⟨?_, ?_⟩
      · rintro rfl
        exact Option.some.inj (hget.symm.trans hp)
      · rintro rfl
        exact Domain.get?_inj hp hget
    · refine ⟨s, Outcome.bind_eq_ok_iff.2 ⟨none, hk, rfl⟩, hw, fun {p e} hp => ?_⟩
      rw [Option.some.injEq]
      refine ⟨.inl, fun h => h.elim id ?_⟩
      rintro rfl
      exact absurd (Domain.mem_of_get? hp) he

end Expression

namespace Analysis

section

variable {α : Type} (A : Analysis α) (f : Function) (d : Domain α)

/-- The transfer decides each element by itself: it holds behind an instruction that generates it,
or that does not kill it and has it in front. -/
structure IsGenKill (gen kill : Instruction → α → Prop) : Prop where
  /-- The transfer, element by element. -/
  transfer_spec : ∀ {i s}, i ∈ f.instructions → s.width = d.size →
    ∃ t, A.transfer f i d s = .ok t ∧ t.width = d.size ∧
      ∀ {p e}, d.get? p = some e → (t.test p = true ↔ gen i e ∨ s.test p = true ∧ ¬ kill i e)

/-- Edges pass values on as they are. -/
def HasPlainEdges : Prop := ∀ b n facts s, A.alongEdge f b n facts d s = .ok s

variable {A f d}

theorem IsGenKill.updates {gen kill : Instruction → α → Prop} (h : A.IsGenKill f d gen kill)
    {i : Instruction} (hi : i ∈ f.instructions) {s t : FactSet} (hw : s.width = d.size)
    (ht : A.transfer f i d s = .ok t) : d.Updates (gen i) (kill i) s t := by
  obtain ⟨t', ht', hspec⟩ := h.transfer_spec hi hw
  cases ht.symm.trans ht'
  exact hspec

theorem IsGenKill.test_iff {gen kill : Instruction → α → Prop} (h : A.IsGenKill f d gen kill)
    {i : Instruction} (hi : i ∈ f.instructions) {s t : FactSet} (hw : s.width = d.size)
    (ht : A.transfer f i d s = .ok t) {p : Nat} {e : α} (hp : d.get? p = some e) :
    t.test p = true ↔ gen i e ∨ s.test p = true ∧ ¬ kill i e :=
  (h.updates hi hw ht).2 hp

theorem IsGenKill.transfer_mono {gen kill : Instruction → α → Prop}
    (h : A.IsGenKill f d gen kill) {i : Instruction} (hi : i ∈ f.instructions)
    {s t s' t' : FactSet} (hw : s.width = d.size) (hle : s ≤ t) (hs : A.transfer f i d s = .ok s')
    (ht : A.transfer f i d t = .ok t') : s' ≤ t' := by
  have hwt : t.width = d.size := (FactSet.width_eq_of_le hle).symm.trans hw
  exact (h.updates hi hw hs).mono (h.updates hi hwt ht) hle

/-- **A gen-kill analysis with plain edges is monotone.** -/
theorem IsGenKill.isMonotone {gen kill : Instruction → α → Prop} (h : A.IsGenKill f d gen kill)
    (hedge : A.HasPlainEdges f d) (hb : (A.boundary d).width = d.size) : A.IsMonotone f d where
  boundary_width := hb
  transfer_total hi hw := by
    obtain ⟨t, ht, hwt, -⟩ := h.transfer_spec hi hw
    exact ⟨t, ht, hwt⟩
  edge_total _ _ _ hw := ⟨_, hedge _ _ _ _, hw⟩
  transfer_mono hi hw hle hs ht := h.transfer_mono hi hw hle hs ht
  edge_mono _ _ _ _ _ _ hle hs ht := by
    rw [hedge] at hs ht
    cases hs
    cases ht
    exact hle

end

/-! ### The expression analyses -/

variable {f : Function} {d : Domain Expression}

theorem isVariable_of_result (hf : f.WellFormed) {i : Instruction} (hi : i ∈ f.instructions) :
    ∀ v, i.result = some v → v.isVariable = true := by
  intro v hv
  have hres := hf.result_of_mem hi
  split at hres
  · rw [hv] at hres
    cases hres
  · obtain ⟨w, hw, hvar⟩ := hres
    cases hv.symm.trans hw
    exact hvar

theorem available_isGenKill (hf : f.WellFormed) (hd : d.frozen = true) :
    available.IsGenKill f d
      (fun i e => Expression.computedBy? i = some e ∧ ¬ e.RedefinedBy i)
      (fun i e => e.RedefinedBy i) := by
  refine ⟨fun {i s} hi hw => ?_⟩
  obtain ⟨u, hu, hwu, htu⟩ := Expression.kill_spec (isVariable_of_result hf hi) hw
  -- an instruction that overwrites its own operand kills what it computes
  by_cases hover : Expression.overwritesOperand i = true
  · refine ⟨u, ?_, hwu, fun {p e} hp => ?_⟩
    · exact Outcome.bind_eq_ok_iff.2 ⟨u, hu, if_pos hover⟩
    · rw [htu hp]
      refine ⟨.inr, fun h => h.elim (fun ⟨hc, hr⟩ => ?_) id⟩
      exact absurd ((Expression.overwritesOperand_iff hc).1 hover) hr
  · obtain ⟨t, ht, hwt, htt⟩ := Expression.generate_spec (i := i) hd hwu
    refine ⟨t, ?_, hwt, fun {p e} hp => ?_⟩
    · exact Outcome.bind_eq_ok_iff.2 ⟨u, hu, (if_neg hover).trans ht⟩
    · rw [htt hp, htu hp, or_comm]
      refine or_congr_left ⟨fun hc => ⟨hc, fun hr => ?_⟩, fun h => h.1⟩
      exact hover ((Expression.overwritesOperand_iff hc).2 hr)

theorem anticipated_isGenKill (hf : f.WellFormed) (hd : d.frozen = true) :
    anticipated.IsGenKill f d (fun i e => Expression.computedBy? i = some e)
      (fun i e => e.RedefinedBy i) := by
  refine ⟨fun {i s} hi hw => ?_⟩
  obtain ⟨u, hu, hwu, htu⟩ := Expression.kill_spec (isVariable_of_result hf hi) hw
  obtain ⟨t, ht, hwt, htt⟩ := Expression.generate_spec (i := i) hd hwu
  refine ⟨t, ?_, hwt, fun {p e} hp => ?_⟩
  · exact Outcome.bind_eq_ok_iff.2 ⟨u, hu, ht⟩
  · rw [htt hp, htu hp, or_comm]

theorem willBeAvailable_isGenKill (hf : f.WellFormed) (ant : Solution Expression) :
    (willBeAvailable ant).IsGenKill f d (fun _ _ => False) (fun i e => e.RedefinedBy i) := by
  refine ⟨fun {i s} hi hw => ?_⟩
  obtain ⟨u, hu, hwu, htu⟩ := Expression.kill_spec (isVariable_of_result hf hi) hw
  exact ⟨u, hu, hwu, fun {p e} hp => by rw [htu hp, false_or]⟩

theorem available_isMonotone (hf : f.WellFormed) :
    available.IsMonotone f (available.domain f) :=
  (available_isGenKill hf rfl).isMonotone (fun _ _ _ _ => rfl) rfl

end Analysis

end FactFlow
