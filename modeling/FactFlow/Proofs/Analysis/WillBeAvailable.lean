import FactFlow.Proofs.Analysis.Anticipated
import FactFlow.Proofs.Solve.States

/-!
# Will-be-available expressions in closed form

The analysis itself only kills.  Its facts start full and nothing is generated, so an expression
survives at an instruction iff no path leads there from a place that takes it out: an instruction
that redefines one of its operands, or the start of a block that nothing leads to, where nothing is
known (`Expression.DisturbedAt`).  To what survives, the anticipated facts are added.

* `WillBeAvailable.addAnticipated_spec`, `WillBeAvailable.exists_addAnticipated` : what adding the
  anticipated facts does, and that it succeeds on sets of one width.
* `WillBeAvailable.IsComposed` : **an expression holds iff it is anticipated or undisturbed.**
* `willBeAvailable_eq_anticipated_or_undisturbed` : so wherever control can come from the start of
  such a block, nothing survives and the fact is the anticipated one.
-/

namespace FactFlow

namespace Expression

/-- Some path leads to `i` from an instruction that redefines an operand of `e`, or from the first
instruction of a block that nothing leads to. -/
def DisturbedAt (f : Function) (e : Expression) (i : Instruction) : Prop :=
  ∃ j path, f.Path j path i ∧
    (e.RedefinedBy j ∨ ∃ b ∈ f.blocks, f.sources b.id = [] ∧ b.first? = some j)

variable {f : Function} {e : Expression} {i : Instruction}

theorem disturbedAt_iff_exposed : e.DisturbedAt f i ↔
    Analysis.Exposed .forward f (fun _ _ => False) (fun i e => e.RedefinedBy i) e i := by
  rw [Analysis.exposed_forward_iff]
  simp [DisturbedAt]

theorem disturbedAt_of_redefinedBy (hi : i ∈ f.instructions) (h : e.RedefinedBy i) :
    e.DisturbedAt f i :=
  ⟨i, [i], .single hi, .inl h⟩

end Expression

namespace Analysis

namespace WillBeAvailable

/-! ### Adding the anticipated facts -/

theorem joined_eq_ok_iff {s u : FactSet} {o : Option FactSet} :
    joined s o = .ok u ↔ (∀ t, o = some t → s.width = t.width) ∧ u.width = s.width ∧
      ∀ p, u.test p = true ↔ s.test p = true ∨ ∃ t, o = some t ∧ t.test p = true := by
  cases o with
  | none =>
    rw [joined, Except.ok.injEq]
    constructor
    · rintro rfl
      simp
    · rintro ⟨-, hw, htest⟩
      exact FactSet.eq_of_test hw.symm fun p => Bool.eq_iff_iff.2 (by simp [htest p])
  | some t =>
    simp only [joined, Outcome.map_eq_ok_iff, FactSet.unionWith, FactSet.sameWidth_eq_ok_iff]
    constructor
    · rintro ⟨-, ⟨hw, rfl⟩, rfl⟩
      refine ⟨fun t' ht' => by cases ht'; exact hw, rfl, fun p => ?_⟩
      simp [FactSet.replacing]
    · rintro ⟨hw, hwu, htest⟩
      have hw := hw t rfl
      refine ⟨_, ⟨hw, rfl⟩, FactSet.eq_of_test hwu.symm fun p => Bool.eq_iff_iff.2 ?_⟩
      simp [FactSet.replacing, htest p]

/-- The fact of the first instruction of a block. -/
def firstFact? (f : Function) (S : Solution Expression) (b : BlockId) : Option FactSet :=
  (f.block? b).bind (·.first?) |>.bind fun i => S.fact? i.id

/-- Solution `S` is `own` with the facts of `ant` added: to each fact that of the same instruction,
to the boundary of each block that of its first instruction. -/
structure IsJoined (f : Function) (own ant S : Solution Expression) : Prop where
  /-- All else is as it was. -/
  eq_own : S = { own with facts := S.facts, boundaries := S.boundaries }
  /-- There are as many facts. -/
  facts_size : S.facts.size = own.facts.size
  /-- There are as many boundaries. -/
  boundaries_size : S.boundaries.size = own.boundaries.size
  /-- The facts are joined. -/
  fact : ∀ {k : InstId} {s : FactSet}, own.facts[k]? = some s →
    ∃ u, S.facts[k]? = some u ∧ joined s (ant.fact? k) = .ok u
  /-- The boundaries are joined. -/
  boundary : ∀ {k : BlockId} {s : FactSet}, own.boundaries[k]? = some s →
    ∃ u, S.boundaries[k]? = some u ∧ joined s (firstFact? f ant k) = .ok u

variable {f : Function} {own ant S : Solution Expression}

theorem addAnticipated_eq_ok_iff :
    (addAnticipated f own ant).result = .ok S ↔ own.domain.agrees ant.domain = true ∧
      ∃ facts boundaries,
        own.facts.toList.zipIdx.mapM (fun (s, i) => joined s (ant.fact? i)) = .ok facts ∧
        own.boundaries.toList.zipIdx.mapM (fun (s, b) => joined s (firstFact? f ant b)) =
          .ok boundaries ∧
        { own with facts := facts.toArray, boundaries := boundaries.toArray } = S := by
  unfold addAnticipated
  split
  · rename_i hagrees
    simp only [hagrees, true_and, Traced.result_bind, Traced.result_ofFault, Traced.result_pure,
      Outcome.bind_eq_ok_iff, Outcome.mapError_eq_ok_iff, Except.ok.injEq]
    constructor
    · rintro ⟨facts, hfacts, boundaries, hboundaries, rfl⟩
      exact ⟨facts, boundaries, hfacts, hboundaries, rfl⟩
    · rintro ⟨facts, boundaries, hfacts, hboundaries, rfl⟩
      exact ⟨facts, hfacts, boundaries, hboundaries, rfl⟩
  · rename_i hagrees
    simp [hagrees]

theorem composed_eq_ok_iff : (solve ant f).result = .ok S ↔
    ∃ own, ((willBeAvailable ant).solve f).result = .ok own ∧
      (addAnticipated f own ant).result = .ok S := by
  rw [solve, Traced.result_bind, Outcome.bind_eq_ok_iff]

/-- What adding the anticipated facts does. -/
theorem addAnticipated_spec (h : (addAnticipated f own ant).result = .ok S) :
    IsJoined f own ant S := by
  obtain ⟨-, facts, boundaries, hfacts, hboundaries, rfl⟩ := addAnticipated_eq_ok_iff.1 h
  obtain ⟨hsize, hfact⟩ := Outcome.getElem?_of_mapM_zipIdx hfacts
  obtain ⟨hsize', hboundary⟩ := Outcome.getElem?_of_mapM_zipIdx hboundaries
  exact
    { eq_own := rfl
      facts_size := by simpa using hsize
      boundaries_size := by simpa using hsize'
      fact := fun hs => by simpa using hfact (by simpa using hs)
      boundary := fun hs => by simpa using hboundary (by simpa using hs) }

namespace IsJoined

variable (h : IsJoined f own ant S)
include h

theorem domain_eq : S.domain = own.domain := by
  rw [h.eq_own]

/-- Adding facts changes no width. -/
theorem fits {count width : Nat} (hfits : own.facts.Fits count width) :
    S.facts.Fits count width := by
  refine hfits.of_widths h.facts_size fun k s u hs hu => ?_
  obtain ⟨u', hu', hjoin⟩ := h.fact hs
  cases hu.symm.trans hu'
  exact (joined_eq_ok_iff.1 hjoin).2.1

theorem fits_boundaries {count width : Nat} (hfits : Facts.Fits own.boundaries count width) :
    Facts.Fits S.boundaries count width := by
  refine hfits.of_widths h.boundaries_size fun k s u hs hu => ?_
  obtain ⟨u', hu', hjoin⟩ := h.boundary hs
  cases hu.symm.trans hu'
  exact (joined_eq_ok_iff.1 hjoin).2.1

end IsJoined

theorem exists_joined {width : Nat} {s : FactSet} (hs : s.width = width) {o : Option FactSet}
    (ho : ∀ t, o = some t → t.width = width) : ∃ u, joined s o = .ok u := by
  cases o with
  | none => exact ⟨s, rfl⟩
  | some t =>
    have hw : s.width = t.width := hs.trans (ho t rfl).symm
    exact ⟨s.union t hw, joined_eq_ok_iff.2 ⟨fun t' ht' => by cases ht'; exact hw, rfl, by simp⟩⟩

/-- Anticipated facts of the same domain can be added where all sets have one width. -/
theorem exists_addAnticipated {width : Nat} (hagrees : own.domain.agrees ant.domain = true)
    (hfacts : ∀ {k : InstId} {s : FactSet}, own.facts[k]? = some s → s.width = width)
    (hboundaries : ∀ {k : BlockId} {s : FactSet}, own.boundaries[k]? = some s → s.width = width)
    (hant : ∀ {k : InstId} {t : FactSet}, ant.facts[k]? = some t → t.width = width) :
    ∃ S, (addAnticipated f own ant).result = .ok S := by
  have hadd : ∀ k s, own.facts.toList[k]? = some s → ∃ u, joined s (ant.fact? k) = .ok u := by
    intro k s hs
    exact exists_joined (hfacts (by simpa using hs)) fun t ht => hant ht
  have hadd' : ∀ k s, own.boundaries.toList[k]? = some s →
      ∃ u, joined s (firstFact? f ant k) = .ok u := by
    intro k s hs
    refine exists_joined (hboundaries (by simpa using hs)) fun t ht => ?_
    obtain ⟨i, -, hi⟩ := Option.bind_eq_some_iff.1 ht
    exact hant hi
  obtain ⟨facts, hfacts'⟩ := Outcome.exists_mapM_zipIdx (fun (s, i) => joined s (ant.fact? i)) hadd
  obtain ⟨boundaries, hboundaries'⟩ :=
    Outcome.exists_mapM_zipIdx (fun (s, b) => joined s (firstFact? f ant b)) hadd'
  exact ⟨_, addAnticipated_eq_ok_iff.2 ⟨hagrees, facts, boundaries, hfacts', hboundaries', rfl⟩⟩

/-! ### The composed facts -/

/-- Solution `S` holds what is anticipated, and what is undisturbed. -/
structure IsComposed (f : Function) (ant S : Solution Expression) : Prop where
  /-- The domain is that of the anticipated expressions. -/
  domain_eq : S.domain = anticipated.domain f
  /-- There is one fact for each instruction. -/
  fits : S.facts.Fits f.instCount (anticipated.domain f).size
  /-- Each fact, expression by expression. -/
  test_iff : ∀ {i a u p e}, i ∈ f.instructions → ant.facts[i.id]? = some a →
    S.facts[i.id]? = some u → (anticipated.domain f).get? p = some e →
    (u.test p = true ↔ a.test p = true ∨ ¬ e.DisturbedAt f i)

/-- The composed facts `S`, read by their elements. -/
structure ClosedForm (f : Function) (ant S : Solution Expression) : Prop where
  /-- The domain is that of the anticipated expressions. -/
  domain_eq : S.domain = anticipated.domain f
  /-- An expression holds at an instruction iff it is anticipated there or undisturbed. -/
  holds : ∀ i ∈ f.instructions, ∀ e ∈ S.domain.elements,
    ∃ b c, S.holds i.id e = .ok b ∧ ant.holds i.id e = .ok c ∧
      (b = true ↔ c = true ∨ ¬ e.DisturbedAt f i)
  /-- Wherever control can come from the start of a block that nothing leads to, the fact is the
  anticipated one. -/
  fact_eq : ∀ b ∈ f.blocks, f.sources b.id = [] → ∀ j path i, b.first? = some j →
    f.Path j path i → ∃ s, S.fact? i.id = some s ∧ ant.fact? i.id = some s

end WillBeAvailable

open Expression WillBeAvailable

variable {f : Function} {ant : Solution Expression}

theorem willBeAvailable_isMust (hf : f.WellFormed) (ant : Solution Expression) :
    (willBeAvailable ant).IsMust f ((willBeAvailable ant).domain f) (fun _ _ => False)
      (fun i e => e.RedefinedBy i) where
  toIsGenKill := willBeAvailable_isGenKill hf ant
  meet_eq := rfl
  plain _ _ _ _ := rfl
  boundary_eq := rfl

/-- The kill-only pass accepts any solution with as many facts. -/
theorem exists_willBeAvailable_solve (hf : f.WellFormed) (hedges : noCriticalEdge f = .ok ())
    (hsize : ant.facts.size = f.instCount) :
    ∃ own, ((willBeAvailable ant).solve f).result = .ok own := by
  have hpre : (willBeAvailable ant).precondition f = .ok () :=
    Outcome.bind_eq_ok_iff.2 ⟨(), hedges, if_pos hsize⟩
  obtain ⟨own, hown, -⟩ := (willBeAvailable_isMust hf ant).isMonotoneIn.exists_solve hf hpre
  exact ⟨own, hown⟩

/-- What survives is what is undisturbed. -/
theorem willBeAvailable_test_iff (hf : f.WellFormed) {own : Solution Expression}
    (hown : ((willBeAvailable ant).solve f).result = .ok own) {i : Instruction}
    (hi : i ∈ f.instructions) {s : FactSet} (hs : own.facts[i.id]? = some s) {p : Nat}
    {e : Expression} (hp : (anticipated.domain f).get? p = some e) :
    s.test p = true ↔ ¬ e.DisturbedAt f i := by
  have hmust := willBeAvailable_isMust hf ant
  rw [← not_iff_not, not_not, disturbedAt_iff_exposed]
  exact ⟨hmust.exposed_of_solve hf hown hp hi hs,
    fun hexp => hmust.not_test_of_exposed hf (fits_of_solve hf hown rfl)
      (solves_of_solve hf hown) hp hexp hs⟩

/-- **The two stages together** succeed on every function whose anticipated expressions are known,
and hold what is anticipated or undisturbed. -/
theorem exists_isComposed (hf : f.WellFormed) (hant : (anticipated.solve f).result = .ok ant) :
    ∃ S, (WillBeAvailable.solve ant f).result = .ok S ∧ IsComposed f ant S := by
  have hfits' := fits_of_solve hf hant rfl
  obtain ⟨own, hown⟩ :=
    exists_willBeAvailable_solve hf (solve_eq_ok_iff.1 hant).1 hfits'.size_eq
  have hfits := fits_of_solve hf hown rfl
  have hdomain : own.domain = anticipated.domain f :=
    domain_of_solve (A := willBeAvailable ant) hown
  -- both stages discover the expressions in the same order
  have hagrees : own.domain.agrees ant.domain = true := by
    rw [hdomain, domain_of_solve hant]
    exact beq_self_eq_true _
  obtain ⟨S, hS⟩ := exists_addAnticipated (f := f) hagrees hfits.width_eq
    (boundary_width_of_solve hf hown (Mode.must.checksWidth _)) hfits'.width_eq
  have hjoined := addAnticipated_spec hS
  refine ⟨S, composed_eq_ok_iff.2 ⟨own, hown, hS⟩, hjoined.domain_eq.trans hdomain,
    hjoined.fits hfits, ?_⟩
  -- what survives comes from the pass, what is anticipated from the other solution
  intro i a u p e hi ha hu hp
  obtain ⟨s, hs, -⟩ := hfits.exists_getElem? (hf.id_lt hi)
  obtain ⟨u', hu', hjoin⟩ := hjoined.fact hs
  cases hu.symm.trans hu'
  have ha' : ant.fact? i.id = some a := ha
  rw [(joined_eq_ok_iff.1 hjoin).2.2 p, willBeAvailable_test_iff hf hown hi hs hp, or_comm, ha']
  simp

namespace WillBeAvailable.IsComposed

variable {S : Solution Expression} (hS : IsComposed f ant S)
include hS

theorem holds_eq_ok_iff {p : Nat} {e : Expression}
    (hp : (anticipated.domain f).get? p = some e) {i : InstId} {u : FactSet}
    (hu : S.facts[i]? = some u) {b : Bool} : S.holds i e = .ok b ↔ b = u.test p := by
  have hdomain := hS.domain_eq
  refine Solution.holds_eq_ok_iff_test (by rw [hdomain]; rfl) (fun hs => ?_) (by rwa [hdomain]) hu
  rw [hdomain]
  exact hS.fits.width_eq hs

/-- Both solutions give an answer, and the composed one holds what is anticipated or undisturbed. -/
theorem holds_iff (hf : f.WellFormed) (hant : (anticipated.solve f).result = .ok ant)
    {i : Instruction} (hi : i ∈ f.instructions) {e : Expression}
    (he : e ∈ (anticipated.domain f).elements) :
    ∃ b c, S.holds i.id e = .ok b ∧ ant.holds i.id e = .ok c ∧
      (b = true ↔ c = true ∨ ¬ e.DisturbedAt f i) := by
  obtain ⟨p, hp⟩ := Domain.exists_get?_of_mem he
  obtain ⟨a, ha, -⟩ := (fits_of_solve hf hant rfl).exists_getElem? (hf.id_lt hi)
  obtain ⟨u, hu, -⟩ := hS.fits.exists_getElem? (hf.id_lt hi)
  exact ⟨u.test p, a.test p, (hS.holds_eq_ok_iff hp hu).2 rfl,
    (holds_eq_ok_iff_of_solve hf hant rfl hp ha).2 rfl, hS.test_iff hi ha hu hp⟩

/-- Where control can come from the start of a block that nothing leads to, nothing survives. -/
theorem fact_eq_anticipated (hf : f.WellFormed) (hant : (anticipated.solve f).result = .ok ant)
    {b : Block} (hb : b ∈ f.blocks) (hnil : f.sources b.id = []) {i j : Instruction}
    {path : List Instruction} (hj : b.first? = some j) (hpath : f.Path j path i) :
    ∃ s, S.fact? i.id = some s ∧ ant.fact? i.id = some s := by
  have hi := hpath.mem_right
  obtain ⟨a, ha, hwa⟩ := (fits_of_solve hf hant rfl).exists_getElem? (hf.id_lt hi)
  obtain ⟨u, hu, hwu⟩ := hS.fits.exists_getElem? (hf.id_lt hi)
  have hua : u = a := by
    refine FactSet.eq_of_test (hwu.trans hwa.symm) fun p => ?_
    by_cases hp : p < (anticipated.domain f).size
    · obtain ⟨e, he⟩ := Domain.exists_get?_of_lt hp
      rw [Bool.eq_iff_iff, hS.test_iff hi ha hu he]
      have hdisturbed : e.DisturbedAt f i := ⟨j, path, hpath, .inr ⟨b, hb, hnil, hj⟩⟩
      simp [hdisturbed]
    · -- beyond the domain neither set has a position
      rw [FactSet.test_of_le u (by omega), FactSet.test_of_le a (by omega)]
  exact ⟨a, hua ▸ hu, ha⟩

theorem closedForm (hf : f.WellFormed) (hant : (anticipated.solve f).result = .ok ant) :
    ClosedForm f ant S where
  domain_eq := hS.domain_eq
  holds _ hi _ he := hS.holds_iff hf hant hi (hS.domain_eq ▸ he)
  fact_eq _ hb hnil _ _ _ hj hpath := hS.fact_eq_anticipated hf hant hb hnil hj hpath

end WillBeAvailable.IsComposed

/-- **An expression will be available iff it is anticipated or undisturbed.** -/
theorem willBeAvailable_eq_anticipated_or_undisturbed {draft : Draft}
    (hdraft : draft.toFunction = .ok f) (hedges : f.criticalEdges = []) :
    ∃ ant S, (anticipated.solve f).result = .ok ant ∧
      (WillBeAvailable.solve ant f).result = .ok S ∧ ClosedForm f ant S := by
  have hf := Draft.wellFormed_of_toFunction hdraft
  obtain ⟨ant, hant⟩ := exists_anticipated_solve hf hedges
  obtain ⟨S, hsolve, hS⟩ := exists_isComposed hf hant
  exact ⟨ant, S, hant, hsolve, hS.closedForm hf hant⟩

theorem willBeAvailable_eq_anticipated_or_undisturbed_loop :
    loopDraft.toFunction = .ok loopDraft.assemble ∧ loopDraft.assemble.criticalEdges = [] ∧
      ∃ ant S, (anticipated.solve loopDraft.assemble).result = .ok ant ∧
        (WillBeAvailable.solve ant loopDraft.assemble).result = .ok S ∧
        ClosedForm loopDraft.assemble ant S :=
  ⟨loopDraft_accepted, rfl, willBeAvailable_eq_anticipated_or_undisturbed loopDraft_accepted rfl⟩

end Analysis

end FactFlow
