import FactFlow.Proofs.Analysis.WillBeAvailable

/-!
# Reading solutions

No step of the solver looks at all sets together.  It compares the width of the boundary value with
the domain before it starts; a meet compares each value with those met before, down to the identity
(`Meet.ChecksWidth`); and before a fact is stored it is compared with the one that it replaces.
This is enough for every solution to be in shape (`Solution.Shaped`), however wide the sets are that
a transfer or an edge answers with: a set that does not fit ends the run.

A solution in shape can be read without a fault, also beside a function that it was not found for
(`Solution.shaped_and_readable_of_found`).  The elements of a set are looked up by position and the
instructions of a function by number, and no lookup misses.
-/

namespace FactFlow

namespace Solution

variable {α : Type} {S : Solution α} {f : Function}

/-- Looking for the state in front of an instruction meets no fault. -/
theorem before_eq_ok (hf : f.WellFormed) (i : InstId) : S.before f i = .ok (S.before? f i) := by
  obtain ⟨o, ho⟩ : ∃ o, S.before f i = .ok o := by
    unfold before
    split
    · exact ⟨none, rfl⟩
    · rename_i inst hi
      obtain ⟨hmem, -⟩ := Function.mem_of_instruction? hi
      obtain ⟨blk, hblk, hbody⟩ := Function.mem_instructions_iff.1 hmem
      have hblock : f.block? inst.block = some blk := by
        rw [hf.block_of_mem hblk hbody, hf.block?_of_mem hblk]
      exact ⟨_, Outcome.map_eq_ok_iff.2 ⟨blk.body, hf.bodyOf_eq hblock, rfl⟩⟩
  rw [before?, ho]
  cases o <;> rfl

/-! ### Solutions in shape -/

/-- Solution `S` has the tables of a solution for `f`. -/
structure Shaped (S : Solution α) (f : Function) : Prop where
  /-- Discovery has ended. -/
  frozen : S.domain.frozen = true
  /-- No element has two numbers. -/
  nodup : S.domain.elements.Nodup
  /-- There is one fact for each instruction, as wide as the domain. -/
  facts : S.facts.Fits f.instCount S.domain.size
  /-- There is one boundary for each block, as wide as the domain. -/
  boundaries : Facts.Fits S.boundaries f.blockCount S.domain.size

/-- Where solutions for `f` come from: any analysis whose meet checks widths, or the composition
with another solution. -/
inductive Found (f : Function) : {α : Type} → Solution α → Prop
  | solved {α : Type} [DecidableEq α] {A : Analysis α} {S : Solution α}
    (hm : A.meet.ChecksWidth (A.domain f).size) (h : (A.solve f).result = .ok S) : Found f S
  | joined {ant S : Solution Expression}
    (h : (Analysis.WillBeAvailable.solve ant f).result = .ok S) : Found f S

theorem shaped_of_solve [DecidableEq α] (hf : f.WellFormed) {A : Analysis α}
    (h : (A.solve f).result = .ok S) (hm : A.meet.ChecksWidth (A.domain f).size) :
    S.Shaped f := by
  have hdomain := Analysis.domain_of_solve h
  exact
    { frozen := hdomain ▸ rfl
      nodup := S.domain.nodup
      facts := hdomain ▸ Analysis.fits_of_solve hf h hm.unit_width
      boundaries := hdomain ▸
        ⟨Analysis.boundaries_size_of_solve h, Analysis.boundary_width_of_solve hf h hm⟩ }

/-- Joining facts in changes no size and no width, wherever they come from. -/
theorem Shaped.of_isJoined {own ant S : Solution Expression} (hown : own.Shaped f)
    (h : Analysis.WillBeAvailable.IsJoined f own ant S) : S.Shaped f :=
  { frozen := h.domain_eq ▸ hown.frozen
    nodup := S.domain.nodup
    facts := h.domain_eq ▸ h.fits hown.facts
    boundaries := h.domain_eq ▸ h.fits_boundaries hown.boundaries }

theorem Found.shaped (hf : f.WellFormed) (h : S.Found f) : S.Shaped f := by
  cases h with
  | solved hm h => exact shaped_of_solve hf h hm
  | joined h =>
    obtain ⟨own, hown, hjoin⟩ := Analysis.WillBeAvailable.composed_eq_ok_iff.1 h
    exact (shaped_of_solve hf hown (Mode.must.checksWidth _)).of_isJoined
      (Analysis.WillBeAvailable.addAnticipated_spec hjoin)

/-! ### Answers to queries -/

/-- Every query to `S` has an answer. -/
structure Readable [DecidableEq α] [ToString α] (S : Solution α) : Prop where
  /-- An element holds where it is listed, and nowhere else. -/
  holds : ∀ (i : InstId) (e : α), S.holds i e = .ok (decide (e ∈ S.elementsAt i))
  /-- Every position of a fact has an element. -/
  elementsAt : ∀ {i : InstId} {s : FactSet}, S.fact? i = some s →
    s.positions.mapM S.domain.lookup = .ok (S.elementsAt i)
  /-- Facts can be printed. -/
  render_fact : ∀ {i : InstId} {s : FactSet}, S.fact? i = some s →
    ∃ text, S.domain.render s = .ok text
  /-- Boundaries can be printed. -/
  render_boundary : ∀ {b : BlockId} {s : FactSet}, S.boundary? b = some s →
    ∃ text, S.domain.render s = .ok text
  /-- The state in front of an instruction can be asked for, in any function. -/
  before : ∀ {draft : Draft} {g : Function}, draft.toFunction = .ok g → ∀ i : InstId,
    S.before g i = .ok (S.before? g i)
  /-- The solution can be listed beside any function. -/
  listing : ∀ {draft : Draft} {g : Function}, draft.toFunction = .ok g →
    ∃ text, S.listing g = .ok text

theorem mem_elementsAt_iff {i : InstId} {e : α} :
    e ∈ S.elementsAt i ↔
      ∃ k s, S.domain.get? k = some e ∧ S.fact? i = some s ∧ s.test k = true := by
  unfold elementsAt
  cases S.fact? i with
  | none => simp
  | some s =>
    simp only [List.mem_filterMap, FactSet.mem_positions_iff, Option.some.injEq]
    constructor
    · rintro ⟨k, htest, hget⟩
      exact ⟨k, s, hget, rfl, htest⟩
    · rintro ⟨k, s', hget, rfl, htest⟩
      exact ⟨k, htest, hget⟩

namespace Shaped

variable (h : S.Shaped f)
include h

theorem fact_width {i : InstId} {s : FactSet} (hs : S.fact? i = some s) :
    s.width = S.domain.size :=
  h.facts.width_eq hs

theorem boundary_width {b : BlockId} {s : FactSet} (hs : S.boundary? b = some s) :
    s.width = S.domain.size :=
  h.boundaries.width_eq hs

theorem holds_eq [DecidableEq α] (i : InstId) (e : α) :
    S.holds i e = .ok (decide (e ∈ S.elementsAt i)) := by
  rw [holds_eq_ok_iff h.frozen h.fact_width, decide_eq_true_iff, mem_elementsAt_iff]

theorem mapM_lookup {i : InstId} {s : FactSet} (hs : S.fact? i = some s) :
    s.positions.mapM S.domain.lookup = .ok (S.elementsAt i) := by
  rw [Domain.mapM_lookup_positions (h.fact_width hs), elementsAt, hs]

variable [ToString α]

omit h in
theorem exists_setLine (lead : String) {s? : Option FactSet}
    (hw : ∀ s, s? = some s → s.width = S.domain.size) : ∃ line, S.setLine lead s? = .ok line := by
  cases s? with
  | none => exact ⟨"", rfl⟩
  | some s =>
    exact ⟨_, Outcome.map_eq_ok_iff.2 ⟨_, Domain.render_eq_ok_iff.2 ⟨hw s rfl, rfl⟩, rfl⟩⟩

theorem exists_instListing (b : Block) (i : Instruction) :
    ∃ text, S.instListing b i = .ok text := by
  have hentering : ∀ s, (if (S.direction.entrance? b).map (·.id) == some i.id
      then S.boundary? b.id else none) = some s → s.width = S.domain.size := by
    intro s hs
    split at hs
    · exact h.boundary_width hs
    · cases hs
  obtain ⟨boundary, hboundary⟩ := exists_setLine "    boundary " hentering
  obtain ⟨fact, hfact⟩ := exists_setLine "        " fun s (hs : S.fact? i.id = some s) =>
    h.fact_width hs
  exact ⟨_, Outcome.bind_eq_ok_iff.2 ⟨boundary, hboundary,
    Outcome.bind_eq_ok_iff.2 ⟨fact, hfact, rfl⟩⟩⟩

theorem exists_listing {g : Function} (hg : g.WellFormed) : ∃ text, S.listing g = .ok text := by
  have hblock : ∀ b ∈ g.blocks, ∃ text, S.blockListing g b = .ok text := by
    intro b hb
    obtain ⟨lines, hlines⟩ := Outcome.exists_mapM fun i (_ : i ∈ b.body) =>
      h.exists_instListing b i
    exact ⟨_, Outcome.bind_eq_ok_iff.2 ⟨b.body, hg.bodyOf_eq (hg.block?_of_mem hb),
      Outcome.bind_eq_ok_iff.2 ⟨lines, hlines, rfl⟩⟩⟩
  obtain ⟨blocks, hblocks⟩ := Outcome.exists_mapM hblock
  exact ⟨_, Outcome.bind_eq_ok_iff.2 ⟨blocks, hblocks, rfl⟩⟩

/-- **A solution in shape answers every query.** -/
theorem readable [DecidableEq α] : S.Readable where
  holds := h.holds_eq
  elementsAt := h.mapM_lookup
  render_fact hs := ⟨_, Domain.render_eq_ok_iff.2 ⟨h.fact_width hs, rfl⟩⟩
  render_boundary hs := ⟨_, Domain.render_eq_ok_iff.2 ⟨h.boundary_width hs, rfl⟩⟩
  before hdraft := before_eq_ok (Draft.wellFormed_of_toFunction hdraft)
  listing hdraft := h.exists_listing (Draft.wellFormed_of_toFunction hdraft)

end Shaped

end Solution

namespace Analysis

/-- Which expressions nothing has disturbed; told that all of them are, it answers with a set of
another width. -/
def brittle : Analysis Expression where
  name := "brittle"
  direction := .forward
  meet := .intersect
  contribute _ i := Expression.contributed i
  boundary d := FactSet.full d.size
  transfer _ i d s := if s.isNone then .ok (FactSet.none (d.size + 1)) else Expression.kill i d s

theorem brittle_not_keepsWidth :
    ¬ brittle.KeepsWidth loopDraft.assemble (brittle.domain loopDraft.assemble) := by
  intro h
  obtain ⟨t, ht, hw⟩ := h.transfer_total (s := FactSet.none 2)
    (i := ⟨0, 0, .binary .add (.slot 0) (.param 0), some (.result 0)⟩) (by decide) rfl
  have hnone : (FactSet.none 2).isNone = true := by decide +kernel
  have hanswer := (if_pos hnone).symm.trans ht
  cases hanswer
  exact absurd hw (Nat.succ_ne_self _)

end Analysis

namespace Solution

open Analysis

variable {α : Type} {S : Solution α} {f : Function}

/-- **Every solution is in shape and answers every query**, whatever its analysis does and whichever
function it is read beside. -/
theorem shaped_and_readable_of_found [DecidableEq α] [ToString α] {draft : Draft}
    (hdraft : draft.toFunction = .ok f) (h : S.Found f) : S.Shaped f ∧ S.Readable := by
  have hshaped := h.shaped (Draft.wellFormed_of_toFunction hdraft)
  exact ⟨hshaped, hshaped.readable⟩

theorem shaped_and_readable_of_found_brittle :
    loopDraft.toFunction = .ok loopDraft.assemble ∧
      ¬ brittle.KeepsWidth loopDraft.assemble (brittle.domain loopDraft.assemble) ∧
      ∃ S, (brittle.solve loopDraft.assemble).result = .ok S ∧ S.Shaped loopDraft.assemble ∧
        S.Readable := by
  obtain ⟨S, hS, -⟩ := Outcome.exists_of_run (x := (brittle.solve loopDraft.assemble).result)
    (P := fun S => S.domain.size = 2) (by decide +kernel)
  exact ⟨loopDraft_accepted, brittle_not_keepsWidth, S, hS,
    shaped_and_readable_of_found loopDraft_accepted (.solved (Mode.must.checksWidth _) hS)⟩

end Solution

end FactFlow
