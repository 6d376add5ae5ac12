import FactFlow.Proofs.Analysis.Discovery
import FactFlow.Proofs.FactSet.Packed
import FactFlow.Proofs.FactSet.Rows

/-!
# Agreement of the readings of a fact

A fact can be read in three ways, and each of them goes its own way through the tables.  To ask for
one element is to look it up in the index and to test one bit of a word (`Solution.holdsBy`).  To
list the elements is to go through the words and to take the element of each position that is set,
passing over a position that has none.  To print the fact is to go through the words as well, but
with lookups that fault on a number out of range (`Domain.lookup`).

The positions of a set ascend (`FactSet.positions_eq`), so the elements that are listed form a
sublist of the domain (`Domain.filterMap_get?_sublist`): they have its order, and no repetitions.
The three readings agree on every solution (`Solution.readings_agree`).
-/

namespace FactFlow

namespace Domain

variable {α : Type} {d : Domain α}

theorem filterMap_get?_range (d : Domain α) :
    (List.range d.size).filterMap d.get? = d.elements := by
  unfold size get?
  induction d.elements with
  | nil => rfl
  | cons e rest ih =>
    rw [List.length_cons, List.range_succ_eq_map, List.filterMap_cons, List.filterMap_map]
    exact congrArg (e :: ·) ih

/-- The elements at the positions of a set stand in the order of the domain. -/
theorem filterMap_get?_sublist {s : FactSet} (h : s.width = d.size) :
    (s.positions.filterMap d.get?).Sublist d.elements := by
  have hpositions : s.positions.Sublist (List.range d.size) := by
    rw [FactSet.positions_eq, h]
    exact List.filter_sublist
  have helements := hpositions.filterMap d.get?
  rwa [filterMap_get?_range] at helements

end Domain

namespace Solution

variable {α : Type} [DecidableEq α] (S : Solution α)

/-- Whether element `e` is in the fact of instruction `i`, by a lookup in the index of a ledger and
a test of one bit. -/
def holdsBy [Hashable α] (L : Ledger α) (i : InstId) (e : α) : Except Fault Bool := do
  match ← L.indexOf e, S.fact? i with
  | some k, some s => s.packed.contains k
  | _, _ => .ok false

/-- The readings of the facts of `S` agree. -/
structure ReadsAlike [ToString α] : Prop where
  /-- An element holds where it is listed, and nowhere else. -/
  holds : ∀ (i : InstId) (e : α), S.holds i e = .ok (decide (e ∈ S.elementsAt i))
  /-- There is an index of the domain, however elements are hashed. -/
  recorded : ∀ [Hashable α], ∃ L : Ledger α, L.Records S.domain
  /-- The index and the words say of each element what the list says. -/
  holdsBy : ∀ [Hashable α] {L : Ledger α}, L.Records S.domain → ∀ (i : InstId) (e : α),
    S.holdsBy L i e = .ok (decide (e ∈ S.elementsAt i))
  /-- The elements are listed in the order of the domain. -/
  sublist : ∀ i : InstId, (S.elementsAt i).Sublist S.domain.elements
  /-- No element is listed twice. -/
  nodup : ∀ i : InstId, (S.elementsAt i).Nodup
  /-- A fact is printed as the elements that are listed, each of them followed by a comma. -/
  render : ∀ {i : InstId} {s : FactSet}, S.fact? i = some s →
    S.domain.render s = .ok
      ("\x7b" ++ String.join ((S.elementsAt i).map fun e => toString e ++ ", ") ++ "\x7d")
  /-- No position on the way is without an element, to fault or to be passed over. -/
  lookup : ∀ {i : InstId} {s : FactSet}, S.fact? i = some s →
    s.positions.mapM S.domain.lookup = .ok (S.elementsAt i)

variable {S} {f : Function}

theorem holdsBy_eq [Hashable α] {L : Ledger α} (h : L.Records S.domain) (i : InstId) (e : α) :
    S.holdsBy L i e = S.holds i e := by
  unfold holdsBy holds
  rw [h.indexOf_eq]
  refine congrArg (S.domain.indexOf e >>= ·) (funext fun k? => ?_)
  cases k? with
  | none => rfl
  | some k =>
    cases S.fact? i with
    | none => rfl
    | some s => exact s.contains_packed k

omit [DecidableEq α] in
/-- The insertions that made the domain of a solution can be made into a ledger. -/
theorem Found.exists_records [inst : DecidableEq α] [Hashable α] (h : S.Found f) :
    ∃ L : Ledger α, L.Records S.domain := by
  have hdiscovers := Analysis.discoversOn f
  cases h with
  | @solved _ inst' A _ _ h =>
    cases Subsingleton.elim inst inst'
    obtain ⟨ks, hks⟩ := hdiscovers.domain A
    obtain ⟨L, -, hL⟩ := hks.ledger
    exact ⟨L.freeze, hdiscovers.solved h ▸ hL⟩
  | @joined ant _ h =>
    cases Subsingleton.elim inst instDecidableEqExpression
    obtain ⟨ks, hks⟩ := hdiscovers.domain (Analysis.willBeAvailable ant)
    obtain ⟨L, -, hL⟩ := hks.ledger
    exact ⟨L.freeze, hdiscovers.composed h ▸ hL⟩

omit [DecidableEq α] in
theorem Shaped.elementsAt_sublist (h : S.Shaped f) (i : InstId) :
    (S.elementsAt i).Sublist S.domain.elements := by
  unfold elementsAt
  split
  · rename_i s hs
    exact Domain.filterMap_get?_sublist (h.fact_width hs)
  · exact List.nil_sublist _

omit [DecidableEq α] in
theorem Shaped.render_eq [ToString α] (h : S.Shaped f) {i : InstId} {s : FactSet}
    (hs : S.fact? i = some s) : S.domain.render s = .ok (Domain.braced (S.elementsAt i)) := by
  refine Domain.render_eq_ok_iff.2 ⟨h.fact_width hs, ?_⟩
  rw [elementsAt, hs]

/-- **The readings of a fact agree**, in every solution of an analysis and in every composition. -/
theorem readings_agree [ToString α] {draft : Draft} (hdraft : draft.toFunction = .ok f)
    (h : S.Found f) : S.ReadsAlike := by
  have hshaped := h.shaped (Draft.wellFormed_of_toFunction hdraft)
  exact
    { holds := hshaped.holds_eq
      recorded := h.exists_records
      holdsBy := fun hL i e => (holdsBy_eq hL i e).trans (hshaped.holds_eq i e)
      sublist := hshaped.elementsAt_sublist
      nodup := fun i => hshaped.nodup.sublist (hshaped.elementsAt_sublist i)
      render := hshaped.render_eq
      lookup := hshaped.mapM_lookup }

/-- A function whose live variables take up more than one word. -/
def wideDraft : Draft where
  name := "wide"
  params := 65
  blockCount := 1
  entries := [
    ⟨0, .call "sum" ((List.range 65).map .param), none⟩,
    ⟨0, .ret (some (.param 64)), none⟩]

theorem wideDraft_accepted : wideDraft.toFunction = .ok wideDraft.assemble :=
  Draft.toFunction_eq_ok_iff.2 ⟨by decide +kernel, rfl⟩

theorem readings_agree_wide :
    wideDraft.toFunction = .ok wideDraft.assemble ∧
      ∃ S, (Analysis.liveness.solve wideDraft.assemble).result = .ok S ∧
        S.elementsAt 1 = [.param 64] ∧ S.ReadsAlike := by
  obtain ⟨S, hS, hlisted⟩ := Outcome.exists_of_run
    (x := (Analysis.liveness.solve wideDraft.assemble).result)
    (P := fun S => S.elementsAt 1 = [.param 64]) (by decide +kernel)
  exact ⟨wideDraft_accepted, S, hS, hlisted,
    readings_agree wideDraft_accepted (.solved (Mode.may.checksWidth _) hS)⟩

end Solution

end FactFlow
