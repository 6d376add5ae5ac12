import FactFlow.FactSet.View
import FactFlow.Proofs.Outcome
import FactFlow.Solution
import Mathlib.Data.List.Induction
import Mathlib.Data.List.Nodup

/-!
# Domains and the elements that hold

In a frozen domain, looking an element up and reading a number off are inverse to each other
(`Domain.indexOf_eq_some_iff`).  A set as wide as a domain has positions of elements only, so none
of them is missed when the set is printed (`Domain.render_eq_ok_iff`).

The domain of an analysis has just the elements that instructions contribute
(`Analysis.mem_domain_iff`), whether they are taken from a list or inserted one by one
(`Analysis.discover_eq`).  So a solution holds an element at an instruction iff the bit of its
number is set there (`Solution.holds_eq_ok_iff`).
-/

namespace FactFlow

namespace Domain

variable {α : Type} {d : Domain α}

theorem lt_size_of_get? {k : Nat} {e : α} (h : d.get? k = some e) : k < d.size :=
  (List.getElem?_eq_some_iff.1 h).1

theorem exists_get?_of_lt {k : Nat} (h : k < d.size) : ∃ e, d.get? k = some e :=
  ⟨_, List.getElem?_eq_getElem h⟩

theorem mem_of_get? {k : Nat} {e : α} (h : d.get? k = some e) : e ∈ d.elements :=
  List.mem_of_getElem? h

theorem exists_get?_of_mem {e : α} (h : e ∈ d.elements) : ∃ k, d.get? k = some e :=
  List.mem_iff_getElem?.1 h

theorem get?_inj {j k : Nat} {e : α} (hj : d.get? j = some e) (hk : d.get? k = some e) : j = k :=
  (List.getElem?_inj (lt_size_of_get? hj) d.nodup).1 (hj.trans hk.symm)

/-! ### Lookups -/

/-- A set as wide as the domain has positions of elements only. -/
theorem mapM_lookup_positions {s : FactSet} (h : s.width = d.size) :
    s.positions.mapM d.lookup = .ok (s.positions.filterMap d.get?) := by
  have hlt : ∀ p ∈ s.positions, p < d.size := fun p hp =>
    h ▸ FactSet.lt_width_of_test (FactSet.mem_positions_iff.1 hp)
  generalize s.positions = ps at hlt ⊢
  induction ps with
  | nil => rfl
  | cons p rest ih =>
    obtain ⟨hp, hrest⟩ := List.forall_mem_cons.1 hlt
    obtain ⟨e, he⟩ := exists_get?_of_lt hp
    have hlookup : d.lookup p = .ok e := by rw [lookup, he]
    rw [List.mapM_cons, hlookup, ih hrest, List.filterMap_cons, he]
    rfl

/-- **A set can be printed** iff it is as wide as the domain, and then no lookup misses. -/
theorem render_eq_ok_iff [ToString α] {mask : FactSet} {text : String} :
    d.render mask = .ok text ↔
      mask.width = d.size ∧ braced (mask.positions.filterMap d.get?) = text := by
  unfold render
  split
  · rename_i hw
    rw [mapM_lookup_positions hw, and_iff_right hw, Except.map, Except.ok.injEq]
  · rename_i hw
    simp [hw]

variable [DecidableEq α]

theorem indexOf_eq_some_iff (hd : d.frozen = true) {e : α} {k : Nat} :
    d.indexOf e = .ok (some k) ↔ d.get? k = some e := by
  rw [indexOf, if_pos hd, Except.ok.injEq, List.idxOf?_eq_some_iff]
  constructor
  · rintro ⟨hk, he, -⟩
    exact List.getElem?_eq_some_iff.2 ⟨hk, he⟩
  · intro h
    obtain ⟨hk, he⟩ := List.getElem?_eq_some_iff.1 h
    refine ⟨hk, he, fun j hj hje => ?_⟩
    have hj' : d.get? j = some e :=
      List.getElem?_eq_some_iff.2 ⟨Nat.lt_trans hj hk, hje⟩
    exact Nat.ne_of_lt hj (get?_inj hj' h)

theorem indexOf_eq_none_iff (hd : d.frozen = true) {e : α} :
    d.indexOf e = .ok none ↔ e ∉ d.elements := by
  rw [indexOf, if_pos hd, Except.ok.injEq, List.idxOf?_eq_none_iff]

/-- A lookup in a frozen domain finds the number of an element, or finds that there is none. -/
theorem indexOf_cases (hd : d.frozen = true) (e : α) :
    (∃ k, d.indexOf e = .ok (some k) ∧ d.get? k = some e) ∨
      d.indexOf e = .ok none ∧ e ∉ d.elements := by
  by_cases he : e ∈ d.elements
  · obtain ⟨k, hk⟩ := exists_get?_of_mem he
    exact .inl ⟨k, (indexOf_eq_some_iff hd).2 hk, hk⟩
  · exact .inr ⟨(indexOf_eq_none_iff hd).2 he, he⟩

/-! ### Discovery -/

theorem mem_add_iff {e x : α} : x ∈ (d.add e).elements ↔ x ∈ d.elements ∨ x = e := by
  unfold add
  split
  · rename_i he
    exact ⟨.inl, fun h => h.elim id fun hx => hx ▸ he⟩
  · simp

theorem mem_ofElements_iff {es : List α} {x : α} : x ∈ (ofElements es).elements ↔ x ∈ es := by
  suffices h : ∀ d : Domain α, x ∈ (es.foldl add d).elements ↔ x ∈ d.elements ∨ x ∈ es by
    have hempty := h empty
    simpa [ofElements, empty] using hempty
  induction es with
  | nil => simp
  | cons e es ih =>
    intro d
    rw [List.foldl_cons, ih, mem_add_iff, List.mem_cons, or_assoc]

/-- Elements are numbered in the order of their first occurrences. -/
theorem elements_ofElements (es : List α) : (ofElements es).elements = es.eraseDups := by
  induction es using List.reverseRecOn with
  | nil => rfl
  | append_singleton es e ih =>
    have hlast : ofElements (es ++ [e]) = (ofElements es).add e := by
      rw [ofElements, List.foldl_append]
      rfl
    rw [hlast, List.eraseDups_append, ← ih]
    unfold add
    split
    · rename_i he
      simp [List.removeAll, mem_ofElements_iff.1 he]
    · rename_i he
      have he : e ∉ es := fun h => he (mem_ofElements_iff.2 h)
      simp [List.removeAll, he, List.eraseDups_cons]

theorem frozen_add (d : Domain α) (e : α) : (d.add e).frozen = d.frozen := by
  unfold add
  split <;> rfl

/-- An open domain takes any elements. -/
theorem foldlM_insert (hd : d.frozen = false) (es : List α) :
    es.foldlM (fun (d : Domain α) e => (d.insert e).map (·.1)) d = .ok (es.foldl add d) := by
  induction es generalizing d with
  | nil => rfl
  | cons e rest ih =>
    have hinsert : (d.insert e).map (·.1) = .ok (d.add e) := by
      rw [insert, hd]
      rfl
    rw [List.foldlM_cons, hinsert, List.foldl_cons]
    exact ih ((d.frozen_add e).trans hd)

end Domain

namespace Analysis

variable {α : Type} [DecidableEq α] {A : Analysis α} {f : Function}

theorem mem_domain_iff {e : α} :
    e ∈ (A.domain f).elements ↔ ∃ i ∈ f.instructions, e ∈ A.contribute f i := by
  change e ∈ (Domain.ofElements _).elements ↔ _
  rw [Domain.mem_ofElements_iff, List.mem_flatMap]

theorem discover_eq : A.discover f = .ok (A.domain f) := by
  rw [discover, Domain.foldlM_insert rfl]
  rfl

end Analysis

namespace Solution

variable {α : Type} [DecidableEq α] {S : Solution α}

/-- **An element holds at an instruction** iff the bit of its number is set in the fact. -/
theorem holds_eq_ok_iff (hd : S.domain.frozen = true)
    (hw : ∀ {i s}, S.fact? i = some s → s.width = S.domain.size) {i : InstId} {e : α} {b : Bool} :
    S.holds i e = .ok b ↔
      (b = true ↔ ∃ k s, S.domain.get? k = some e ∧ S.fact? i = some s ∧ s.test k = true) := by
  unfold holds
  rcases Domain.indexOf_cases hd e with ⟨k, hk, hget⟩ | ⟨hk, he⟩
  · rw [hk]
    cases hfact : S.fact? i with
    | none =>
      change Except.ok false = Except.ok b ↔ _
      rw [Except.ok.injEq]
      exact Outcome.eq_iff_of_decides (by simp)
    | some s =>
      have hlt : k < s.width := hw hfact ▸ Domain.lt_size_of_get? hget
      change s.contains k = .ok b ↔ _
      rw [FactSet.contains, if_pos hlt, Except.ok.injEq]
      refine Outcome.eq_iff_of_decides ⟨fun h => ⟨k, s, hget, rfl, h⟩, ?_⟩
      rintro ⟨j, s', hj, hs', htest⟩
      cases hs'
      rwa [Domain.get?_inj hget hj]
  · rw [hk]
    change Except.ok false = Except.ok b ↔ _
    rw [Except.ok.injEq]
    refine Outcome.eq_iff_of_decides (iff_of_false Bool.false_ne_true ?_)
    rintro ⟨k, s, hget, -, -⟩
    exact he (Domain.mem_of_get? hget)

theorem holds_eq_ok_iff_test (hd : S.domain.frozen = true)
    (hw : ∀ {i s}, S.fact? i = some s → s.width = S.domain.size) {p : Nat} {e : α}
    (hp : S.domain.get? p = some e) {i : InstId} {u : FactSet} (hu : S.fact? i = some u)
    {b : Bool} : S.holds i e = .ok b ↔ b = u.test p := by
  refine (holds_eq_ok_iff hd hw).trans (Iff.trans (iff_congr Iff.rfl ?_) Bool.eq_iff_iff.symm)
  refine ⟨?_, fun htest => ⟨p, u, hp, hu, htest⟩⟩
  rintro ⟨k, s, hk, hs, htest⟩
  cases hu.symm.trans hs
  rwa [Domain.get?_inj hp hk]

end Solution

end FactFlow
