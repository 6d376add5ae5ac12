import FactFlow.FactSet.View
import FactFlow.Meet
import FactFlow.Proofs.Outcome
import Mathlib.Data.Finset.Card
import Mathlib.Data.List.Basic
import Mathlib.Order.Basic

/-!
# Inclusion of fact sets and the order of a meet

Sets of one width are ordered by inclusion, which is what `FactSet.subset` decides
(`FactSet.le_iff`).  Of a meet in general little is known; what the solver needs of it is said by
`Meet.KeepsWidth` and `Meet.ChecksWidth`.

The two meets that come with the library are those of a `Mode`, and each of them orders sets:
`m.Below s t` says that `s` is what is left of `t` after more meets, so that the identity of the
meet is the greatest set of its width (`Mode.below_unit`).  For `must` this is inclusion, for `may`
inclusion reversed.

* `Mode.meetList_eq_ok_iff` : the meet of a list holds a position iff all of its sets do (`must`),
  or some set does (`may`).
* `Mode.depth_lt` : a set that is strictly below another differs from the identity in more
  positions.  There are only `width` positions, so nothing descends more than `width` times.
-/

namespace FactFlow

namespace FactSet

theorem sameWidth_eq_ok_iff {β : Type} {s t : FactSet} {k : s.width = t.width → β} {x : β} :
    s.sameWidth t k = .ok x ↔ ∃ h, k h = x := by
  unfold sameWidth
  split
  · rename_i hw
    simp [hw]
  · rename_i hw
    simp [hw]

theorem sameWidth_eq_error_iff {β : Type} {s t : FactSet} {k : s.width = t.width → β} {e : Fault} :
    s.sameWidth t k = .error e ↔ s.width ≠ t.width ∧ e = .widths s.width t.width := by
  unfold sameWidth
  split
  · rename_i hw
    simp [hw]
  · rename_i hw
    simp [hw, eq_comm]

theorem all_words_eq_zero_iff (words : Array Word) :
    words.all (· == 0#64) = true ↔ ∀ p, bitAt words p = false := by
  simp only [Array.all_eq_true, beq_iff_eq]
  constructor
  · intro h p
    by_cases hp : p / 64 < words.size
    · simp [bitAt, hp, h (p / 64) hp]
    · simp [bitAt, Array.getElem?_eq_none (Nat.le_of_not_lt hp)]
  · intro h k hk
    apply BitVec.eq_of_getLsbD_eq
    intro i hi
    have hdiv : (64 * k + i) / 64 = k := by omega
    have hmod : (64 * k + i) % 64 = i := by omega
    simpa [bitAt, hdiv, hmod, hk] using h (64 * k + i)

theorem subset_eq_ok_iff {s t : FactSet} {b : Bool} :
    s.subset t = .ok b ↔
      s.width = t.width ∧ (b = true ↔ ∀ p, s.test p = true → t.test p = true) := by
  rw [subset, sameWidth_eq_ok_iff, ← exists_prop]
  refine exists_congr fun hw => Outcome.eq_iff_of_decides ?_
  rw [all_words_eq_zero_iff]
  refine forall_congr' fun p => ?_
  change (s.diff t hw).test p = false ↔ _
  rw [test_diff]
  cases s.test p <;> cases t.test p <;> simp

/-- Inclusion, as `FactSet.subset` decides it. -/
instance : LE FactSet := ⟨fun s t => s.subset t = .ok true⟩

theorem le_iff {s t : FactSet} :
    s ≤ t ↔ s.width = t.width ∧ ∀ p, s.test p = true → t.test p = true := by
  change s.subset t = .ok true ↔ _
  rw [subset_eq_ok_iff]
  simp

instance : PartialOrder FactSet where
  le_refl s := le_iff.2 ⟨rfl, fun _ h => h⟩
  le_trans s t u hst htu := by
    rw [le_iff] at hst htu ⊢
    exact ⟨hst.1.trans htu.1, fun p h => htu.2 p (hst.2 p h)⟩
  le_antisymm s t hst hts := by
    rw [le_iff] at hst hts
    exact eq_of_test hst.1 fun p => Bool.eq_iff_iff.2 ⟨hst.2 p, hts.2 p⟩

theorem width_eq_of_le {s t : FactSet} (h : s ≤ t) : s.width = t.width := (le_iff.1 h).1

theorem test_of_le_of_test {s t : FactSet} (h : s ≤ t) {p : Nat} (hp : s.test p = true) :
    t.test p = true :=
  (le_iff.1 h).2 p hp

/-- Sets of one width are different iff some word is. -/
theorem differsFrom_eq_ok_iff {s t : FactSet} {b : Bool} :
    s.differsFrom t = .ok b ↔ s.width = t.width ∧ (b = true ↔ s ≠ t) := by
  rw [differsFrom, sameWidth_eq_ok_iff, ← exists_prop]
  refine exists_congr fun hw => Outcome.eq_iff_of_decides ?_
  rw [bne_iff_ne, not_iff_not]
  refine ⟨fun h => ?_, fun h => h ▸ rfl⟩
  exact eq_of_test hw fun p => by rw [test, test, h]

end FactSet

namespace Meet

/-- Sets of one width are met: the identity is such a set, and so is every meet of such sets. -/
structure KeepsWidth (m : Meet) (width : Nat) : Prop where
  /-- The identity has the width. -/
  unit_width : (m.unit width).width = width
  /-- Sets of the width have a meet of the width. -/
  meetList_total : ∀ {values : List FactSet}, (∀ v ∈ values, v.width = width) →
    ∃ s, m.meetList width values = .ok s ∧ s.width = width

/-- Whatever sets are met, their meet is as wide as the identity if there is one. -/
structure ChecksWidth (m : Meet) (width : Nat) : Prop where
  /-- The identity has the width. -/
  unit_width : (m.unit width).width = width
  /-- So has every meet. -/
  meetList_width : ∀ {values : List FactSet} {s : FactSet}, m.meetList width values = .ok s →
    s.width = width

/-- A meet of two sets that keeps widths makes a meet of lists that does. -/
theorem exists_foldlM_meet {meet : FactSet → FactSet → Except Fault FactSet} {width : Nat}
    (h : ∀ {s t : FactSet}, s.width = width → t.width = width →
      ∃ u, meet s t = .ok u ∧ u.width = width)
    {values : List FactSet} (hvalues : ∀ v ∈ values, v.width = width) {s : FactSet}
    (hs : s.width = width) : ∃ u, values.foldlM meet s = .ok u ∧ u.width = width := by
  induction values generalizing s with
  | nil => exact ⟨s, rfl, hs⟩
  | cons v rest ih =>
    obtain ⟨hv, hrest⟩ := List.forall_mem_cons.1 hvalues
    obtain ⟨t, ht, hwt⟩ := h hs hv
    obtain ⟨u, hu, hwu⟩ := ih hrest hwt
    exact ⟨u, Outcome.bind_eq_ok_iff.2 ⟨t, ht, hu⟩, hwu⟩

end Meet

/-- The two readings of a join: what must hold holds on all edges, what may hold on some edge. -/
inductive Mode where
  /-- On all edges. -/
  | must
  /-- On some edge. -/
  | may
  deriving DecidableEq, Repr

namespace Mode

/-- The meet of a mode. -/
def operator : Mode → Meet
  | must => .intersect
  | may => .union

theorem mem_all_iff {m : Meet} : m ∈ Meet.all ↔ ∃ k : Mode, m = k.operator := by
  simp only [Meet.all, List.mem_cons, List.not_mem_nil, or_false]
  constructor
  · rintro (rfl | rfl)
    · exact ⟨must, rfl⟩
    · exact ⟨may, rfl⟩
  · rintro ⟨must | may, rfl⟩
    · exact .inl rfl
    · exact .inr rfl

theorem meetList_eq (m : Mode) (width : Nat) (values : List FactSet) :
    m.operator.meetList width values = values.foldlM m.operator.meet (m.operator.unit width) := by
  cases m <;> rfl

/-! ### The meet of a list -/

/-- `s` is the meet of `values`, all of them `width` positions wide. -/
structure IsMeet (m : Mode) (width : Nat) (values : List FactSet) (s : FactSet) : Prop where
  /-- The values have the given width. -/
  width_values : ∀ v ∈ values, v.width = width
  /-- So has their meet. -/
  width_eq : s.width = width
  /-- A position is in the meet iff it is in all values, or in some. -/
  test_iff : ∀ p, p < width → (s.test p = true ↔ match m with
    | .must => ∀ v ∈ values, v.test p = true
    | .may => ∃ v ∈ values, v.test p = true)

theorem meet_eq_ok_iff {m : Mode} {s t u : FactSet} :
    m.operator.meet s t = .ok u ↔
      s.width = t.width ∧ u.width = s.width ∧ ∀ p, u.test p = match m with
        | .must => s.test p && t.test p
        | .may => s.test p || t.test p := by
  cases m with
  | must =>
    simp only [operator, Meet.intersect, FactSet.sameWidth_eq_ok_iff,
      ← exists_prop (a := s.width = t.width)]
    refine exists_congr fun hw => ⟨?_, fun ⟨hu, h⟩ => ?_⟩
    · rintro rfl
      exact ⟨rfl, FactSet.test_inter s t hw⟩
    · exact FactSet.eq_of_test hu.symm fun p => by rw [FactSet.test_inter, h p]
  | may =>
    simp only [operator, Meet.union, FactSet.sameWidth_eq_ok_iff,
      ← exists_prop (a := s.width = t.width)]
    refine exists_congr fun hw => ⟨?_, fun ⟨hu, h⟩ => ?_⟩
    · rintro rfl
      exact ⟨rfl, FactSet.test_union s t hw⟩
    · exact FactSet.eq_of_test hu.symm fun p => by rw [FactSet.test_union, h p]

@[simp] theorem width_unit (m : Mode) (n : Nat) : (m.operator.unit n).width = n := by
  cases m <;> rfl

theorem test_unit (m : Mode) {n p : Nat} (h : p < n) :
    (m.operator.unit n).test p = match m with
      | .must => true
      | .may => false := by
  cases m with
  | must => simp [operator, Meet.intersect, h]
  | may => simp [operator, Meet.union]

theorem IsMeet.unit_cons_iff {m : Mode} {width : Nat} {values : List FactSet} {u : FactSet} :
    m.IsMeet width (m.operator.unit width :: values) u ↔ m.IsMeet width values u := by
  constructor
  · rintro ⟨hv, hu, h⟩
    refine ⟨fun v hm => hv v (List.mem_cons_of_mem _ hm), hu, fun p hp => ?_⟩
    rw [h p hp]
    have hunit := test_unit m hp
    cases m <;> simp [hunit]
  · rintro ⟨hv, hu, h⟩
    refine ⟨List.forall_mem_cons.2 ⟨width_unit m width, hv⟩, hu, fun p hp => ?_⟩
    rw [h p hp]
    have hunit := test_unit m hp
    cases m <;> simp [hunit]

theorem IsMeet.singleton_iff {m : Mode} {width : Nat} {s u : FactSet} (hs : s.width = width) :
    m.IsMeet width [s] u ↔ u = s := by
  constructor
  · rintro ⟨-, hu, h⟩
    refine FactSet.eq_of_test (hu.trans hs.symm) fun p => ?_
    by_cases hp : p < width
    · rw [Bool.eq_iff_iff, h p hp]
      cases m <;> simp
    · rw [FactSet.test_of_le _ (by omega), FactSet.test_of_le _ (by omega)]
  · rintro rfl
    refine ⟨by simp [hs], hs, fun p _ => ?_⟩
    cases m <;> simp

theorem exists_meet {m : Mode} {width : Nat} {s t : FactSet} (hs : s.width = width)
    (ht : t.width = width) : ∃ u, m.operator.meet s t = .ok u ∧ u.width = width := by
  have hw : s.width = t.width := hs.trans ht.symm
  cases m <;> exact ⟨_, FactSet.sameWidth_eq_ok_iff.2 ⟨hw, rfl⟩, hs⟩

/-- A list of two values and more has the meet of the list where the first two are met. -/
theorem IsMeet.cons_cons_iff {m : Mode} {width : Nat} {s v : FactSet} {values : List FactSet}
    {u : FactSet} (hs : s.width = width) :
    m.IsMeet width (s :: v :: values) u ↔
      ∃ w, m.operator.meet s v = .ok w ∧ m.IsMeet width (w :: values) u := by
  constructor
  · rintro ⟨hv, hu, h⟩
    obtain ⟨w, hw, -⟩ := exists_meet (m := m) hs (hv v (by simp))
    obtain ⟨-, hwid, htest⟩ := meet_eq_ok_iff.1 hw
    refine ⟨w, hw, ⟨?_, hu, fun p hp => ?_⟩⟩
    · exact List.forall_mem_cons.2 ⟨hwid.trans hs, fun x hx => hv x (by simp [hx])⟩
    · rw [h p hp]
      have hp' := htest p
      cases m <;> simp [hp', and_assoc, or_assoc]
  · rintro ⟨w, hw, hv, hu, h⟩
    obtain ⟨hsv, hwid, htest⟩ := meet_eq_ok_iff.1 hw
    refine ⟨?_, hu, fun p hp => ?_⟩
    · rw [List.forall_mem_cons] at hv
      exact List.forall_mem_cons.2 ⟨hs, List.forall_mem_cons.2 ⟨hsv.symm.trans hs, hv.2⟩⟩
    · rw [h p hp]
      have hp' := htest p
      cases m <;> simp [hp', and_assoc, or_assoc]

theorem foldlM_meet_eq_ok_iff {m : Mode} {width : Nat} {values : List FactSet} {s u : FactSet}
    (hs : s.width = width) :
    values.foldlM m.operator.meet s = .ok u ↔ m.IsMeet width (s :: values) u := by
  induction values generalizing s with
  | nil =>
    rw [List.foldlM_nil, Outcome.pure_eq_ok_iff, IsMeet.singleton_iff hs]
    exact eq_comm
  | cons v values ih =>
    rw [List.foldlM_cons, Outcome.bind_eq_ok_iff, IsMeet.cons_cons_iff hs]
    refine exists_congr fun w => and_congr_right fun hw => ?_
    exact ih ((meet_eq_ok_iff.1 hw).2.1.trans hs)

/-- **The meet of a list** exists iff the sets have the given width, and then holds what all of
them hold, or what some of them holds. -/
theorem meetList_eq_ok_iff {m : Mode} {width : Nat} {values : List FactSet} {u : FactSet} :
    m.operator.meetList width values = .ok u ↔ m.IsMeet width values u := by
  rw [meetList_eq, foldlM_meet_eq_ok_iff (width_unit m width), IsMeet.unit_cons_iff]

theorem exists_isMeet {m : Mode} {width : Nat} {values : List FactSet}
    (h : ∀ v ∈ values, v.width = width) : ∃ u, m.IsMeet width values u := by
  obtain ⟨u, hu, -⟩ := Meet.exists_foldlM_meet exists_meet h (width_unit m width)
  exact ⟨u, IsMeet.unit_cons_iff.1 ((foldlM_meet_eq_ok_iff (width_unit m width)).1 hu)⟩

theorem keepsWidth (m : Mode) (width : Nat) : m.operator.KeepsWidth width where
  unit_width := width_unit m width
  meetList_total h := by
    obtain ⟨u, hu⟩ := exists_isMeet (m := m) h
    exact ⟨u, meetList_eq_ok_iff.2 hu, hu.width_eq⟩

theorem checksWidth (m : Mode) (width : Nat) : m.operator.ChecksWidth width where
  unit_width := width_unit m width
  meetList_width h := (meetList_eq_ok_iff.1 h).width_eq

/-! ### The order of a meet -/

/-- `s` is below `t` in the order of the meet: meeting `t` with something may give `s`. -/
def Below (m : Mode) (s t : FactSet) : Prop :=
  match m with
  | .must => s ≤ t
  | .may => t ≤ s

variable {m : Mode} {s t u : FactSet}

theorem Below.refl (m : Mode) (s : FactSet) : m.Below s s := by
  cases m <;> exact le_refl s

theorem Below.trans (hst : m.Below s t) (htu : m.Below t u) : m.Below s u := by
  cases m with
  | must => exact le_trans hst htu
  | may => exact le_trans htu hst

theorem Below.antisymm (hst : m.Below s t) (hts : m.Below t s) : s = t := by
  cases m with
  | must => exact le_antisymm hst hts
  | may => exact le_antisymm hts hst

theorem Below.width_eq (h : m.Below s t) : s.width = t.width := by
  cases m with
  | must => exact FactSet.width_eq_of_le h
  | may => exact (FactSet.width_eq_of_le h).symm

theorem below_unit (m : Mode) (s : FactSet) : m.Below s (m.operator.unit s.width) := by
  cases m with
  | must =>
    refine FactSet.le_iff.2 ⟨rfl, fun p hp => ?_⟩
    simpa [operator, Meet.intersect] using FactSet.lt_width_of_test hp
  | may => exact FactSet.le_iff.2 ⟨rfl, fun p hp => by simp [operator, Meet.union] at hp⟩

/-- Lower values have a lower meet. -/
theorem IsMeet.mono {width : Nat} {xs ys : List FactSet} (h : ∀ y ∈ ys, ∃ x ∈ xs, m.Below x y)
    (hs : m.IsMeet width xs s) (ht : m.IsMeet width ys t) : m.Below s t := by
  cases m with
  | must =>
    refine FactSet.le_iff.2 ⟨hs.width_eq.trans ht.width_eq.symm, fun p hp => ?_⟩
    have hlt : p < width := hs.width_eq ▸ FactSet.lt_width_of_test hp
    have hall := (hs.test_iff p hlt).1 hp
    refine (ht.test_iff p hlt).2 fun y hy => ?_
    obtain ⟨x, hx, hxy⟩ := h y hy
    exact FactSet.test_of_le_of_test hxy (hall x hx)
  | may =>
    refine FactSet.le_iff.2 ⟨ht.width_eq.trans hs.width_eq.symm, fun p hp => ?_⟩
    have hlt : p < width := ht.width_eq ▸ FactSet.lt_width_of_test hp
    obtain ⟨y, hy, hyp⟩ := (ht.test_iff p hlt).1 hp
    obtain ⟨x, hx, hxy⟩ := h y hy
    exact (hs.test_iff p hlt).2 ⟨x, hx, FactSet.test_of_le_of_test hxy hyp⟩

/-! ### Depth -/

/-- How far a set has come down from the identity: the positions where the two differ. -/
def depth (m : Mode) (s : FactSet) : Nat :=
  ((Finset.range s.width).filter fun p => s.test p ≠ (m.operator.unit s.width).test p).card

theorem depth_le_width (m : Mode) (s : FactSet) : m.depth s ≤ s.width :=
  (Finset.card_filter_le _ _).trans (Finset.card_range _).le

/-- Where `t` has come down, a set below `t` has. -/
theorem test_ne_unit_of_below (h : m.Below s t) {p : Nat} (hp : p < t.width)
    (ht : t.test p ≠ (m.operator.unit t.width).test p) :
    s.test p ≠ (m.operator.unit s.width).test p := by
  have hw := h.width_eq
  rw [test_unit m (hw ▸ hp)]
  rw [test_unit m hp] at ht
  cases m with
  | must =>
    intro hs
    exact ht (FactSet.test_of_le_of_test h hs)
  | may =>
    have htrue : t.test p = true := by simpa using ht
    simp [FactSet.test_of_le_of_test h htrue]

/-- A set below another and different from it is deeper. -/
theorem depth_lt (h : m.Below s t) (hne : s ≠ t) : m.depth t < m.depth s := by
  have hw := h.width_eq
  apply Finset.card_lt_card
  refine (Finset.ssubset_iff_of_subset ?_).2 ?_
  · intro p hp
    rw [Finset.mem_filter, Finset.mem_range] at hp ⊢
    exact ⟨hw ▸ hp.1, test_ne_unit_of_below h hp.1 hp.2⟩
  · obtain ⟨p, hp⟩ : ∃ p, s.test p ≠ t.test p := by
      by_contra hall
      push Not at hall
      exact hne (FactSet.eq_of_test hw hall)
    have hlt : p < t.width := by
      by_contra hle
      rw [s.test_of_le (by omega), t.test_of_le (by omega)] at hp
      exact hp rfl
    -- `s` and `t` differ at `p`, so `t` agrees with the identity there and `s` does not
    have ht : t.test p = (m.operator.unit t.width).test p := by
      by_contra ht
      have hs := test_ne_unit_of_below h hlt ht
      rw [hw] at hs
      revert hp hs ht
      cases s.test p <;> cases t.test p <;> cases (m.operator.unit t.width).test p <;> simp
    refine ⟨p, ?_, ?_⟩
    · rw [Finset.mem_filter, Finset.mem_range]
      exact ⟨hw ▸ hlt, by rw [hw, ← ht]; exact hp⟩
    · simp [ht]

theorem depth_le (h : m.Below s t) : m.depth t ≤ m.depth s := by
  by_cases hne : s = t
  · rw [hne]
  · exact (depth_lt h hne).le

end Mode

end FactFlow
