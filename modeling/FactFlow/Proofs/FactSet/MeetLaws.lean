import FactFlow.Proofs.FactSet.Packed

/-!
# The laws of the two meets

What `Mode.IsMeet` says of a list of sets depends on which sets are in the list, not on their order
nor on how often they occur (`Mode.IsMeet.congr_mem`).  The meet of two sets is the meet of a list
of two, so the laws of a meet are statements about members: `[a, b]` has the members of `[b, a]`,
and `[a, a]` those of `[a]`.  The identity adds nothing to a list (`Mode.IsMeet.unit_cons_iff`).

A set is its words, so these are equations between words too (`Mode.packed_meet`,
`Mode.packed_unit`).  For `intersect` the identity law needs that the end of the last word is clear
in the value, and for both meets the identity must have as many words as the value.
-/

namespace FactFlow

namespace Mode

variable {m : Mode} {n : Nat} {a b c u : FactSet} {vs ws : List FactSet}

/-! ### Members -/

/-- Only the members of a list decide what its meet is. -/
theorem IsMeet.congr_mem (h : ∀ v, v ∈ vs ↔ v ∈ ws) (hu : m.IsMeet n vs u) : m.IsMeet n ws u where
  width_values v hv := hu.width_values v ((h v).2 hv)
  width_eq := hu.width_eq
  test_iff p hp := by
    rw [hu.test_iff p hp]
    cases m with
    | must => simp only [h]
    | may => simp only [h]

theorem meet_eq_ok_iff_isMeet (ha : a.width = n) :
    m.operator.meet a b = .ok u ↔ m.IsMeet n [a, b] u := by
  rw [IsMeet.cons_cons_iff ha]
  constructor
  · intro hu
    have hw := (meet_eq_ok_iff.1 hu).2.1
    exact ⟨u, hu, (IsMeet.singleton_iff (hw.trans ha)).2 rfl⟩
  · rintro ⟨w, hw, hu⟩
    have hwidth := (meet_eq_ok_iff.1 hw).2.1
    rwa [(IsMeet.singleton_iff (hwidth.trans ha)).1 hu]

/-! ### Two and three sets -/

theorem meet_comm (ha : a.width = n) (hb : b.width = n) :
    m.operator.meet a b = m.operator.meet b a := by
  obtain ⟨u, hu, -⟩ := exists_meet (m := m) ha hb
  have hmeet := (meet_eq_ok_iff_isMeet ha).1 hu
  rw [hu, (meet_eq_ok_iff_isMeet hb).2 (hmeet.congr_mem fun v => by simp [or_comm])]

theorem meet_self (a : FactSet) : m.operator.meet a a = .ok a := by
  have hsingle : m.IsMeet a.width [a] a := (IsMeet.singleton_iff rfl).2 rfl
  exact (meet_eq_ok_iff_isMeet rfl).2 (hsingle.congr_mem (by simp))

theorem meet_unit (ha : a.width = n) : m.operator.meet a (m.operator.unit n) = .ok a := by
  rw [meet_comm ha (width_unit m n)]
  refine (meet_eq_ok_iff_isMeet (width_unit m n)).2 (IsMeet.unit_cons_iff.2 ?_)
  exact (IsMeet.singleton_iff ha).2 rfl

theorem bind_meet_eq_ok_iff (ha : a.width = n) :
    (m.operator.meet a b >>= fun w => m.operator.meet w c) = .ok u ↔ m.IsMeet n [a, b, c] u := by
  rw [Outcome.bind_eq_ok_iff, IsMeet.cons_cons_iff ha]
  refine exists_congr fun w => and_congr_right fun hw => ?_
  exact meet_eq_ok_iff_isMeet ((meet_eq_ok_iff.1 hw).2.1.trans ha)

theorem meet_assoc (ha : a.width = n) (hb : b.width = n) (hc : c.width = n) :
    (m.operator.meet a b >>= fun w => m.operator.meet w c) =
      (m.operator.meet b c >>= fun w => m.operator.meet a w) := by
  have hwidths : ∀ v ∈ [a, b, c], v.width = n := by simp [ha, hb, hc]
  obtain ⟨u, hu⟩ := exists_isMeet (m := m) hwidths
  obtain ⟨w, hw, hwidth⟩ := exists_meet (m := m) hb hc
  have hright : (m.operator.meet b c >>= fun w => m.operator.meet w a) = .ok u :=
    (bind_meet_eq_ok_iff hb).2 (hu.congr_mem fun v => by simp [or_comm, or_left_comm])
  rw [(bind_meet_eq_ok_iff ha).2 hu, hw, Outcome.ok_bind, meet_comm ha hwidth]
  rw [hw, Outcome.ok_bind] at hright
  exact hright.symm

/-! ### Inclusion -/

/-- A set is its own meet with another iff it is below the other. -/
theorem meet_eq_left_iff : m.operator.meet a b = .ok a ↔ m.Below a b := by
  rw [meet_eq_ok_iff]
  cases m with
  | must =>
    have hbit : ∀ x y : Bool, x = (x && y) ↔ (x = true → y = true) := by decide
    simp only [Below, FactSet.le_iff, hbit, true_and]
  | may =>
    have hbit : ∀ x y : Bool, x = (x || y) ↔ (y = true → x = true) := by decide
    simp only [Below, FactSet.le_iff, hbit, true_and, eq_comm (a := a.width)]

theorem subset_decides (ha : a.width = n) (hb : b.width = n) :
    ∃ included, a.subset b = .ok included ∧ (included = true ↔ Meet.intersect.meet a b = .ok a) ∧
      (included = true ↔ Meet.union.meet a b = .ok b) := by
  have hw : a.width = b.width := ha.trans hb.symm
  obtain ⟨included, hincluded⟩ : ∃ included, a.subset b = .ok included := ⟨_, dif_pos hw⟩
  have hle : included = true ↔ a ≤ b := by
    rw [(FactSet.subset_eq_ok_iff.1 hincluded).2, FactSet.le_iff, and_iff_right hw]
  refine ⟨included, hincluded, ?_, ?_⟩
  · exact hle.trans (meet_eq_left_iff (m := must)).symm
  · have hcomm : Meet.union.meet a b = Meet.union.meet b a := meet_comm (m := may) ha hb
    rw [hle, hcomm]
    exact (meet_eq_left_iff (m := may)).symm

/-! ### Words -/

/-- How the meet of a mode combines words. -/
def combination : Mode → Combination
  | .must => .inter
  | .may => .union

/-- A meet is what the words of the first set become when the second is combined into them. -/
theorem packed_meet (h : m.operator.meet a b = .ok u) :
    (a.packed.combine m.combination b.packed).1 = u.packed := by
  cases m with
  | must =>
    obtain ⟨hw, rfl⟩ := FactSet.sameWidth_eq_ok_iff.1 h
    rw [FactSet.packed_combine, combination, FactSet.combine_of_width .inter hw]
    rfl
  | may =>
    obtain ⟨hw, rfl⟩ := FactSet.sameWidth_eq_ok_iff.1 h
    rw [FactSet.packed_combine, combination, FactSet.combine_of_width .union hw]
    rfl

theorem packed_unit (m : Mode) (n : Nat) : (m.operator.unit n).packed = match m with
    | .must => Packed.full n
    | .may => Packed.none n := by
  cases m with
  | must => exact FactSet.packed_full n
  | may => rfl

/-! ### Lists -/

theorem meetList_congr_mem (hvs : ∀ v ∈ vs, v.width = n) (h : ∀ v, v ∈ vs ↔ v ∈ ws) :
    m.operator.meetList n vs = m.operator.meetList n ws := by
  obtain ⟨u, hu⟩ := exists_isMeet (m := m) hvs
  rw [meetList_eq_ok_iff.2 hu, meetList_eq_ok_iff.2 (hu.congr_mem h)]

/-- The laws of the meets on sets of width `n`. -/
structure Laws (n : Nat) : Prop where
  /-- Sets of one width have a meet. -/
  total : ∀ (m : Mode) {a b : FactSet}, a.width = n → b.width = n →
    ∃ u, m.operator.meet a b = .ok u ∧ u.width = n
  /-- The order of two sets does not matter. -/
  comm : ∀ (m : Mode) {a b : FactSet}, a.width = n → b.width = n →
    m.operator.meet a b = m.operator.meet b a
  /-- Nor does it matter which two of three sets are met first. -/
  assoc : ∀ (m : Mode) {a b c : FactSet}, a.width = n → b.width = n → c.width = n →
    (m.operator.meet a b >>= fun w => m.operator.meet w c) =
      (m.operator.meet b c >>= fun w => m.operator.meet a w)
  /-- A set is its own meet. -/
  idem : ∀ (m : Mode) {a : FactSet}, a.width = n → m.operator.meet a a = .ok a
  /-- The identity changes no bit of any word. -/
  unit : ∀ (m : Mode) {a : FactSet}, a.width = n → m.operator.meet a (m.operator.unit n) = .ok a
  /-- Inclusion is what either meet says it is. -/
  subset : ∀ {a b : FactSet}, a.width = n → b.width = n →
    ∃ included, a.subset b = .ok included ∧ (included = true ↔ Meet.intersect.meet a b = .ok a) ∧
      (included = true ↔ Meet.union.meet a b = .ok b)
  /-- A meet is made on words, in place. -/
  words : ∀ (m : Mode) {a b u : FactSet}, m.operator.meet a b = .ok u →
    (a.packed.combine m.combination b.packed).1 = u.packed
  /-- So is the identity. -/
  words_unit : ∀ m : Mode, (m.operator.unit n).packed = match m with
    | .must => Packed.full n
    | .may => Packed.none n
  /-- The meet of a list has what all of its sets have, or what some of them has. -/
  list : ∀ (m : Mode) {vs : List FactSet}, (∀ v ∈ vs, v.width = n) →
    ∃ u, m.operator.meetList n vs = .ok u ∧ u.width = n ∧
      ∀ p, p < n → (u.test p = true ↔ match m with
      | .must => ∀ v ∈ vs, v.test p = true
      | .may => ∃ v ∈ vs, v.test p = true)
  /-- The order of a list does not matter. -/
  perm : ∀ (m : Mode) {vs ws : List FactSet}, (∀ v ∈ vs, v.width = n) → vs.Perm ws →
    m.operator.meetList n vs = m.operator.meetList n ws
  /-- Nor does it matter how often a set occurs in it. -/
  again : ∀ (m : Mode) {v : FactSet} {pre post : List FactSet},
    (∀ w ∈ pre ++ post, w.width = n) → v ∈ pre ++ post →
    m.operator.meetList n (pre ++ v :: post) = m.operator.meetList n (pre ++ post)

/-- **The meets are lawful** on sets of every width. -/
theorem meets_lawful (n : Nat) : Laws n where
  total _ _ _ := exists_meet
  comm _ _ _ := meet_comm
  assoc _ _ _ _ := meet_assoc
  idem _ a _ := meet_self a
  unit _ _ := meet_unit
  subset := subset_decides
  words _ _ _ _ := packed_meet
  words_unit m := packed_unit m n
  list m vs hvs := by
    obtain ⟨u, hu⟩ := exists_isMeet (m := m) hvs
    exact ⟨u, meetList_eq_ok_iff.2 hu, hu.width_eq, hu.test_iff⟩
  perm _ _ _ hvs h := meetList_congr_mem hvs fun _ => h.mem_iff
  again m v pre post hvs hv := by
    refine (meetList_congr_mem hvs fun w => ?_).symm
    rw [List.perm_middle.mem_iff, List.mem_cons]
    exact ⟨.inr, fun h => h.elim (fun hw => hw ▸ hv) id⟩

end Mode

end FactFlow
