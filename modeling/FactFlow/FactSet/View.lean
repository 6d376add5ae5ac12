import FactFlow.FactSet

/-!
# What the operations do to the view

Every operation on packed sets is described by one equation on `FactSet.test`, and a set is
determined by its width and its view (`FactSet.eq_of_test`).  Reasoning about sets needs nothing
else; the words stay out of sight.
-/

namespace FactFlow

namespace Word

theorem and_neg_eq {w : Word} (h : w ≠ 0#64) : w &&& -w = BitVec.twoPow 64 w.ctz.toNat := by
  have hset := BitVec.getLsbD_true_ctz_of_ne_zero h
  have hlt : w.ctz.toNat < 64 := BitVec.lt_of_getLsbD hset
  apply BitVec.eq_of_getLsbD_eq
  intro i hi
  rw [BitVec.getLsbD_and, BitVec.getLsbD_neg, BitVec.getLsbD_twoPow]
  by_cases hik : i = w.ctz.toNat
  · have hbelow : ¬ ∃ j, j < i ∧ w.getLsbD j = true := by
      rintro ⟨j, hj, hbit⟩
      rw [BitVec.getLsbD_false_of_lt_ctz (hik ▸ hj)] at hbit
      cases hbit
    subst hik
    simp [hset, hlt, hbelow]
  · by_cases hbit : w.getLsbD i = true
    · have hgt : w.ctz.toNat < i := by
        apply Nat.lt_of_le_of_ne _ (Ne.symm hik)
        apply Nat.le_of_not_lt
        intro hlow
        rw [BitVec.getLsbD_false_of_lt_ctz hlow] at hbit
        cases hbit
      have hbelow : ∃ j, j < i ∧ w.getLsbD j = true := ⟨_, hgt, hset⟩
      simp [hbelow, hi, Ne.symm hik]
    · simp [hbit, Ne.symm hik]

/-- The lowest set bit is preceded by zeros only. -/
theorem lowest_eq {w : Word} (h : w ≠ 0#64) : lowest w = w.ctz.toNat := by
  have hlt : w.ctz.toNat < 64 := BitVec.lt_of_getLsbD (BitVec.getLsbD_true_ctz_of_ne_zero h)
  rw [lowest, and_neg_eq h, BitVec.toNat_twoPow,
    Nat.mod_eq_of_lt (Nat.pow_lt_pow_right (by omega) hlt), Nat.log2_two_pow]

/-- Clearing the lowest set bit leaves all others alone. -/
theorem getLsbD_clearLowest {w : Word} (h : w ≠ 0#64) (i : Nat) :
    (w &&& (w - 1#64)).getLsbD i = (w.getLsbD i && !decide (i = lowest w)) := by
  by_cases hi : i < 64
  · have hlt : w.ctz.toNat < 64 := BitVec.lt_of_getLsbD (BitVec.getLsbD_true_ctz_of_ne_zero h)
    have hlow : (w.getLsbD i && (-w).getLsbD i) = decide (i = lowest w) := by
      rw [← BitVec.getLsbD_and, and_neg_eq h, lowest_eq h, BitVec.getLsbD_twoPow]
      simp [hlt, eq_comm]
    have hsub : (w - 1#64).getLsbD i = !(-w).getLsbD i := by
      rw [← BitVec.not_neg, BitVec.getLsbD_not]
      simp [hi]
    rw [BitVec.getLsbD_and, hsub, ← hlow]
    cases w.getLsbD i <;> simp
  · simp [BitVec.getLsbD_of_ge _ i (Nat.le_of_not_lt hi)]

theorem mem_positions_iff {w : Word} {p : Nat} : p ∈ positions w ↔ w.getLsbD p = true := by
  induction w using positions.induct with
  | case1 => simp [positions]
  | case2 w h ih =>
    have hset : w.getLsbD (lowest w) = true := by
      rw [lowest_eq h]
      exact BitVec.getLsbD_true_ctz_of_ne_zero h
    rw [positions, if_neg h, List.mem_cons, ih, getLsbD_clearLowest h]
    by_cases hp : p = lowest w
    · simp [hp, hset]
    · simp [hp]

end Word

/-- Words are determined by their number and their bits. -/
theorem words_eq_of_bitAt {xs ys : Array Word} (hsize : xs.size = ys.size)
    (h : ∀ p, bitAt xs p = bitAt ys p) : xs = ys := by
  apply Array.ext hsize
  intro k hk hk'
  apply BitVec.eq_of_getLsbD_eq
  intro i hi
  have hbit := h (64 * k + i)
  have hdiv : (64 * k + i) / 64 = k := by omega
  have hmod : (64 * k + i) % 64 = i := by omega
  simpa [bitAt, hdiv, hmod, hk, hk'] using hbit

namespace FactSet

theorem test_of_le (s : FactSet) {p : Nat} (h : s.width ≤ p) : s.test p = false :=
  s.bitAt_of_le p h

theorem lt_width_of_test {s : FactSet} {p : Nat} (h : s.test p = true) : p < s.width := by
  apply Nat.lt_of_not_le
  intro hle
  rw [s.test_of_le hle] at h
  cases h

/-- A set is determined by its width and its view. -/
theorem eq_of_test {s t : FactSet} (hw : s.width = t.width)
    (h : ∀ p, s.test p = t.test p) : s = t := by
  have hwords : s.words = t.words :=
    words_eq_of_bitAt (by rw [s.size_words, t.size_words, hw]) h
  cases s
  cases t
  cases hw
  cases hwords
  rfl

/-- The positions listed are those of the view. -/
theorem mem_positions_iff {s : FactSet} {p : Nat} : p ∈ s.positions ↔ s.test p = true := by
  simp only [positions, List.mem_flatMap, Prod.exists, List.mem_zipIdx_iff_getElem?, List.mem_map,
    Word.mem_positions_iff, Array.getElem?_toList]
  constructor
  · rintro ⟨w, k, hw, q, hq, rfl⟩
    have hlt : q < 64 := BitVec.lt_of_getLsbD hq
    have hdiv : (64 * k + q) / 64 = k := by omega
    have hmod : (64 * k + q) % 64 = q := by omega
    rw [test, bitAt, hdiv, hmod, hw]
    exact hq
  · intro hp
    cases hw : s.words[p / 64]? with
    | none => simp [test, bitAt, hw] at hp
    | some w =>
      rw [test, bitAt, hw] at hp
      exact ⟨w, p / 64, hw, p % 64, hp, by omega⟩

@[simp] theorem width_none (n : Nat) : (none n).width = n := rfl

@[simp] theorem test_none (n p : Nat) : (none n).test p = false := bitAt_replicate _ p

@[simp] theorem width_full (n : Nat) : (full n).width = n := rfl

@[simp] theorem test_full (n p : Nat) : (full n).test p = decide (p < n) := bitAt_ofFn_low n p

@[simp] theorem width_insertAt (s : FactSet) (p : Nat) (h : p < s.width) :
    (s.insertAt p h).width = s.width := rfl

@[simp] theorem test_insertAt (s : FactSet) (p : Nat) (h : p < s.width) (q : Nat) :
    (s.insertAt p h).test q = (decide (q = p) || s.test q) := by
  change bitAt (s.words.modify _ _) q = _
  rw [bitAt_modify (s.word_lt_size h)]
  split
  · rename_i hpq
    rw [BitVec.getLsbD_or, BitVec.getLsbD_twoPow, test, bitAt, ← hpq, Bool.or_comm]
    congr 1
    rw [Bool.eq_iff_iff]
    simp only [Bool.and_eq_true, decide_eq_true_eq]
    omega
  · rename_i hpq
    have hne : q ≠ p := fun h => hpq (by rw [h])
    simp [test, hne]

@[simp] theorem width_eraseAt (s : FactSet) (p : Nat) (h : p < s.width) :
    (s.eraseAt p h).width = s.width := rfl

@[simp] theorem test_eraseAt (s : FactSet) (p : Nat) (h : p < s.width) (q : Nat) :
    (s.eraseAt p h).test q = (!decide (q = p) && s.test q) := by
  change bitAt (s.words.modify _ _) q = _
  rw [bitAt_modify (s.word_lt_size h)]
  split
  · rename_i hpq
    have hlt : q % 64 < 64 := by omega
    rw [BitVec.getLsbD_and, BitVec.getLsbD_not, BitVec.getLsbD_twoPow, test, bitAt, ← hpq,
      Bool.and_comm]
    congr 1
    rw [Bool.eq_iff_iff]
    simp only [Bool.and_eq_true, decide_eq_true_eq, Bool.not_eq_true', decide_eq_false_iff_not,
      Bool.and_eq_false_imp]
    omega
  · rename_i hpq
    have hne : q ≠ p := fun h => hpq (by rw [h])
    simp [test, hne]

theorem test_zipWords {f : Word → Word → Word} {hf} (s t : FactSet) (h : s.width = t.width)
    (p : Nat) :
    (zipWords f hf s t h).test p =
      (f (s.words[p / 64]?.getD 0#64) (t.words[p / 64]?.getD 0#64)).getLsbD (p % 64) := by
  have hzero : f 0#64 0#64 = 0#64 := by
    apply BitVec.eq_of_getLsbD_eq
    intro i _
    simpa using hf 0#64 0#64 i (by simp) (by simp)
  exact bitAt_zipWith (by rw [s.size_words, t.size_words, h]) hzero p

@[simp] theorem width_union (s t : FactSet) (h : s.width = t.width) :
    (s.union t h).width = s.width := rfl

@[simp] theorem test_union (s t : FactSet) (h : s.width = t.width) (p : Nat) :
    (s.union t h).test p = (s.test p || t.test p) := by
  rw [union, test_zipWords, BitVec.getLsbD_or]
  rfl

@[simp] theorem width_inter (s t : FactSet) (h : s.width = t.width) :
    (s.inter t h).width = s.width := rfl

@[simp] theorem test_inter (s t : FactSet) (h : s.width = t.width) (p : Nat) :
    (s.inter t h).test p = (s.test p && t.test p) := by
  rw [inter, test_zipWords, BitVec.getLsbD_and]
  rfl

@[simp] theorem width_diff (s t : FactSet) (h : s.width = t.width) :
    (s.diff t h).width = s.width := rfl

@[simp] theorem test_diff (s t : FactSet) (h : s.width = t.width) (p : Nat) :
    (s.diff t h).test p = (s.test p && !t.test p) := by
  have hlt : p % 64 < 64 := by omega
  rw [diff, test_zipWords, BitVec.getLsbD_and, BitVec.getLsbD_not]
  simp [test, bitAt, hlt]

/-- Adding bits from position `k` on keeps the width and adds just those bits to the view. -/
theorem insertFrom_view (bs : List Bool) (s : FactSet) (k : Nat)
    (hw : k + bs.length ≤ s.width) (p : Nat) :
    (insertFrom s k bs).width = s.width ∧
      (insertFrom s k bs).test p = (s.test p || (decide (k ≤ p) && bs.getD (p - k) false)) := by
  induction bs generalizing s k with
  | nil => simp [insertFrom]
  | cons b bs ih =>
    have hk : k < s.width := by simp only [List.length_cons] at hw; omega
    have hw' : k + 1 + bs.length ≤ s.width := by simp only [List.length_cons] at hw; omega
    have hshift : k ≤ p → p ≠ k → (b :: bs).getD (p - k) false = bs.getD (p - (k + 1)) false := by
      intro hle hne
      rw [show p - k = (p - (k + 1)) + 1 by omega]
      simp
    cases b with
    | true =>
      have hstep : insertFrom s k (true :: bs) = insertFrom (s.insertAt k hk) (k + 1) bs := by
        simp [insertFrom, hk]
      obtain ⟨hwid, htest⟩ := ih (s.insertAt k hk) (k + 1) hw'
      rw [hstep]
      refine ⟨hwid, ?_⟩
      rw [htest, test_insertAt]
      by_cases hpk : p = k
      · subst hpk; simp
      · by_cases hle : k ≤ p
        · have hle' : k + 1 ≤ p := by omega
          rw [hshift hle hpk]
          simp [hpk, hle, hle']
        · have hle' : ¬ k + 1 ≤ p := by omega
          simp [hpk, hle, hle']
    | false =>
      have hstep : insertFrom s k (false :: bs) = insertFrom s (k + 1) bs := by
        simp [insertFrom]
      obtain ⟨hwid, htest⟩ := ih s (k + 1) hw'
      rw [hstep]
      refine ⟨hwid, ?_⟩
      rw [htest]
      by_cases hpk : p = k
      · subst hpk
        have hle' : ¬ p + 1 ≤ p := by omega
        simp [hle']
      · by_cases hle : k ≤ p
        · have hle' : k + 1 ≤ p := by omega
          rw [hshift hle hpk]
          simp [hle, hle']
        · have hle' : ¬ k + 1 ≤ p := by omega
          simp [hle, hle']

@[simp] theorem width_ofBits (bs : List Bool) : (ofBits bs).width = bs.length :=
  (insertFrom_view bs (none bs.length) 0 (by simp) 0).1

@[simp] theorem test_ofBits (bs : List Bool) (p : Nat) :
    (ofBits bs).test p = bs.getD p false := by
  rw [ofBits, (insertFrom_view bs (none bs.length) 0 (by simp) p).2]
  simp

/-- Reading a set back from its bits. -/
@[simp] theorem bits_ofBits (bs : List Bool) : (ofBits bs).bits = bs := by
  apply List.ext_getElem
  · simp [bits]
  · intro k hk hk'
    simp [bits, List.getElem?_eq_getElem hk']

end FactSet

end FactFlow
