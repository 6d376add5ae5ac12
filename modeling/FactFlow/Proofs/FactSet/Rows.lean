import FactFlow.Proofs.FactSet.Order
import Mathlib.Data.List.Sort

/-!
# Fact sets as rows of bits

`FactSet.bits` writes a set out position by position.  A set is determined by its row
(`FactSet.bits_inj`), so what the operations do can be said on rows, where no words are left.

Three operations never look at a position.  `FactSet.count` adds up the set bits of each word,
`FactSet.isNone` compares words with zero, and `FactSet.positions` takes the lowest bit of a word
again and again.  They agree with the row because the words hold no bit beyond the width: a bit
there would be counted and listed, but it is not in the row.
-/

namespace FactFlow

/-! ### Words side by side -/

theorem bitAt_cons_of_lt (w : Word) (words : List Word) {p : Nat} (h : p < 64) :
    bitAt (w :: words).toArray p = w.getLsbD p := by
  have hdiv : p / 64 = 0 := by omega
  have hmod : p % 64 = p := by omega
  simp [bitAt, hdiv, hmod]

theorem bitAt_cons_add (w : Word) (words : List Word) (p : Nat) :
    bitAt (w :: words).toArray (64 + p) = bitAt words.toArray p := by
  have hdiv : (64 + p) / 64 = p / 64 + 1 := by omega
  have hmod : (64 + p) % 64 = p % 64 := by omega
  simp [bitAt, hdiv, hmod]

/-- The set bits of each word, added up, are the set bits of all words. -/
theorem foldr_ones_eq_countP (words : List Word) :
    (words.map Word.ones).foldr (· + ·) 0 =
      (List.range (64 * words.length)).countP (bitAt words.toArray) := by
  induction words with
  | nil => rfl
  | cons w words ih =>
    have hlength : 64 * (w :: words).length = 64 + 64 * words.length := by
      rw [List.length_cons, Nat.mul_succ, Nat.add_comm]
    have hfirst : (List.range 64).countP (bitAt (w :: words).toArray) = w.ones :=
      List.countP_congr fun p hp => by
        rw [bitAt_cons_of_lt w words (List.mem_range.1 hp)]
    have hrest : bitAt (w :: words).toArray ∘ (64 + ·) = bitAt words.toArray :=
      funext fun p => bitAt_cons_add w words p
    rw [List.map_cons, List.foldr_cons, ih, hlength, List.range_add, List.countP_append, hfirst,
      List.countP_map, hrest]

/-- The lowest bit is listed first: clearing it leaves higher ones only. -/
theorem Word.positions_pairwise (w : Word) : (positions w).Pairwise (· < ·) := by
  induction w using positions.induct with
  | case1 => simp [positions]
  | case2 w h ih =>
    rw [positions, if_neg h]
    refine List.pairwise_cons.2 ⟨fun p hp => ?_, ih⟩
    rw [mem_positions_iff, getLsbD_clearLowest h] at hp
    simp only [Bool.and_eq_true, Bool.not_eq_true', decide_eq_false_iff_not] at hp
    obtain ⟨hset, hne⟩ := hp
    refine Nat.lt_of_le_of_ne (Nat.le_of_not_lt fun hlt => ?_) (Ne.symm hne)
    rw [lowest_eq h] at hlt
    rw [BitVec.getLsbD_false_of_lt_ctz hlt] at hset
    cases hset

namespace FactSet

variable {s t : FactSet}

/-! ### The row of a set -/

@[simp] theorem length_bits (s : FactSet) : s.bits.length = s.width := by simp [bits]

theorem getElem?_bits (s : FactSet) {p : Nat} (h : p < s.width) :
    s.bits[p]? = some (s.test p) := by
  simp [bits, h]

theorem bits_eq_iff {row : List Bool} :
    s.bits = row ↔ s.width = row.length ∧ ∀ p (h : p < row.length), s.test p = row[p] := by
  constructor
  · rintro rfl
    simp [bits]
  · rintro ⟨hw, h⟩
    apply List.ext_getElem (by simpa using hw)
    intro p hp hp'
    simp [bits, h p hp']

/-- A set is determined by its row. -/
theorem bits_inj : s.bits = t.bits ↔ s = t := by
  refine ⟨fun h => ?_, fun h => h ▸ rfl⟩
  obtain ⟨hw, htest⟩ := bits_eq_iff.1 h
  rw [length_bits] at hw
  refine eq_of_test hw fun p => ?_
  by_cases hp : p < t.width
  · simpa [bits] using htest p (by simpa using hp)
  · rw [s.test_of_le (by omega), t.test_of_le (by omega)]

@[simp] theorem bits_none (n : Nat) : (none n).bits = List.replicate n false := by
  rw [bits_eq_iff]
  simp

@[simp] theorem bits_full (n : Nat) : (full n).bits = List.replicate n true := by
  rw [bits_eq_iff]
  simp

/-! ### Operations on whole words -/

theorem count_eq (s : FactSet) : s.count = s.bits.count true := by
  have hsize : 64 * s.words.toList.length = s.width + (64 * wordCount s.width - s.width) := by
    rw [Array.length_toList, s.size_words, wordCount]
    omega
  have hbeyond : ((List.range (64 * wordCount s.width - s.width)).map (s.width + ·)).countP
      s.test = 0 := by
    simp [List.countP_eq_zero, test_of_le]
  rw [count, foldr_ones_eq_countP, hsize, List.range_add, List.countP_append]
  change (List.range s.width).countP s.test + List.countP s.test _ = _
  rw [hbeyond, Nat.add_zero, bits, List.count, List.countP_map]
  exact List.countP_congr (by simp)

theorem isNone_eq (s : FactSet) : s.isNone = s.bits.all (!·) := by
  rw [Bool.eq_iff_iff, isNone, all_words_eq_zero_iff]
  simp only [bits, List.all_map, List.all_eq_true, List.mem_range, Function.comp_apply,
    Bool.not_eq_true']
  refine ⟨fun h p _ => h p, fun h p => ?_⟩
  by_cases hp : p < s.width
  · exact h p hp
  · exact s.test_of_le (Nat.le_of_not_lt hp)

theorem isAll_eq (s : FactSet) : s.isAll = s.bits.all id := by
  rw [Bool.eq_iff_iff, isAll, count_eq, beq_iff_eq, ← s.length_bits, List.count_eq_length,
    List.all_eq_true]
  exact forall₂_congr fun _ _ => eq_comm

theorem positions_pairwise (s : FactSet) : s.positions.Pairwise (· < ·) := by
  have hnumbers : s.words.toList.zipIdx.Pairwise (fun x y => x.2 < y.2) := by
    rw [← List.pairwise_map, List.zipIdx_map_snd]
    exact List.pairwise_lt_range'
  refine List.pairwise_flatMap.2 ⟨fun x _ => ?_, hnumbers.imp ?_⟩
  · rw [List.pairwise_map]
    exact (Word.positions_pairwise x.1).imp (Nat.add_lt_add_left · _)
  · intro x y hxy p hp q hq
    obtain ⟨i, hi, rfl⟩ := List.mem_map.1 hp
    obtain ⟨j, -, rfl⟩ := List.mem_map.1 hq
    have hlt : i < 64 := BitVec.lt_of_getLsbD (Word.mem_positions_iff.1 hi)
    omega

/-- **The positions of a set**, found bit by bit and word by word, are those of the view in
ascending order. -/
theorem positions_eq (s : FactSet) : s.positions = (List.range s.width).filter s.test := by
  refine List.Pairwise.eq_of_mem_iff s.positions_pairwise (List.pairwise_lt_range.filter _)
    fun p => ?_
  rw [mem_positions_iff, List.mem_filter, List.mem_range]
  exact ⟨fun h => ⟨lt_width_of_test h, h⟩, And.right⟩

end FactSet

end FactFlow
