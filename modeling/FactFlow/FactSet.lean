import FactFlow.Fault

/-!
# Packed fact sets

A `FactSet` of width `n` says of each position `p < n` whether it is in the set.  Positions are
packed into words of 64 bits, position `p` being bit `p % 64` of word `p / 64`.  Two invariants
travel with the value: there are exactly as many words as the width needs, and no bit beyond the
width is set.  So two sets of one width are equal as soon as they have the same positions, and the
word-wise operations (`union`, `inter`, `diff`, `count`, `positions`) need no correction for the
unused end of the last word.

* `FactSet.test` is the view: membership of a position, `false` beyond the width.
* `FactSet.bits` lists the view, position by position.
* Operations that name a position or a second set are checked and answer in `Except Fault`.
-/

namespace FactFlow

/-- A word of 64 bits; bit `0` is the lowest. -/
abbrev Word := BitVec 64

namespace Word

/-- The word whose `n` lowest bits are set. -/
def low (n : Nat) : Word := BitVec.ofNat 64 (Nat.pow 2 n - 1)

@[simp] theorem getLsbD_low (n i : Nat) :
    (low n).getLsbD i = (decide (i < 64) && decide (i < n)) := by
  simp [low, BitVec.getLsbD_ofNat, Nat.testBit_two_pow_sub_one]

/-- The number of set bits. -/
def ones (w : Word) : Nat := (List.range 64).countP w.getLsbD

/-- The number of the lowest set bit: the only bit that a word shares with its negation. -/
def lowest (w : Word) : Nat := (w &&& -w).toNat.log2

/-- Clearing the lowest set bit gives a smaller word. -/
theorem clearLowest_lt {w : Word} (h : w ≠ 0#64) : (w &&& (w - 1#64)).toNat < w.toNat := by
  have hpos : 0 < w.toNat := by
    rw [Nat.pos_iff_ne_zero]
    intro hz
    exact h (BitVec.eq_of_toNat_eq (by simpa using hz))
  have hsub : (w - 1#64).toNat = w.toNat - 1 := by
    have hlt := w.isLt
    simp only [BitVec.toNat_sub, BitVec.toNat_ofNat]
    omega
  have hle : (w &&& (w - 1#64)).toNat ≤ w.toNat - 1 := by
    rw [BitVec.toNat_and, hsub]
    exact Nat.and_le_right
  omega

/-- The set bits, lowest first: take the lowest, clear it, go on with the rest. -/
def positions (w : Word) : List Nat :=
  if w = 0#64 then [] else lowest w :: positions (w &&& (w - 1#64))
termination_by w.toNat
decreasing_by exact clearLowest_lt ‹_›

end Word

/-- Bit `p` of a sequence of words; `false` beyond the last word. -/
def bitAt (words : Array Word) (p : Nat) : Bool :=
  (words[p / 64]?.getD 0#64).getLsbD (p % 64)

/-- The number of words that `n` bits need. -/
def wordCount (n : Nat) : Nat := (n + 63) / 64

/-- A set of positions below `width`, packed into words. -/
structure FactSet where
  /-- The number of positions that the set speaks about. -/
  width : Nat
  /-- The packed positions. -/
  words : Array Word
  /-- There are as many words as the width needs. -/
  size_words : words.size = wordCount width
  /-- No bit beyond the width is set. -/
  bitAt_of_le : ∀ p, width ≤ p → bitAt words p = false
  deriving DecidableEq

/-! ### Bits of word sequences -/

theorem bitAt_replicate (n : Nat) (p : Nat) : bitAt (Array.replicate n 0#64) p = false := by
  simp only [bitAt, Array.getElem?_replicate]
  split <;> simp

theorem bitAt_ofFn_low (n p : Nat) :
    bitAt (Array.ofFn fun k : Fin (wordCount n) => Word.low (n - 64 * k)) p = decide (p < n) := by
  simp only [bitAt, Array.getElem?_ofFn]
  by_cases h : p / 64 < wordCount n
  · simp only [h, ↓reduceDIte, Option.getD_some, Word.getLsbD_low]
    rw [Bool.eq_iff_iff]
    simp only [Bool.and_eq_true, decide_eq_true_eq]
    omega
  · have hp : ¬ p < n := by unfold wordCount at h; omega
    simp [h, hp]

theorem bitAt_modify {words : Array Word} {k : Nat} (hk : k / 64 < words.size)
    (f : Word → Word) (p : Nat) :
    bitAt (words.modify (k / 64) f) p =
      if k / 64 = p / 64 then (f (words[k / 64]?.getD 0#64)).getLsbD (p % 64)
      else bitAt words p := by
  simp only [bitAt, Array.getElem?_modify]
  split
  · rename_i h
    rw [← h]
    simp [hk]
  · rfl

theorem bitAt_zipWith {xs ys : Array Word} (h : xs.size = ys.size)
    {f : Word → Word → Word} (hf : f 0#64 0#64 = 0#64) (p : Nat) :
    bitAt (Array.zipWith f xs ys) p =
      (f (xs[p / 64]?.getD 0#64) (ys[p / 64]?.getD 0#64)).getLsbD (p % 64) := by
  simp only [bitAt, Array.getElem?_zipWith]
  by_cases hp : p / 64 < xs.size
  · have hp' : p / 64 < ys.size := h ▸ hp
    simp [hp, hp']
  · have hp' : ¬ p / 64 < ys.size := h ▸ hp
    simp [Array.getElem?_eq_none (Nat.le_of_not_lt hp),
      Array.getElem?_eq_none (Nat.le_of_not_lt hp'), hf]

namespace FactSet

/-! ### Reading -/

/-- Whether `p` is in the set; `false` beyond the width. -/
def test (s : FactSet) (p : Nat) : Bool := bitAt s.words p

/-- Whether `p` is in the set, for a position of the set. -/
def contains (s : FactSet) (p : Nat) : Except Fault Bool :=
  if p < s.width then .ok (s.test p) else .error (.position p s.width)

/-- The set position by position. -/
def bits (s : FactSet) : List Bool := (List.range s.width).map s.test

/-- The number of positions in the set. -/
def count (s : FactSet) : Nat := (s.words.toList.map Word.ones).foldr (· + ·) 0

/-- Whether no position is in the set. -/
def isNone (s : FactSet) : Bool := s.words.all (· == 0#64)

/-- Whether every position is in the set. -/
def isAll (s : FactSet) : Bool := s.count == s.width

/-- The positions in the set, ascending, found word by word. -/
def positions (s : FactSet) : List Nat :=
  s.words.toList.zipIdx.flatMap fun (w, k) => w.positions.map (64 * k + ·)

/-- The set as a row of `0` and `1`, position `0` first. -/
def text (s : FactSet) : String :=
  String.ofList (s.bits.map fun b => if b then '1' else '0')

/-! ### Construction -/

/-- No position. -/
def none (width : Nat) : FactSet where
  width
  words := Array.replicate (wordCount width) 0#64
  size_words := by simp
  bitAt_of_le p _ := bitAt_replicate _ p

/-- Every position. -/
def full (width : Nat) : FactSet where
  width
  words := Array.ofFn fun k : Fin (wordCount width) => Word.low (width - 64 * k)
  size_words := by simp
  bitAt_of_le p hp := by
    rw [bitAt_ofFn_low]
    simpa using hp

theorem word_lt_size (s : FactSet) {p : Nat} (h : p < s.width) : p / 64 < s.words.size := by
  rw [s.size_words, wordCount]
  omega

/-- The set `s` with position `p` added. -/
def insertAt (s : FactSet) (p : Nat) (h : p < s.width) : FactSet where
  width := s.width
  words := s.words.modify (p / 64) (· ||| BitVec.twoPow 64 (p % 64))
  size_words := by simp [s.size_words]
  bitAt_of_le q hq := by
    rw [bitAt_modify (s.word_lt_size h)]
    split
    · rename_i hpq
      have hbit := s.bitAt_of_le q hq
      rw [bitAt, ← hpq] at hbit
      have hne : p % 64 ≠ q % 64 := by omega
      simp [BitVec.getLsbD_twoPow, hbit, hne]
    · exact s.bitAt_of_le q hq

/-- The set `s` with position `p` taken out. -/
def eraseAt (s : FactSet) (p : Nat) (h : p < s.width) : FactSet where
  width := s.width
  words := s.words.modify (p / 64) (· &&& ~~~ BitVec.twoPow 64 (p % 64))
  size_words := by simp [s.size_words]
  bitAt_of_le q hq := by
    rw [bitAt_modify (s.word_lt_size h)]
    split
    · rename_i hpq
      have hbit := s.bitAt_of_le q hq
      rw [bitAt, ← hpq] at hbit
      rw [BitVec.getLsbD_and, hbit, Bool.false_and]
    · exact s.bitAt_of_le q hq

/-- Add a position. -/
def insert (s : FactSet) (p : Nat) : Except Fault FactSet :=
  if h : p < s.width then .ok (s.insertAt p h) else .error (.position p s.width)

/-- Take a position out. -/
def erase (s : FactSet) (p : Nat) : Except Fault FactSet :=
  if h : p < s.width then .ok (s.eraseAt p h) else .error (.position p s.width)

/-- Add position `p` or take it out, as `b` says. -/
def set (s : FactSet) (p : Nat) (b : Bool) : Except Fault FactSet :=
  if b then s.insert p else s.erase p

/-- Add each position `k`, `k + 1`, … whose bit is set. -/
def insertFrom (s : FactSet) (k : Nat) : List Bool → FactSet
  | [] => s
  | b :: bs =>
    if h : b = true ∧ k < s.width then insertFrom (s.insertAt k h.2) (k + 1) bs
    else insertFrom s (k + 1) bs

/-- The set with the given view. -/
def ofBits (bs : List Bool) : FactSet := insertFrom (none bs.length) 0 bs

/-! ### Two sets of one width -/

/-- Combine two sets word by word with an operation that invents no bits. -/
def zipWords (f : Word → Word → Word)
    (hf : ∀ x y i, x.getLsbD i = false → y.getLsbD i = false → (f x y).getLsbD i = false)
    (s t : FactSet) (h : s.width = t.width) : FactSet where
  width := s.width
  words := Array.zipWith f s.words t.words
  size_words := by simp [s.size_words, t.size_words, h]
  bitAt_of_le p hp := by
    have hsize : s.words.size = t.words.size := by rw [s.size_words, t.size_words, h]
    have hzero : f 0#64 0#64 = 0#64 := by
      apply BitVec.eq_of_getLsbD_eq
      intro i _
      simpa using hf 0#64 0#64 i (by simp) (by simp)
    rw [bitAt_zipWith hsize hzero]
    exact hf _ _ _ (s.bitAt_of_le p hp) (t.bitAt_of_le p (h ▸ hp))

/-- Positions of either set. -/
def union (s t : FactSet) (h : s.width = t.width) : FactSet :=
  zipWords (· ||| ·) (by intro x y i hx hy; simp [hx, hy]) s t h

/-- Positions of both sets. -/
def inter (s t : FactSet) (h : s.width = t.width) : FactSet :=
  zipWords (· &&& ·) (by intro x y i hx hy; simp [hx, hy]) s t h

/-- Positions of the first set that are not in the second. -/
def diff (s t : FactSet) (h : s.width = t.width) : FactSet :=
  zipWords (fun x y => x &&& ~~~ y) (by intro x y i hx hy; simp [hx]) s t h

/-- Run `k` on two sets, provided that their widths agree. -/
def sameWidth {β : Type} (s t : FactSet) (k : s.width = t.width → β) : Except Fault β :=
  if h : s.width = t.width then .ok (k h) else .error (.widths s.width t.width)

/-- Put `new` in place of `old`, and say whether that changes anything. -/
def replacing (old new : FactSet) : FactSet × Bool := (new, new.words != old.words)

/-- Add the positions of `t` to `s`, and say whether `s` changed. -/
def unionWith (s t : FactSet) : Except Fault (FactSet × Bool) :=
  s.sameWidth t fun h => s.replacing (s.union t h)

/-- Cut `s` down to the positions of `t`, and say whether `s` changed. -/
def interWith (s t : FactSet) : Except Fault (FactSet × Bool) :=
  s.sameWidth t fun h => s.replacing (s.inter t h)

/-- Take the positions of `t` out of `s`, and say whether `s` changed. -/
def diffWith (s t : FactSet) : Except Fault (FactSet × Bool) :=
  s.sameWidth t fun h => s.replacing (s.diff t h)

/-- Whether every position of `s` is in `t`. -/
def subset (s t : FactSet) : Except Fault Bool :=
  s.sameWidth t fun _ => (Array.zipWith (fun x y => x &&& ~~~ y) s.words t.words).all (· == 0#64)

/-- Whether two sets of one width are different. -/
def differsFrom (s t : FactSet) : Except Fault Bool :=
  s.sameWidth t fun _ => s.words != t.words

end FactSet

end FactFlow
