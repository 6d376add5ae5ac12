import FactFlow.Proofs.FactSet.Order

/-!
# Words without invariants

A `FactSet` cannot be built with a missing word or a bit beyond its width.  A `Packed` can: it is a
width and some words, of which nothing is known.  Its operations work in place and trust nobody.
They look words up by number and fault if there is no such word; `Packed.full` sets all bits of all
words before it clears the end of the last one (`Packed.maskTail`); and what an operation has
written stays written if it faults.

On the words of a fact set each of them does what the operation on fact sets does
(`FactSet.packed_full`, `FactSet.packed_ofBits`, `FactSet.packed_change`, `FactSet.packed_combine`,
`FactSet.contains_packed`, `FactSet.bits_packed`).  So the invariants need not be assumed of words
that were made by these operations.
-/

namespace FactFlow

/-- How one set is combined into another. -/
inductive Combination where
  | union
  | inter
  | diff
  deriving DecidableEq, Repr

namespace Combination

/-- The combination of two bits. -/
def onBits : Combination → Bool → Bool → Bool
  | .union, x, y => x || y
  | .inter, x, y => x && y
  | .diff, x, y => x && !y

/-- The combination of two words. -/
def onWords : Combination → Word → Word → Word
  | .union, x, y => x ||| y
  | .inter, x, y => x &&& y
  | .diff, x, y => x &&& ~~~ y

theorem getLsbD_onWords (o : Combination) (x y : Word) {i : Nat} (h : i < 64) :
    (o.onWords x y).getLsbD i = o.onBits (x.getLsbD i) (y.getLsbD i) := by
  cases o <;> simp [onWords, onBits, h]

/-- No combination invents bits. -/
theorem getLsbD_onWords_of_false (o : Combination) (x y : Word) (i : Nat)
    (hx : x.getLsbD i = false) (hy : y.getLsbD i = false) : (o.onWords x y).getLsbD i = false := by
  cases o <;> simp [onWords, hx, hy]

end Combination

/-- How one position of a set is changed. -/
inductive Change where
  | insert (p : Nat)
  | erase (p : Nat)
  | set (p : Nat) (b : Bool)
  deriving DecidableEq, Repr

/-- A value as an operation leaves it, and the answer; a fault changes nothing. -/
def inPlace {V β : Type} (v : V) : Except Fault (V × β) → V × Except Fault β
  | .ok (w, b) => (w, .ok b)
  | .error e => (v, .error e)

/-- A width and words. -/
structure Packed where
  /-- The number of positions. -/
  width : Nat
  /-- The packed positions. -/
  words : Array Word
  deriving DecidableEq

namespace Packed

/-! ### Operations -/

/-- No position. -/
def none (width : Nat) : Packed := ⟨width, Array.replicate (wordCount width) 0#64⟩

/-- Clear the end of the last word, if the width does not fill it. -/
def maskTail (s : Packed) : Packed :=
  if s.width % 64 = 0 then s
  else
    { s with
      words := s.words.modify (s.words.size - 1) (· &&& (1#64 <<< (s.width % 64) - 1#64)) }

/-- Every position. -/
def full (width : Nat) : Packed :=
  maskTail ⟨width, Array.replicate (wordCount width) (BitVec.allOnes 64)⟩

/-- Rewrite the word of position `p`, given the bit of `p`. -/
def update (s : Packed) (p : Nat) (f : Word → Word → Word) : Packed × Except Fault Unit :=
  if p < s.width then
    if p / 64 < s.words.size then
      ({ s with words := s.words.modify (p / 64) (f · (1#64 <<< (p % 64))) }, .ok ())
    else (s, .error (.entry s.words.size (p / 64)))
  else (s, .error (.position p s.width))

/-- Add a position. -/
def insert (s : Packed) (p : Nat) : Packed × Except Fault Unit := s.update p (· ||| ·)

/-- Take a position out. -/
def erase (s : Packed) (p : Nat) : Packed × Except Fault Unit :=
  s.update p fun w bit => w &&& ~~~ bit

/-- Change one position. -/
def change (s : Packed) : Change → Packed × Except Fault Unit
  | .insert p => s.insert p
  | .erase p => s.erase p
  | .set p b => if b then s.insert p else s.erase p

/-- Add each position `k`, `k + 1`, … whose bit is set. -/
def insertFrom (s : Packed) (k : Nat) : List Bool → Except Fault Packed
  | [] => .ok s
  | b :: bs =>
    if b then
      match s.insert k with
      | (s, .ok ()) => insertFrom s (k + 1) bs
      | (_, .error e) => .error e
    else insertFrom s (k + 1) bs

/-- The words of a row. -/
def ofBits (bs : List Bool) : Except Fault Packed := insertFrom (none bs.length) 0 bs

/-- Rewrite words one after another, and say whether one of them changed. -/
def combineWords (f : Word → Word → Word) : List Word → List Word → List Word × Bool
  | x :: xs, y :: ys =>
    let (rest, changed) := combineWords f xs ys
    (f x y :: rest, x != f x y || changed)
  | xs, _ => (xs, false)

/-- Combine `t` into `s`, and say whether `s` changed. -/
def combine (o : Combination) (s t : Packed) : Packed × Except Fault Bool :=
  if s.width = t.width then
    let (words, changed) := combineWords o.onWords s.words.toList t.words.toList
    ({ s with words := words.toArray }, .ok changed)
  else (s, .error (.widths s.width t.width))

/-- Whether `p` is in the set. -/
def contains (s : Packed) (p : Nat) : Except Fault Bool :=
  if p < s.width then
    match s.words[p / 64]? with
    | some w => .ok (w &&& 1#64 <<< (p % 64) != 0#64)
    | .none => .error (.entry s.words.size (p / 64))
  else .error (.position p s.width)

/-- The set position by position. -/
def bits (s : Packed) : Except Fault (List Bool) := (List.range s.width).mapM s.contains

/-- The number of set bits. -/
def count (s : Packed) : Nat := (s.words.toList.map Word.ones).foldr (· + ·) 0

/-- Whether every word is zero. -/
def isNone (s : Packed) : Bool := s.words.all (· == 0#64)

/-- Whether as many bits are set as there are positions. -/
def isAll (s : Packed) : Bool := s.count == s.width

/-- Run `k` on two sets, provided that their widths agree. -/
def sameWidth {β : Type} (s t : Packed) (k : β) : Except Fault β :=
  if s.width = t.width then .ok k else .error (.widths s.width t.width)

/-- Whether no word of `s` has a bit that the word of `t` has not. -/
def subset (s t : Packed) : Except Fault Bool :=
  s.sameWidth t ((Array.zipWith (fun x y => x &&& ~~~ y) s.words t.words).all (· == 0#64))

/-- Whether some word is different. -/
def differsFrom (s t : Packed) : Except Fault Bool := s.sameWidth t (s.words != t.words)

/-- The invariants of a fact set. -/
structure Valid (s : Packed) : Prop where
  /-- There are as many words as the width needs. -/
  size_words : s.words.size = wordCount s.width
  /-- No bit beyond the width is set. -/
  bitAt_of_le : ∀ p, s.width ≤ p → bitAt s.words p = false

end Packed

/-! ### Single words -/

namespace Word

theorem shiftLeft_sub_one {k : Nat} (h : k < 64) : 1#64 <<< k - 1#64 = low k := by
  have hlt : 2 ^ k < 2 ^ 64 := Nat.pow_lt_pow_right (by omega) h
  have hpos : 0 < 2 ^ k := Nat.two_pow_pos k
  apply BitVec.eq_of_toNat_eq
  rw [low, BitVec.toNat_sub, BitVec.toNat_shiftLeft, BitVec.toNat_ofNat, BitVec.toNat_ofNat,
    Nat.shiftLeft_eq]
  change _ = (2 ^ k - 1) % 2 ^ 64
  omega

theorem and_shiftLeft_ne_zero (w : Word) {i : Nat} (h : i < 64) :
    (w &&& 1#64 <<< i != 0#64) = w.getLsbD i := by
  have hbit : (BitVec.twoPow 64 i).getLsbD i = true := by simp [h]
  rw [← BitVec.twoPow_eq, BitVec.and_twoPow]
  cases w.getLsbD i with
  | false => rfl
  | true =>
    rw [if_pos rfl, bne_iff_ne]
    intro hzero
    rw [hzero] at hbit
    simp at hbit

end Word

theorem bitAt_replicate_allOnes (n p : Nat) :
    bitAt (Array.replicate n (BitVec.allOnes 64)) p = decide (p / 64 < n) := by
  have hlt : p % 64 < 64 := Nat.mod_lt _ (by omega)
  rw [bitAt, Array.getElem?_replicate]
  split
  · rename_i h
    rw [Option.getD_some, BitVec.getLsbD_allOnes]
    simp [h, hlt]
  · rename_i h
    simp [h]

namespace FactSet

/-! ### The words of a fact set -/

/-- The words of a set. -/
def packed (s : FactSet) : Packed := ⟨s.width, s.words⟩

theorem packed_valid (s : FactSet) : s.packed.Valid := ⟨s.size_words, s.bitAt_of_le⟩

theorem packed_none (n : Nat) : (none n).packed = Packed.none n := rfl

theorem bitAt_packed_full (n p : Nat) : bitAt (Packed.full n).words p = decide (p < n) := by
  unfold Packed.full Packed.maskTail
  by_cases hn : n % 64 = 0
  · -- the width fills the last word
    rw [if_pos hn, bitAt_replicate_allOnes, wordCount, decide_eq_decide]
    omega
  · have hsize : (Array.replicate (wordCount n) (BitVec.allOnes 64)).size = n / 64 + 1 := by
      rw [Array.size_replicate, wordCount]
      omega
    simp only [hn, ↓reduceIte, hsize, Nat.add_sub_cancel]
    rw [bitAt_modify (by rw [hsize]; omega), Word.shiftLeft_sub_one (Nat.mod_lt n (by omega))]
    split
    · rename_i hp
      have hlt : p % 64 < 64 := Nat.mod_lt p (by omega)
      have hword : (Array.replicate (wordCount n) (BitVec.allOnes 64))[n / 64]? =
          some (BitVec.allOnes 64) := by
        rw [Array.getElem?_replicate, if_pos (by rw [wordCount]; omega)]
      rw [hword, Option.getD_some, BitVec.getLsbD_and, BitVec.getLsbD_allOnes, Word.getLsbD_low,
        decide_eq_true hlt, Bool.true_and, Bool.true_and, decide_eq_decide]
      omega
    · rw [bitAt_replicate_allOnes, wordCount, decide_eq_decide]
      omega

theorem packed_full (n : Nat) : (full n).packed = Packed.full n := by
  have hwidth : (Packed.full n).width = n := by
    unfold Packed.full Packed.maskTail
    split <;> rfl
  have hsize : (Packed.full n).words.size = wordCount n := by
    unfold Packed.full Packed.maskTail
    split <;> simp
  have hwords : (full n).words = (Packed.full n).words :=
    words_eq_of_bitAt ((full n).size_words.trans hsize.symm) fun p =>
      (test_full n p).trans (bitAt_packed_full n p).symm
  rw [packed, hwords]
  exact congrArg (Packed.mk · _) hwidth.symm

/-- The set `s` with position `p` added or taken out, as `b` says. -/
def setAt (s : FactSet) (p : Nat) (h : p < s.width) (b : Bool) : FactSet :=
  if b then s.insertAt p h else s.eraseAt p h

theorem set_of_lt {s : FactSet} {p : Nat} (h : p < s.width) (b : Bool) :
    s.set p b = .ok (s.setAt p h b) := by
  cases b <;> exact dif_pos h

theorem set_of_le {s : FactSet} {p : Nat} (h : s.width ≤ p) (b : Bool) :
    s.set p b = .error (.position p s.width) := by
  cases b <;> exact dif_neg (Nat.not_lt.2 h)

theorem packed_setAt {s : FactSet} {p : Nat} (h : p < s.width) (b : Bool) :
    s.packed.change (.set p b) = ((s.setAt p h b).packed, .ok ()) := by
  have hupdate : ∀ f, s.packed.update p f =
      (⟨s.width, s.words.modify (p / 64) (f · (1#64 <<< (p % 64)))⟩, .ok ()) := fun f =>
    (if_pos h).trans (if_pos (s.word_lt_size h))
  cases b with
  | true => exact hupdate (· ||| ·)
  | false => exact hupdate fun w bit => w &&& ~~~ bit

theorem packed_insertFrom (s : FactSet) (k : Nat) (bs : List Bool) (h : k + bs.length ≤ s.width) :
    s.packed.insertFrom k bs = .ok (insertFrom s k bs).packed := by
  induction bs generalizing s k with
  | nil => rfl
  | cons b bs ih =>
    rw [List.length_cons] at h
    have hk : k < s.width := by omega
    cases b with
    | false => exact ih s (k + 1) (by omega)
    | true =>
      have hstep : insertFrom s k (true :: bs) = insertFrom (s.insertAt k hk) (k + 1) bs := by
        simp [insertFrom, hk]
      have hinsert : s.packed.insert k = ((s.insertAt k hk).packed, .ok ()) := packed_setAt hk true
      rw [hstep, Packed.insertFrom, if_pos rfl, hinsert]
      exact ih (s.insertAt k hk) (k + 1) (by rw [width_insertAt]; omega)

theorem packed_ofBits (bs : List Bool) : Packed.ofBits bs = .ok (ofBits bs).packed := by
  rw [Packed.ofBits, ← packed_none, packed_insertFrom _ _ _ (by simp), ofBits]

theorem contains_packed (s : FactSet) (p : Nat) : s.packed.contains p = s.contains p := by
  unfold Packed.contains contains
  change (if p < s.width then match s.words[p / 64]? with | some w => _ | .none => _ else _) = _
  split
  · rename_i hp
    have hsize := s.word_lt_size hp
    rw [Array.getElem?_eq_getElem hsize, test, bitAt, Array.getElem?_eq_getElem hsize]
    exact congrArg Except.ok (Word.and_shiftLeft_ne_zero _ (Nat.mod_lt p (by omega)))
  · rfl

theorem bits_packed (s : FactSet) : s.packed.bits = .ok s.bits := by
  refine Outcome.mapM_eq_ok_iff.2 ?_
  rw [bits, List.forall₂_map_right_iff]
  refine List.forall₂_same.2 fun p hp => ?_
  rw [contains_packed]
  exact if_pos (List.mem_range.1 hp)

/-! ### Changes in place -/

/-- Change one position in place. -/
def change (s : FactSet) : Change → FactSet × Except Fault Unit
  | .insert p => inPlace s ((s.insert p).map (·, ()))
  | .erase p => inPlace s ((s.erase p).map (·, ()))
  | .set p b => inPlace s ((s.set p b).map (·, ()))

/-- Combine `t` into `s` in place, and say whether `s` changed. -/
def combine (o : Combination) (s t : FactSet) : FactSet × Except Fault Bool :=
  inPlace s (match o with
    | .union => s.unionWith t
    | .inter => s.interWith t
    | .diff => s.diffWith t)

theorem packed_set (s : FactSet) (p : Nat) (b : Bool) :
    s.packed.change (.set p b) = (s.change (.set p b)).map packed id := by
  by_cases hp : p < s.width
  · rw [packed_setAt hp, change, set_of_lt hp]
    rfl
  · rw [change, set_of_le (Nat.le_of_not_lt hp)]
    cases b <;> exact if_neg hp

theorem packed_change (s : FactSet) (c : Change) :
    s.packed.change c = (s.change c).map packed id := by
  cases c with
  | insert p => exact s.packed_set p true
  | erase p => exact s.packed_set p false
  | set p b => exact s.packed_set p b

/-- The combination of two sets of one width. -/
def combined (o : Combination) (s t : FactSet) (h : s.width = t.width) : FactSet :=
  zipWords o.onWords o.getLsbD_onWords_of_false s t h

theorem combine_of_width (o : Combination) {s t : FactSet} (h : s.width = t.width) :
    s.combine o t = (s.replacing (s.combined o t h)).map id .ok := by
  cases o <;> exact congrArg (inPlace s) (dif_pos h)

theorem combine_of_ne (o : Combination) {s t : FactSet} (h : s.width ≠ t.width) :
    s.combine o t = (s, .error (.widths s.width t.width)) := by
  cases o <;> exact congrArg (inPlace s) (dif_neg h)

theorem combineWords_eq (f : Word → Word → Word) {xs ys : List Word} (h : xs.length = ys.length) :
    Packed.combineWords f xs ys = (List.zipWith f xs ys, List.zipWith f xs ys != xs) := by
  induction xs generalizing ys with
  | nil =>
    cases ys with
    | nil => rfl
    | cons y ys => cases h
  | cons x xs ih =>
    cases ys with
    | nil => cases h
    | cons y ys =>
      rw [Packed.combineWords, ih (Nat.succ.inj h)]
      simp [bne, Bool.not_and, Bool.beq_comm]

theorem packed_combine (o : Combination) (s t : FactSet) :
    s.packed.combine o t.packed = (s.combine o t).map packed id := by
  by_cases h : s.width = t.width
  · have hlength : s.words.toList.length = t.words.toList.length := by
      rw [Array.length_toList, Array.length_toList, s.size_words, t.size_words, h]
    have hwords : (List.zipWith o.onWords s.words.toList t.words.toList).toArray =
        Array.zipWith o.onWords s.words t.words := by
      rw [← Array.toList_zipWith]
    have hchanged : (List.zipWith o.onWords s.words.toList t.words.toList != s.words.toList) =
        (Array.zipWith o.onWords s.words t.words != s.words) := by
      rw [← Array.toList_zipWith, Bool.eq_iff_iff, bne_iff_ne, bne_iff_ne, Ne, Array.toList_inj]
    rw [combine_of_width o h]
    change (if s.width = t.width then _ else _) = _
    rw [if_pos h]
    change ((⟨s.width, (Packed.combineWords _ s.words.toList t.words.toList).1.toArray⟩ : Packed),
      Except.ok (Packed.combineWords _ s.words.toList t.words.toList).2) = _
    rw [combineWords_eq _ hlength, hwords, hchanged]
    rfl
  · rw [combine_of_ne o h]
    exact if_neg h

end FactSet

end FactFlow
