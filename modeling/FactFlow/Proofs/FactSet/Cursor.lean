import FactFlow.Proofs.FactSet.Histories

/-!
# Going through the words

`FactSet.positions` lists the positions of a set all at once.  A `Packed.Cursor` finds them one by
one: it holds the number of a word and the bits of it that are still to come, hands out the lowest
of them and clears it, and goes on to the next word that has a bit when none is left.  It never
looks at the width.

What lies ahead of a cursor (`Packed.ahead`) are the bits left in its word and those of all words
after it.  A step hands out the first of them and keeps the rest (`Packed.next_eq`).  So a cursor
comes to an end, and what it has handed out by then is what lay ahead (`Packed.yields_iff`); from
the first word on this is every position (`Packed.ahead_start`).

Words that were made by operations have no bit beyond their width.  On these the cursor finds the
positions that the set contains, in ascending order and as many as are counted, and the set can be
made again from them (`FactSet.cursor_enumerates`).
-/

namespace FactFlow

theorem Word.positions_zero : positions 0#64 = [] := by rw [positions, if_pos rfl]

namespace Packed

/-! ### Cursors -/

/-- A place among the words. -/
structure Cursor where
  /-- The number of a word. -/
  word : Nat
  /-- The bits of the word that are still to come. -/
  left : Word
  deriving DecidableEq, Repr

/-- In front of all words. -/
def start (s : Packed) : Cursor := ⟨0, s.words[0]?.getD 0#64⟩

/-- The next position, if there is one, and the cursor behind it. -/
def next (s : Packed) (c : Cursor) : Option Nat × Cursor :=
  if c.left = 0#64 then
    match h : s.words[c.word + 1]? with
    | some w => next s ⟨c.word + 1, w⟩
    | .none => (.none, { c with word := c.word + 1 })
  else
    (some (64 * c.word + c.left.ctz.toNat), { c with left := c.left &&& (c.left - 1#64) })
termination_by s.words.size - c.word
decreasing_by
  have hlt := (Array.getElem?_eq_some_iff.1 h).1
  omega

/-- A cursor hands out these positions, one after another, and then comes to an end. -/
inductive Yields (s : Packed) : Cursor → List Nat → Prop
  | done {c : Cursor} : (s.next c).1 = .none → Yields s c []
  | item {c : Cursor} {p : Nat} {ps : List Nat} :
    (s.next c).1 = some p → Yields s (s.next c).2 ps → Yields s c (p :: ps)

/-! ### What lies ahead -/

/-- The positions ahead of a cursor. -/
def ahead (s : Packed) (c : Cursor) : List Nat :=
  c.left.positions.map (64 * c.word + ·) ++
    (s.words.toList.zipIdx.drop (c.word + 1)).flatMap fun (w, k) => w.positions.map (64 * k + ·)

theorem ahead_of_left {s : Packed} {c : Cursor} (h : c.left ≠ 0#64) :
    s.ahead c = (64 * c.word + c.left.ctz.toNat) ::
      s.ahead { c with left := c.left &&& (c.left - 1#64) } := by
  rw [ahead, Word.positions, if_neg h, Word.lowest_eq h, List.map_cons, List.cons_append]
  rfl

theorem ahead_of_word {s : Packed} {c : Cursor} {w : Word} (h : c.left = 0#64)
    (hw : s.words[c.word + 1]? = some w) : s.ahead c = s.ahead ⟨c.word + 1, w⟩ := by
  have hentry : s.words.toList.zipIdx[c.word + 1]? = some (w, c.word + 1) := by
    simp [List.getElem?_zipIdx, hw]
  obtain ⟨hlt, hget⟩ := List.getElem?_eq_some_iff.1 hentry
  rw [ahead, h, Word.positions_zero, List.map_nil, List.nil_append,
    List.drop_eq_getElem_cons hlt, hget, List.flatMap_cons]
  rfl

theorem ahead_of_end {s : Packed} {c : Cursor} (h : c.left = 0#64)
    (hw : s.words[c.word + 1]? = .none) : s.ahead c = [] := by
  have hsize : s.words.size ≤ c.word + 1 := Array.getElem?_eq_none_iff.1 hw
  rw [ahead, h, Word.positions_zero, List.map_nil, List.nil_append,
    List.drop_eq_nil_of_le (by simpa using hsize), List.flatMap_nil]

/-- **One step** hands out the first position ahead and keeps the others. -/
theorem next_eq (s : Packed) (c : Cursor) :
    (s.next c).1 = (s.ahead c).head? ∧ s.ahead (s.next c).2 = (s.ahead c).tail := by
  fun_induction next s c with
  | case1 c h w hw ih => rwa [ahead_of_word h hw]
  | case2 c h hw =>
    have hnext : s.words[c.word + 1 + 1]? = .none := by
      rw [Array.getElem?_eq_none_iff] at hw ⊢
      omega
    rw [ahead_of_end h hw]
    exact ⟨rfl, ahead_of_end h hnext⟩
  | case3 c h =>
    rw [ahead_of_left h]
    exact ⟨rfl, rfl⟩

theorem yields_ahead (s : Packed) (c : Cursor) : s.Yields c (s.ahead c) := by
  obtain ⟨hhead, htail⟩ := s.next_eq c
  -- what lies ahead gets shorter with every step
  induction hps : s.ahead c generalizing c with
  | nil => exact .done (by rw [hhead, hps]; rfl)
  | cons p ps ih =>
    rw [hps] at hhead htail
    have hrest := ih (s.next c).2 (s.next_eq _).1 (s.next_eq _).2 htail
    exact .item hhead hrest

/-- A cursor hands out what lies ahead of it, and nothing else. -/
theorem yields_iff {s : Packed} {c : Cursor} {ps : List Nat} :
    s.Yields c ps ↔ ps = s.ahead c := by
  refine ⟨fun h => ?_, fun h => h ▸ s.yields_ahead c⟩
  induction h with
  | @done c hnone =>
    rw [(s.next_eq c).1, List.head?_eq_none_iff] at hnone
    exact hnone.symm
  | @item c p ps hsome _ ih =>
    obtain ⟨hhead, htail⟩ := s.next_eq c
    rw [ih, htail]
    exact List.cons_head?_tail (hhead ▸ hsome)

/-- From the first word on, the bits of every word lie ahead. -/
theorem ahead_start (s : Packed) :
    s.ahead s.start = s.words.toList.zipIdx.flatMap fun (w, k) => w.positions.map (64 * k + ·) := by
  have hfirst : s.words[0]? = s.words.toList[0]? := (Array.getElem?_toList ..).symm
  rw [ahead, start, hfirst]
  cases s.words.toList with
  | nil => simp [Word.positions_zero]
  | cons w words => rfl

end Packed

/-! ### Listing a value by its operations -/

namespace Implementation

variable {V W : Type} (I : Implementation V) (J : Implementation W)

/-- Add positions one after another. -/
def insertAll (v : V) : List Nat → Except Fault V
  | [] => .ok v
  | p :: ps =>
    match I.change v (.insert p) with
    | (w, .ok _) => insertAll w ps
    | (_, .error e) => .error e

/-- `ps` lists the positions of a value of a width. -/
structure Enumerates (v : V) (width : Nat) (ps : List Nat) : Prop where
  ascending : ps.Pairwise (· < ·)
  nodup : ps.Nodup
  /-- The positions listed are those that the value contains. -/
  mem_iff : ∀ p, p ∈ ps ↔ p < width ∧ I.ask v (.contains p) = .ok (.flag true)
  lt_width : ∀ p ∈ ps, p < width
  /-- There are as many as are counted. -/
  count : I.ask v .count = .ok (.number ps.length)
  /-- Adding the positions to no position gives the value. -/
  rebuilt : I.insertAll (I.none width) ps = .ok v

variable {I J} {g : V → W}

theorem Maps.insertAll (h : I.Maps J g) (v : V) (ps : List Nat) :
    J.insertAll (g v) ps = (I.insertAll v ps).map g := by
  induction ps generalizing v with
  | nil => rfl
  | cons p ps ih =>
    rw [Implementation.insertAll, Implementation.insertAll, h.change]
    rcases I.change v (.insert p) with ⟨w, e | u⟩
    · rfl
    · exact ih w

theorem Maps.enumerates (h : I.Maps J g) {v : V} {width : Nat} {ps : List Nat}
    (hv : I.Enumerates v width ps) : J.Enumerates (g v) width ps where
  ascending := hv.ascending
  nodup := hv.nodup
  mem_iff p := by rw [h.ask, hv.mem_iff]
  lt_width := hv.lt_width
  count := (h.ask v .count).trans hv.count
  rebuilt := by rw [h.none, h.insertAll, hv.rebuilt]; rfl

end Implementation

namespace FactSet

theorem ask_contains_iff {s : FactSet} {p : Nat} :
    implementation.ask s (.contains p) = .ok (.flag true) ↔ p < s.width ∧ s.test p = true := by
  change (s.contains p).map Reply.flag = .ok (.flag true) ↔ _
  unfold contains
  split
  · rename_i hp
    simp [Except.map, hp]
  · rename_i hp
    simp [Except.map, hp]

theorem length_positions (s : FactSet) : s.positions.length = s.count := by
  rw [positions_eq, ← List.countP_eq_length_filter, count_eq, bits, List.count, List.countP_map]
  exact List.countP_congr (by simp)

/-- Positions that are added one after another are in the set afterwards. -/
theorem insertAll_of_lt {s : FactSet} {ps : List Nat} (h : ∀ p ∈ ps, p < s.width) :
    ∃ t, implementation.insertAll s ps = .ok t ∧ t.width = s.width ∧
      ∀ q, t.test q = (s.test q || decide (q ∈ ps)) := by
  induction ps generalizing s with
  | nil => exact ⟨s, rfl, rfl, by simp⟩
  | cons p ps ih =>
    obtain ⟨hp, hps⟩ := List.forall_mem_cons.1 h
    have hchange : implementation.change s (.insert p) = (s.insertAt p hp, .ok ()) := by
      have hinsert : s.insert p = .ok (s.insertAt p hp) := dif_pos hp
      change inPlace s ((s.insert p).map (·, ())) = _
      rw [hinsert]
      rfl
    obtain ⟨t, ht, hwidth, htest⟩ := ih (s := s.insertAt p hp) hps
    refine ⟨t, ?_, hwidth, fun q => ?_⟩
    · rw [Implementation.insertAll, hchange]
      exact ht
    · rw [htest, test_insertAt]
      simp [Bool.or_assoc, Bool.or_left_comm]

theorem insertAll_positions (s : FactSet) :
    implementation.insertAll (none s.width) s.positions = .ok s := by
  have hlt : ∀ p ∈ s.positions, p < (none s.width).width := by
    intro p hp
    rw [width_none]
    exact lt_width_of_test (mem_positions_iff.1 hp)
  obtain ⟨t, ht, hwidth, htest⟩ := insertAll_of_lt hlt
  have hst : t = s := eq_of_test hwidth fun p => by
    rw [htest, test_none, Bool.false_or, Bool.eq_iff_iff, decide_eq_true_iff, mem_positions_iff]
  rw [ht, hst]

theorem enumerates_positions (s : FactSet) : implementation.Enumerates s s.width s.positions where
  ascending := s.positions_pairwise
  nodup := s.positions_pairwise.imp Nat.ne_of_lt
  mem_iff p := by
    rw [mem_positions_iff, ask_contains_iff]
    exact ⟨fun h => ⟨lt_width_of_test h, lt_width_of_test h, h⟩, fun h => h.2.2⟩
  lt_width p hp := lt_width_of_test (mem_positions_iff.1 hp)
  count := by rw [length_positions]; rfl
  rebuilt := s.insertAll_positions

/-- **A cursor finds the positions of a set**, whatever operations made the set: it comes to an end
and has then handed out, in ascending order, just the positions that the set contains. -/
theorem cursor_enumerates (ops : List Operation) (r : Nat) :
    let s := (implementation.history ops).1 r
    let v := (Packed.implementation.history ops).1 r
    (∀ ps, v.Yields v.start ps ↔ ps = s.positions) ∧
      implementation.Enumerates s s.width s.positions ∧
      Packed.implementation.Enumerates v v.width s.positions := by
  intro s v
  have hwords : v = s.packed := congrArg (·.1 r) (maps_packed.history ops)
  rw [hwords]
  refine ⟨fun ps => ?_, s.enumerates_positions, maps_packed.enumerates s.enumerates_positions⟩
  rw [Packed.yields_iff, Packed.ahead_start]
  rfl

end FactSet

end FactFlow
