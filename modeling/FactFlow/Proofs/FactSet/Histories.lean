import FactFlow.Proofs.FactSet.Packed
import FactFlow.Proofs.FactSet.Rows
import Mathlib.Logic.Function.Basic

/-!
# Histories of operations

Sets of positions can be kept in three ways: as rows of bits, where every operation is said position
by position (`Row.implementation`); as fact sets (`FactSet.implementation`); and as words and widths
of which nothing is known (`Packed.implementation`).  A history is any sequence of operations on
numbered values, with every answer and every fault written down.

Two implementations that are mapped to each other operation by operation have the same histories
(`Implementation.Maps.history`).  Fact sets are mapped to their words and to their rows, so all
three go on in step (`FactSet.histories_inStep`): words made by the operations keep the invariants
of a fact set, they are never out of range, and they answer what the rows answer.
-/

namespace FactFlow

/-! ### Operations and histories -/

/-- What is asked of one set. -/
inductive Query where
  | contains (p : Nat)
  | count
  | isNone
  | isAll
  | bits
  deriving DecidableEq, Repr

/-- How two sets are compared. -/
inductive Comparison where
  | subset
  | differs
  | equal
  deriving DecidableEq, Repr

/-- What an operation is answered with, unless it faults. -/
inductive Reply where
  | done
  | flag (b : Bool)
  | number (n : Nat)
  | row (bs : List Bool)
  deriving DecidableEq, Repr

/-- The operations on values that stand for sets of positions. -/
structure Implementation (V : Type) where
  /-- No position of a width. -/
  none : Nat → V
  /-- Every position of a width. -/
  full : Nat → V
  /-- The set of a row. -/
  ofBits : List Bool → Except Fault V
  /-- A value after the change of one position. -/
  change : V → Change → V × Except Fault Unit
  /-- The first value after the second has been combined into it, and whether it changed. -/
  combine : Combination → V → V → V × Except Fault Bool
  /-- An answer about one value. -/
  ask : V → Query → Except Fault Reply
  /-- An answer about two values. -/
  compare : Comparison → V → V → Except Fault Bool

/-- An operation on numbered values. -/
inductive Operation where
  | none (r width : Nat)
  | full (r width : Nat)
  | ofBits (r : Nat) (bs : List Bool)
  | copy (r source : Nat)
  | change (r : Nat) (c : Change)
  | combine (o : Combination) (r source : Nat)
  | ask (r : Nat) (q : Query)
  | compare (c : Comparison) (r other : Nat)
  deriving DecidableEq, Repr

namespace Implementation

variable {V W : Type} (I : Implementation V) (J : Implementation W)

/-- Perform an operation. -/
def perform (values : Nat → V) : Operation → (Nat → V) × Except Fault Reply
  | .none r width => (Function.update values r (I.none width), .ok .done)
  | .full r width => (Function.update values r (I.full width), .ok .done)
  | .ofBits r bs =>
    match I.ofBits bs with
    | .ok v => (Function.update values r v, .ok .done)
    | .error e => (values, .error e)
  | .copy r source => (Function.update values r (values source), .ok .done)
  | .change r c =>
    let (v, answer) := I.change (values r) c
    (Function.update values r v, answer.map fun _ => .done)
  | .combine o r source =>
    let (v, answer) := I.combine o (values r) (values source)
    (Function.update values r v, answer.map .flag)
  | .ask r q => (values, I.ask (values r) q)
  | .compare c r other => (values, (I.compare c (values r) (values other)).map .flag)

/-- Perform operations one after another. -/
def run (values : Nat → V) : List Operation → (Nat → V) × List (Except Fault Reply)
  | [] => (values, [])
  | op :: rest =>
    let (values, reply) := I.perform values op
    let (values, replies) := run values rest
    (values, reply :: replies)

/-- Perform operations on values that are empty at first. -/
def history (ops : List Operation) : (Nat → V) × List (Except Fault Reply) :=
  I.run (fun _ => I.none 0) ops

/-- Every operation does the same to `g v` as to `v`, and answers the same. -/
structure Maps (g : V → W) : Prop where
  none : ∀ n, J.none n = g (I.none n)
  full : ∀ n, J.full n = g (I.full n)
  ofBits : ∀ bs, J.ofBits bs = (I.ofBits bs).map g
  change : ∀ v c, J.change (g v) c = (I.change v c).map g id
  combine : ∀ o v w, J.combine o (g v) (g w) = (I.combine o v w).map g id
  ask : ∀ v q, J.ask (g v) q = I.ask v q
  compare : ∀ c v w, J.compare c (g v) (g w) = I.compare c v w

variable {I J} {g : V → W}

theorem Maps.perform (h : I.Maps J g) (values : Nat → V) (op : Operation) :
    J.perform (g ∘ values) op = (I.perform values op).map (g ∘ ·) id := by
  cases op with
  | none r width => simp [Implementation.perform, h.none, Function.comp_update]
  | full r width => simp [Implementation.perform, h.full, Function.comp_update]
  | ofBits r bs =>
    simp only [Implementation.perform, h.ofBits]
    cases I.ofBits bs <;> simp [Except.map, Function.comp_update]
  | copy r source => simp [Implementation.perform, Function.comp_update]
  | change r c => simp [Implementation.perform, h.change, Function.comp_update]
  | combine o r source => simp [Implementation.perform, h.combine, Function.comp_update]
  | ask r q => simp [Implementation.perform, h.ask]
  | compare c r other => simp [Implementation.perform, h.compare]

theorem Maps.run (h : I.Maps J g) (values : Nat → V) (ops : List Operation) :
    J.run (g ∘ values) ops = (I.run values ops).map (g ∘ ·) id := by
  induction ops generalizing values with
  | nil => rfl
  | cons op rest ih =>
    simp only [Implementation.run, h.perform, Prod.map_fst, Prod.map_snd, ih]
    rfl

theorem Maps.history (h : I.Maps J g) (ops : List Operation) :
    J.history ops = (I.history ops).map (g ∘ ·) id := by
  have hstart : (fun _ : Nat => J.none 0) = g ∘ fun _ => I.none 0 := funext fun _ => h.none 0
  rw [Implementation.history, hstart, h.run]
  rfl

end Implementation

/-! ### Rows, sets and words -/

namespace Row

/-- Put a bit in place `p` of a row. -/
def put (row : List Bool) (p : Nat) (b : Bool) : List Bool × Except Fault Unit :=
  if p < row.length then (row.set p b, .ok ()) else (row, .error (.position p row.length))

/-- Run `k` on two rows, provided that their lengths agree. -/
def sameLength {β : Type} (xs ys : List Bool) (k : β) : Except Fault β :=
  if xs.length = ys.length then .ok k else .error (.widths xs.length ys.length)

/-- Sets as rows of bits, position by position. -/
def implementation : Implementation (List Bool) where
  none n := List.replicate n false
  full n := List.replicate n true
  ofBits bs := .ok bs
  change row c := match c with
    | .insert p => put row p true
    | .erase p => put row p false
    | .set p b => put row p b
  combine o xs ys :=
    inPlace xs (sameLength xs ys (List.zipWith o.onBits xs ys, List.zipWith o.onBits xs ys != xs))
  ask row q := match q with
    | .contains p =>
      match row[p]? with
      | some b => .ok (.flag b)
      | none => .error (.position p row.length)
    | .count => .ok (.number (row.count true))
    | .isNone => .ok (.flag (row.all (!·)))
    | .isAll => .ok (.flag (row.all id))
    | .bits => .ok (.row row)
  compare c xs ys := match c with
    | .subset => sameLength xs ys ((List.zipWith (fun x y => !x || y) xs ys).all id)
    | .differs => sameLength xs ys (xs != ys)
    | .equal => .ok (xs == ys)

end Row

/-- Fact sets. -/
def FactSet.implementation : Implementation FactSet where
  none := FactSet.none
  full := FactSet.full
  ofBits bs := .ok (FactSet.ofBits bs)
  change := FactSet.change
  combine := FactSet.combine
  ask s q := match q with
    | .contains p => (s.contains p).map .flag
    | .count => .ok (.number s.count)
    | .isNone => .ok (.flag s.isNone)
    | .isAll => .ok (.flag s.isAll)
    | .bits => .ok (.row s.bits)
  compare c s t := match c with
    | .subset => s.subset t
    | .differs => s.differsFrom t
    | .equal => .ok (s == t)

/-- Words and widths. -/
def Packed.implementation : Implementation Packed where
  none := Packed.none
  full := Packed.full
  ofBits := Packed.ofBits
  change := Packed.change
  combine := Packed.combine
  ask s q := match q with
    | .contains p => (s.contains p).map .flag
    | .count => .ok (.number s.count)
    | .isNone => .ok (.flag s.isNone)
    | .isAll => .ok (.flag s.isAll)
    | .bits => s.bits.map .row
  compare c s t := match c with
    | .subset => s.subset t
    | .differs => s.differsFrom t
    | .equal => .ok (s.words == t.words && s.width == t.width)

namespace FactSet

/-! ### Words for sets -/

theorem sameWidth_packed {β : Type} (s t : FactSet) (k : β) :
    s.packed.sameWidth t.packed k = s.sameWidth t fun _ => k := by
  unfold Packed.sameWidth sameWidth
  change (if s.width = t.width then _ else _) = _
  split <;> rfl

theorem packed_inj {s t : FactSet} : s.packed = t.packed ↔ s = t := by
  refine ⟨fun h => ?_, fun h => h ▸ rfl⟩
  cases s
  cases t
  cases h
  rfl

theorem maps_packed : implementation.Maps Packed.implementation packed where
  none _ := rfl
  full n := (packed_full n).symm
  ofBits := packed_ofBits
  change := packed_change
  combine := packed_combine
  ask s q := by
    cases q with
    | contains p => exact congrArg (Except.map _) (s.contains_packed p)
    | bits => exact congrArg (Except.map _) s.bits_packed
    | _ => rfl
  compare c s t := by
    cases c with
    | subset => exact sameWidth_packed s t _
    | differs => exact sameWidth_packed s t _
    | equal =>
      refine congrArg Except.ok ?_
      rw [Bool.eq_iff_iff, beq_iff_eq, ← packed_inj, Bool.and_eq_true, beq_iff_eq, beq_iff_eq,
        packed, packed, Packed.mk.injEq, and_comm]

/-! ### Rows for sets -/

theorem bits_setAt (s : FactSet) {p : Nat} (h : p < s.width) (b : Bool) :
    (s.setAt p h b).bits = s.bits.set p b := by
  have hwidth : (s.setAt p h b).width = s.width := by cases b <;> rfl
  refine bits_eq_iff.2 ⟨by simp [hwidth], fun q hq => ?_⟩
  rw [List.getElem_set]
  split
  · rename_i hpq
    cases b <;> simp [setAt, hpq]
  · rename_i hpq
    cases b <;> simp [setAt, Ne.symm hpq, bits]

theorem put_bits (s : FactSet) (p : Nat) (b : Bool) :
    Row.put s.bits p b = (s.change (.set p b)).map bits id := by
  rw [Row.put, length_bits, change]
  split
  · rename_i hp
    rw [set_of_lt hp, ← s.bits_setAt hp]
    rfl
  · rename_i hp
    rw [set_of_le (Nat.le_of_not_lt hp)]
    rfl

theorem bits_combined (o : Combination) {s t : FactSet} (h : s.width = t.width) :
    (s.combined o t h).bits = List.zipWith o.onBits s.bits t.bits := by
  refine bits_eq_iff.2 ⟨?_, fun p _ => ?_⟩
  · rw [List.length_zipWith, length_bits, length_bits, h, Nat.min_self]
    exact h
  · rw [combined, test_zipWords, o.getLsbD_onWords _ _ (Nat.mod_lt p (by omega))]
    simp [bits, test, bitAt]

/-- Sets of one width differ in some word iff they differ in some bit. -/
theorem bne_words {s t : FactSet} (h : s.width = t.width) :
    (s.words != t.words) = (s.bits != t.bits) := by
  rw [Bool.eq_iff_iff, bne_iff_ne, bne_iff_ne, Ne, Ne, bits_inj, not_iff_not, ← packed_inj, packed,
    packed, Packed.mk.injEq]
  exact ⟨fun hwords => ⟨h, hwords⟩, And.right⟩

theorem combine_bits (o : Combination) (s t : FactSet) :
    Row.implementation.combine o s.bits t.bits = (s.combine o t).map bits id := by
  change inPlace s.bits (if s.bits.length = t.bits.length then _ else _) = _
  rw [length_bits, length_bits]
  by_cases h : s.width = t.width
  · have hchanged := bne_words (s := s.combined o t h) (t := s) rfl
    rw [if_pos h, combine_of_width o h, ← bits_combined o h, ← hchanged]
    rfl
  · rw [if_neg h, combine_of_ne o h]
    rfl

theorem sameLength_bits {β : Type} (s t : FactSet) (k : β) :
    Row.sameLength s.bits t.bits k = s.sameWidth t fun _ => k := by
  unfold Row.sameLength sameWidth
  rw [length_bits, length_bits]
  split <;> rfl

theorem zipWith_implies_bits {s t : FactSet} (h : s.width = t.width) :
    (List.zipWith (fun x y => !x || y) s.bits t.bits).all id = true ↔
      ∀ p, s.test p = true → t.test p = true := by
  rw [bits, bits, ← h, List.zipWith_map, List.zipWith_self, List.all_map, List.all_eq_true]
  constructor
  · intro hall p hp
    have himp := hall p (List.mem_range.2 (lt_width_of_test hp))
    simpa [hp] using himp
  · intro himp p _
    cases hp : s.test p with
    | false => simp [hp]
    | true => simp [himp p hp]

theorem subset_bits (s t : FactSet) :
    Row.implementation.compare .subset s.bits t.bits = s.subset t := by
  refine (sameLength_bits s t _).trans ?_
  by_cases h : s.width = t.width
  · rw [sameWidth, dif_pos h]
    exact (subset_eq_ok_iff.2 ⟨h, zipWith_implies_bits h⟩).symm
  · rw [subset, sameWidth, sameWidth, dif_neg h, dif_neg h]

theorem ask_bits (s : FactSet) (p : Nat) :
    Row.implementation.ask s.bits (.contains p) = (s.contains p).map .flag := by
  change (match s.bits[p]? with | some b => _ | .none => _) = _
  by_cases hp : p < s.width
  · rw [contains, if_pos hp, s.getElem?_bits hp]
    rfl
  · rw [contains, if_neg hp, List.getElem?_eq_none (by simpa using hp), length_bits]
    rfl

theorem maps_bits : implementation.Maps Row.implementation bits where
  none n := (bits_none n).symm
  full n := (bits_full n).symm
  ofBits bs := congrArg Except.ok (bits_ofBits bs).symm
  change s c := by
    cases c with
    | insert p => exact s.put_bits p true
    | erase p => exact s.put_bits p false
    | set p b => exact s.put_bits p b
  combine := combine_bits
  ask s q := by
    cases q with
    | contains p => exact s.ask_bits p
    | count => exact congrArg (Except.ok ∘ Reply.number) s.count_eq.symm
    | isNone => exact congrArg (Except.ok ∘ Reply.flag) s.isNone_eq.symm
    | isAll => exact congrArg (Except.ok ∘ Reply.flag) s.isAll_eq.symm
    | bits => rfl
  compare c s t := by
    cases c with
    | subset => exact subset_bits s t
    | differs =>
      refine (sameLength_bits s t _).trans (congrArg (s.sameWidth t) ?_)
      exact funext fun hw => (bne_words hw).symm
    | equal =>
      refine congrArg Except.ok ?_
      rw [Bool.eq_iff_iff, beq_iff_eq, beq_iff_eq, bits_inj]

/-! ### Faults -/

theorem inPlace_of_error {V β : Type} {v : V} {x : Except Fault (V × β)} {e : Fault}
    (h : (inPlace v x).2 = .error e) : (inPlace v x).1 = v := by
  cases x with
  | error e' => rfl
  | ok w => cases h

theorem change_of_error {s : FactSet} {c : Change} {e : Fault} (h : (s.change c).2 = .error e) :
    (s.change c).1 = s := by
  cases c <;> exact inPlace_of_error h

theorem combine_of_error {o : Combination} {s t : FactSet} {e : Fault}
    (h : (s.combine o t).2 = .error e) : (s.combine o t).1 = s :=
  inPlace_of_error h

/-- An operation that faults changes no value. -/
theorem perform_of_error {values : Nat → FactSet} {op : Operation} {e : Fault}
    (h : (implementation.perform values op).2 = .error e) :
    (implementation.perform values op).1 = values := by
  cases op with
  | change r c =>
    have hfault : ((values r).change c).2 = .error e := Outcome.map_eq_error_iff.1 h
    change Function.update values r ((values r).change c).1 = values
    rw [change_of_error hfault, Function.update_eq_self]
  | combine o r source =>
    have hfault : ((values r).combine o (values source)).2 = .error e :=
      Outcome.map_eq_error_iff.1 h
    change Function.update values r ((values r).combine o (values source)).1 = values
    rw [combine_of_error hfault, Function.update_eq_self]
  | ask r q => rfl
  | compare c r other => rfl
  | _ => cases h

/-! ### In step -/

/-- A history goes on in step on rows, on fact sets and on words. -/
structure InStep (ops : List Operation) : Prop where
  /-- Fact sets answer and fault as rows do. -/
  replies : (implementation.history ops).2 = (Row.implementation.history ops).2
  /-- So do words. -/
  replies_packed : (Packed.implementation.history ops).2 = (Row.implementation.history ops).2
  /-- The row of each value is the row of its fact set. -/
  row_eq : ∀ r, (Row.implementation.history ops).1 r = ((implementation.history ops).1 r).bits
  /-- The words of each value are the words of its fact set. -/
  packed_eq : ∀ r,
    (Packed.implementation.history ops).1 r = ((implementation.history ops).1 r).packed
  /-- There are as many words as the width needs, and no bit beyond the width is set. -/
  valid : ∀ r, ((Packed.implementation.history ops).1 r).Valid
  /-- An operation that faults next changes no word. -/
  fault : ∀ op e,
    (Packed.implementation.perform (Packed.implementation.history ops).1 op).2 = .error e →
    (Packed.implementation.perform (Packed.implementation.history ops).1 op).1 =
      (Packed.implementation.history ops).1

/-- **Packed words refine rows of bits**, through every history. -/
theorem histories_inStep (ops : List Operation) : InStep ops := by
  have hwords : Packed.implementation.history ops =
      ((packed ∘ (implementation.history ops).1), (implementation.history ops).2) :=
    maps_packed.history ops
  have hrows : Row.implementation.history ops =
      ((bits ∘ (implementation.history ops).1), (implementation.history ops).2) :=
    maps_bits.history ops
  constructor
  case replies => rw [hrows]
  case replies_packed => rw [hwords, hrows]
  case row_eq => exact fun r => by rw [hrows]; rfl
  case packed_eq => exact fun r => by rw [hwords]; rfl
  case valid => exact fun r => by rw [hwords]; exact packed_valid _
  case fault =>
    intro op e h
    rw [hwords] at h ⊢
    rw [maps_packed.perform] at h ⊢
    exact congrArg (packed ∘ ·) (perform_of_error h)

end FactSet

end FactFlow
