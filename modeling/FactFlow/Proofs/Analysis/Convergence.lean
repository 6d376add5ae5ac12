import FactFlow.Proofs.Analysis.Available
import FactFlow.Proofs.Analysis.Distributive
import FactFlow.Proofs.Analysis.WillBeAvailable
import FactFlow.Proofs.Program.Edges
import FactFlow.Proofs.Solve.FixedPoint

/-!
# How many passes the analyses take

The analyses decide each position of their sets by itself (`Analysis.IsBitwise`): what the transfer
makes of a position depends on that position only, and what a block receives from a neighbor at a
position depends on one fact, stored at the *port* of the neighbor.  So positions can be followed
one at a time.  At one position a port comes down from the identity once, and a pass at which no
port comes down leaves the position settled for good.  There are as many ports as blocks: all
positions are settled after one pass more than there are blocks, and the next pass finds nothing to
change (`Analysis.IsBitwise.passes_le`).  How many positions there are does not matter.

Facts are updated in place, so the state that a block is computed from belongs to a table between
the one before the pass and the one behind it (`Analysis.IsMonotoneIn.pass_between`).  If the ports
are the same in the two, they are the same in the table between them.
-/

namespace FactFlow

/-- Two sets agree at position `p`. -/
def FactSet.AgreesAt (p : Nat) (s t : FactSet) : Prop := s.test p = t.test p

theorem FactSet.AgreesAt.refl (p : Nat) (s : FactSet) : FactSet.AgreesAt p s s := rfl

theorem Domain.Updates.agreesAt {α : Type} {d : Domain α} {gen kill : α → Prop}
    {x y x' y' : FactSet} (hx : d.Updates gen kill x x') (hy : d.Updates gen kill y y') {p : Nat}
    (hp : p < d.size) (h : FactSet.AgreesAt p x y) : FactSet.AgreesAt p x' y' := by
  obtain ⟨e, he⟩ := exists_get?_of_lt hp
  show x'.test p = y'.test p
  rw [Bool.eq_iff_iff, hx.2 he, hy.2 he, show x.test p = y.test p from h]

theorem Facts.below_trans {m : Mode} {X Y Z : Facts} (hsize : X.size = Y.size)
    (hXY : Pointwise m.Below X Y) (hYZ : Pointwise m.Below Y Z) : Pointwise m.Below X Z := by
  intro k u w hu hw
  have hlt : k < Y.size := hsize ▸ (Array.getElem?_eq_some_iff.1 hu).1
  have hv : Y[k]? = some Y[k] := Array.getElem?_eq_getElem hlt
  exact (hXY k u _ hu hv).trans (hYZ k _ w hv hw)

theorem Direction.schedule_nodup {f : Function} (hf : f.WellFormed) (dir : Direction) :
    (dir.schedule f).Nodup := by
  have hblocks : f.blocks.Nodup := by
    refine List.Nodup.of_map (·.id) ?_
    rw [hf.map_id_blocks]
    exact List.nodup_range
  cases dir with
  | forward => exact hblocks
  | backward => exact List.nodup_reverse.2 hblocks

namespace Analysis

section

variable {α : Type} (A : Analysis α) (f : Function) (d : Domain α)

/-- Positions are decided one by one: by the transfer, and along the edges by the facts stored at
the ports of the neighbors. -/
structure IsBitwise (m : Mode) (port : BlockId → InstId) : Prop
    extends A.IsMonotoneIn f d m where
  /-- The transfer looks at one position. -/
  transfer_agreesAt : ∀ {p i s t s' t'}, p < d.size → i ∈ f.instructions → s.width = d.size →
    t.width = d.size → FactSet.AgreesAt p s t → A.transfer f i d s = .ok s' →
    A.transfer f i d t = .ok t' → FactSet.AgreesAt p s' t'
  /-- The edges look at one position of the fact at the port. -/
  sends_agreesAt : ∀ {p b n X Y v w}, p < d.size → b ∈ f.blocks →
    n ∈ A.direction.neighbors f b → Facts.Fits X f.instCount d.size →
    Facts.Fits Y f.instCount d.size →
    (∀ u u', X[port n]? = some u → Y[port n]? = some u' → FactSet.AgreesAt p u u') →
    A.Sends f d X b n v → A.Sends f d Y b n w → FactSet.AgreesAt p v w

/-- Position `p` is in balance everywhere. -/
def SettledAt (p : Nat) (facts : Facts) : Prop := A.Balanced f d (FactSet.AgreesAt p) facts

/-- The blocks whose port has come down from the identity at position `p`. -/
def signals (m : Mode) (port : BlockId → InstId) (p : Nat) (facts : Facts) : Finset BlockId :=
  (Finset.range f.blockCount).filter fun n =>
    facts[port n]?.any fun u => u.test p != (m.operator.unit u.width).test p

/-- At each position, the table is settled or at least `k` blocks signal. -/
def Advanced (m : Mode) (port : BlockId → InstId) (k : Nat) (facts : Facts) : Prop :=
  ∀ p < d.size, A.SettledAt f d p facts ∨ k ≤ (signals f m port p facts).card

variable {A f d}

theorem IsGenKill.exists_isBitwise {gen kill : Instruction → α → Prop}
    (h : A.IsGenKill f d gen kill) (hedges : A.UpdatesAlongEdges f d f.instCount) {m : Mode}
    (hA : A.IsMonotoneIn f d m) : ∃ port, A.IsBitwise f d m port := by
  choose port hport using fun n => hedges.exists_updates (n := n)
  refine ⟨port, hA, fun hp hi hs ht hst hs' ht' => ?_, fun {p b n X Y v w} hp hb hn hX hY => ?_⟩
  · exact (h.updates hi hs hs').agreesAt (h.updates hi ht ht') hp hst
  · intro hagree hv hw
    obtain ⟨gen, kill, hedge⟩ := hport n b hb hn
    obtain ⟨x, hx, hxv⟩ := hedge hX hv
    obtain ⟨y, hy, hyw⟩ := hedge hY hw
    exact hxv.agreesAt hyw hp (hagree x y hx hy)

/-! ### Between the tables of a pass -/

/-- **What a pass over a descending table computes** lies between the table that it finds and the
one that it leaves: each block is entered as some table between them says. -/
theorem IsMonotoneIn.pass_between {m : Mode} (hA : A.IsMonotoneIn f d m) (hf : f.WellFormed)
    {order : List Block} (horder : ∀ b ∈ order, b ∈ f.blocks) (hnodup : order.Nodup)
    {t t' : Tables} {n : Nat} (hfits : t.Fits f d.size)
    (hbal : A.Balanced f d m.Below t.facts)
    (h : A.pass f d (A.boundary d) order t = .ok (t', n)) :
    t'.Fits f d.size ∧ Facts.Pointwise m.Below t'.facts t.facts ∧
      ∀ b ∈ order, ∃ (X : Facts) (s : FactSet), X.Fits f.instCount d.size ∧
        Facts.Pointwise m.Below t'.facts X ∧ Facts.Pointwise m.Below X t.facts ∧
        A.Enters f d X b s ∧ A.Along f d (· = ·) t'.facts s (A.direction.through b) := by
  induction order generalizing t n with
  | nil =>
    cases h
    exact ⟨hfits, Facts.Pointwise.refl (Mode.Below.refl _) _, fun b hb => by cases hb⟩
  | cons b rest ih =>
    obtain ⟨hb, hrest⟩ := List.forall_mem_cons.1 horder
    obtain ⟨hfresh, hnodup⟩ := List.nodup_cons.1 hnodup
    obtain ⟨t₁, k₁, k₂, hvisit, hpass, -⟩ := pass_cons_eq_ok_iff.1 h
    obtain ⟨s, hs, hflowed⟩ := visit_spec hf hfits.facts.size_eq hb hvisit
    obtain ⟨t₂, k, hvisit', hfits₁, hbal₁, hbelow₁, -⟩ := hA.visit_descends hf hfits hbal hb
    cases hvisit.symm.trans hvisit'
    obtain ⟨hfits', hbelow, hbetween⟩ := ih hrest hnodup hfits₁ hbal₁ hpass
    have hsize₁ := hfits₁.facts.size_eq
    have hbelow' := Facts.below_trans (hfits'.facts.size_eq.trans hsize₁.symm) hbelow hbelow₁
    refine ⟨hfits', hbelow', List.forall_mem_cons.2 ⟨?_, fun c hc => ?_⟩⟩
    · refine ⟨t.facts, s, hfits.facts, hbelow', Facts.Pointwise.refl (Mode.Below.refl _) _, hs, ?_⟩
      refine hflowed.along.congr fun i hi => ?_
      exact pass_frame hf hrest hsize₁ hpass hb hfresh (Direction.mem_through_iff.1 hi)
    · obtain ⟨X, r, hX, hlow, hhigh, hr, halong⟩ := hbetween c hc
      have hhigh' := Facts.below_trans (hX.size_eq.trans hsize₁.symm) hhigh hbelow₁
      exact ⟨X, r, hX, hlow, hhigh', hr, halong⟩

/-! ### Signals -/

section

variable {m : Mode} {port : BlockId → InstId} {p : Nat} {X Y : Facts}

theorem mem_signals_iff {n : BlockId} (hn : n < f.blockCount) {u : FactSet}
    (hu : X[port n]? = some u) :
    n ∈ signals f m port p X ↔ u.test p ≠ (m.operator.unit u.width).test p := by
  simp [signals, hn, hu]

/-- In a lower table more blocks signal. -/
theorem signals_subset (hX : X.Fits f.instCount d.size) (hY : Y.Fits f.instCount d.size)
    (h : Facts.Pointwise m.Below X Y) (hp : p < d.size) :
    signals f m port p Y ⊆ signals f m port p X := by
  intro n hn
  have hlt : n < f.blockCount := Finset.mem_range.1 (Finset.mem_filter.1 hn).1
  obtain ⟨v, hv, -⟩ := (Option.any_eq_true _ _).1 (Finset.mem_filter.1 hn).2
  obtain ⟨u, hu, -⟩ := hX.exists_getElem? (hY.size_eq ▸ (Array.getElem?_eq_some_iff.1 hv).1)
  refine (mem_signals_iff hlt hu).2 (Mode.test_ne_unit_of_below (h _ u v hu hv) ?_ ?_)
  · rwa [hY.width_eq hv]
  · exact (mem_signals_iff hlt hv).1 hn

/-- If no other blocks signal in a lower table, the ports of the two agree. -/
theorem agreesAt_of_signals_subset (hX : X.Fits f.instCount d.size)
    (hY : Y.Fits f.instCount d.size) (h : Facts.Pointwise m.Below X Y) (hp : p < d.size)
    (hsub : signals f m port p X ⊆ signals f m port p Y) {n : BlockId} (hn : n < f.blockCount)
    {u v : FactSet} (hu : X[port n]? = some u) (hv : Y[port n]? = some v) :
    FactSet.AgreesAt p u v := by
  have hiff : u.test p ≠ (m.operator.unit d.size).test p ↔
      v.test p ≠ (m.operator.unit d.size).test p := by
    have hu' := mem_signals_iff (m := m) (p := p) hn hu
    have hv' := mem_signals_iff (m := m) (p := p) hn hv
    rw [hX.width_eq hu] at hu'
    rw [hY.width_eq hv] at hv'
    rw [← hu', ← hv']
    exact ⟨fun hn => hsub hn, fun hn => signals_subset hX hY h hp hn⟩
  show u.test p = v.test p
  revert hiff
  cases u.test p <;> cases v.test p <;> cases (m.operator.unit d.size).test p <;> simp

end

theorem card_signals_le (m : Mode) (port : BlockId → InstId) (p : Nat) (facts : Facts) :
    (signals f m port p facts).card ≤ f.blockCount :=
  (Finset.card_filter_le _ _).trans (Finset.card_range _).le

/-! ### One position -/

namespace IsBitwise

variable {m : Mode} {port : BlockId → InstId} (hA : A.IsBitwise f d m port) (hf : f.WellFormed)
include hA hf

variable {p : Nat} (hp : p < d.size) {X Y : Facts} (hX : X.Fits f.instCount d.size)
  (hY : Y.Fits f.instCount d.size)
include hp hX hY

theorem enters_agreesAt {b : Block} (hb : b ∈ f.blocks)
    (h : ∀ n < f.blockCount, ∀ u v, X[port n]? = some u → Y[port n]? = some v →
      FactSet.AgreesAt p u v)
    {s t : FactSet} (hs : A.Enters f d X b s) (ht : A.Enters f d Y b t) :
    FactSet.AgreesAt p s t := by
  by_cases hnil : A.direction.neighbors f b = []
  · rw [Enters, if_pos hnil] at hs ht
    rw [hs, ht]
    rfl
  · have hsends : ∀ n ∈ A.direction.neighbors f b, (∃ v, A.Sends f d X b n v ∧ v.test p = true) ↔
        ∃ v, A.Sends f d Y b n v ∧ v.test p = true := by
      intro n hn
      obtain ⟨c, i, hc, -, -⟩ := Direction.exists_exit? hf hb hn
      obtain ⟨v, hv⟩ := exists_sends hA.toKeepsWidth hf hX hb hn
      obtain ⟨w, hw⟩ := exists_sends hA.toKeepsWidth hf hY hb hn
      have hvw : v.test p = w.test p := hA.sends_agreesAt hp hb hn hX hY
        (h n (List.getElem?_eq_some_iff.1 hc).1) hv hw
      constructor
      · rintro ⟨v', hv', htest⟩
        rw [hv'.unique hv, hvw] at htest
        exact ⟨w, hw, htest⟩
      · rintro ⟨w', hw', htest⟩
        rw [hw'.unique hw, ← hvw] at htest
        exact ⟨v, hv, htest⟩
    show s.test p = t.test p
    rw [Bool.eq_iff_iff, hs.test_iff hA.meet_eq hnil hp, ht.test_iff hA.meet_eq hnil hp]
    cases m with
    | must => exact forall₂_congr hsends
    | may => exact exists_congr fun n => and_congr_right fun hn => hsends n hn

omit hX in
theorem along_agreesAt (hXY : Facts.Pointwise (FactSet.AgreesAt p) X Y) {l : List Instruction}
    (hl : ∀ i ∈ l, i ∈ f.instructions) {s t : FactSet} (hs : s.width = d.size)
    (ht : t.width = d.size) (hst : FactSet.AgreesAt p s t)
    (h : A.Along f d (FactSet.AgreesAt p) X s l) : A.Along f d (FactSet.AgreesAt p) Y t l := by
  induction l generalizing s t with
  | nil => trivial
  | cons i rest ih =>
    obtain ⟨hi, hrest⟩ := List.forall_mem_cons.1 hl
    obtain ⟨s', u, hs', hu, hsu, hchain⟩ := h
    obtain ⟨t', ht', hwt'⟩ := hA.transfer_total hi ht
    obtain ⟨v, hv, -⟩ := hY.exists_getElem? (hf.id_lt hi)
    have hst' := hA.transfer_agreesAt hp hi hs ht hst hs' ht'
    refine ⟨t', v, ht', hv, (hst'.symm.trans hsu).trans (hXY i.id u v hu hv), ?_⟩
    exact ih hrest (hA.transfer_width hi hs hs') hwt' hst' hchain

/-- Whether a position is settled depends on that position only. -/
theorem settledAt_congr (hXY : Facts.Pointwise (FactSet.AgreesAt p) X Y)
    (h : A.SettledAt f d p X) : A.SettledAt f d p Y := by
  intro b hb
  obtain ⟨s, hs, halong⟩ := h b hb
  obtain ⟨t, ht, hwt⟩ := exists_enters hA.toKeepsWidth hA.meet_keepsWidth hf hY hb
  have hst := hA.enters_agreesAt hf hp hX hY hb (fun n _ u v => hXY (port n) u v) hs ht
  refine ⟨t, ht, hA.along_agreesAt hf hp hY hXY (fun i hi => ?_) (hA.enters_width hs) hwt hst
    halong⟩
  exact Direction.mem_instructions_of_mem_through hb hi

end IsBitwise

/-! ### Passes -/

namespace IsBitwise

variable {m : Mode} {port : BlockId → InstId} (hA : A.IsBitwise f d m port) (hf : f.WellFormed)
include hA hf

theorem settledAt_of_visit {p : Nat} (hp : p < d.size) {t t' : Tables} {n : Nat}
    (hfits : t.facts.Fits f.instCount d.size) (h : A.SettledAt f d p t.facts) {b : Block}
    (hb : b ∈ f.blocks) (hvisit : A.visit f d (A.boundary d) t b = .ok (t', n)) :
    t'.facts.Fits f.instCount d.size ∧ A.SettledAt f d p t'.facts := by
  obtain ⟨s, hs, hflowed⟩ := visit_spec hf hfits.size_eq hb hvisit
  obtain ⟨s₀, hs₀, halong⟩ := h b hb
  obtain rfl : s₀ = s := hs₀.unique hf hfits.size_eq hb hs
  have hfits' := hflowed.fits hfits
  have hagree : Facts.Pointwise (FactSet.AgreesAt p) t'.facts t.facts :=
    hflowed.pointwise (FactSet.AgreesAt.refl p) halong
  refine ⟨hfits', hA.settledAt_congr hf hp hfits hfits' (fun k u v hu hv => ?_) h⟩
  exact (hagree k v u hv hu).symm

/-- **A settled position stays settled.** -/
theorem settledAt_of_pass {order : List Block} (horder : ∀ b ∈ order, b ∈ f.blocks) {p : Nat}
    (hp : p < d.size) {t t' : Tables} {n : Nat} (hfits : t.facts.Fits f.instCount d.size)
    (h : A.SettledAt f d p t.facts) (hpass : A.pass f d (A.boundary d) order t = .ok (t', n)) :
    A.SettledAt f d p t'.facts :=
  (pass_invariant (P := fun t => t.facts.Fits f.instCount d.size ∧ A.SettledAt f d p t.facts)
    (fun {_ b _ _} hb ht hvisit => hA.settledAt_of_visit hf hp ht.1 ht.2 (horder b hb) hvisit)
    ⟨hfits, h⟩ hpass).2

/-- **A pass at which no port comes down settles the position.** -/
theorem settledAt_of_signals_subset {order : List Block} (horder : ∀ b, b ∈ order ↔ b ∈ f.blocks)
    (hnodup : order.Nodup) {p : Nat} (hp : p < d.size) {t t' : Tables} {n : Nat}
    (hfits : t.Fits f d.size) (hbal : A.Balanced f d m.Below t.facts)
    (hpass : A.pass f d (A.boundary d) order t = .ok (t', n))
    (hsub : signals f m port p t'.facts ⊆ signals f m port p t.facts) :
    A.SettledAt f d p t'.facts := by
  obtain ⟨hfits', -, hbetween⟩ :=
    hA.pass_between hf (fun b => (horder b).1) hnodup hfits hbal hpass
  intro b hb
  obtain ⟨X, s, hX, hlow, hhigh, hs, halong⟩ := hbetween b ((horder b).2 hb)
  have hsub' : signals f m port p t'.facts ⊆ signals f m port p X :=
    hsub.trans (signals_subset hX hfits.facts hhigh hp)
  obtain ⟨r, hr, hwr⟩ := exists_enters hA.toKeepsWidth hA.meet_keepsWidth hf hfits'.facts hb
  have hsr : FactSet.AgreesAt p s r := by
    refine hA.enters_agreesAt hf hp hX hfits'.facts hb (fun c hc u v hu hv => ?_) hs hr
    exact (agreesAt_of_signals_subset hfits'.facts hX hlow hp hsub' hc hv hu).symm
  have hchain : A.Along f d (FactSet.AgreesAt p) t'.facts s (A.direction.through b) :=
    halong.imp fun t u htu => congrArg (·.test p) htu
  refine ⟨r, hr, hA.along_agreesAt hf hp hfits'.facts
    (Facts.Pointwise.refl (FactSet.AgreesAt.refl p) _) (fun i hi => ?_) (hA.enters_width hs) hwr hsr
    hchain⟩
  exact Direction.mem_instructions_of_mem_through hb hi

/-- Each pass settles a position or makes one more block signal at it. -/
theorem advanced_of_pass {order : List Block} (horder : ∀ b, b ∈ order ↔ b ∈ f.blocks)
    (hnodup : order.Nodup) {k : Nat} {t t' : Tables} {n : Nat}
    (hfits : t.Fits f d.size) (hbal : A.Balanced f d m.Below t.facts)
    (h : A.Advanced f d m port k t.facts)
    (hpass : A.pass f d (A.boundary d) order t = .ok (t', n)) :
    A.Advanced f d m port (k + 1) t'.facts := by
  have horder' : ∀ b ∈ order, b ∈ f.blocks := fun b => (horder b).1
  intro p hp
  rcases h p hp with hsettled | hcard
  · exact .inl (hA.settledAt_of_pass hf horder' hp hfits.facts hsettled hpass)
  · obtain ⟨hfits', hbelow, -⟩ := hA.pass_between hf horder' hnodup hfits hbal hpass
    by_cases hsub : signals f m port p t'.facts ⊆ signals f m port p t.facts
    · exact .inl (hA.settledAt_of_signals_subset hf horder hnodup hp hfits hbal hpass hsub)
    · have hgrown : signals f m port p t.facts ⊂ signals f m port p t'.facts :=
        ⟨signals_subset hfits'.facts hfits.facts hbelow hp, hsub⟩
      have hlt := Finset.card_lt_card hgrown
      exact .inr (by omega)

/-- A chain that is in balance at all positions is in balance. -/
theorem along_of_agreesAt {facts : Facts} (hfits : facts.Fits f.instCount d.size)
    {l : List Instruction} (hl : ∀ i ∈ l, i ∈ f.instructions) {s : FactSet}
    (hw : s.width = d.size) (h : ∀ p < d.size, A.Along f d (FactSet.AgreesAt p) facts s l) :
    A.Along f d (· = ·) facts s l := by
  induction l generalizing s with
  | nil => trivial
  | cons i rest ih =>
    obtain ⟨hi, hrest⟩ := List.forall_mem_cons.1 hl
    obtain ⟨t, ht, hwt⟩ := hA.transfer_total hi hw
    obtain ⟨u, hu, hwu⟩ := hfits.exists_getElem? (hf.id_lt hi)
    have hstep : ∀ p < d.size, FactSet.AgreesAt p t u ∧
        A.Along f d (FactSet.AgreesAt p) facts t rest := by
      intro p hp
      obtain ⟨t', u', ht', hu', htu, hchain⟩ := h p hp
      cases ht.symm.trans ht'
      cases hu.symm.trans hu'
      exact ⟨htu, hchain⟩
    have htu : t = u := by
      refine FactSet.eq_of_test (hwt.trans hwu.symm) fun p => ?_
      by_cases hp : p < d.size
      · exact (hstep p hp).1
      · rw [t.test_of_le (by omega), u.test_of_le (by omega)]
    exact ⟨t, u, ht, hu, htu, ih hrest hwt fun p hp => (hstep p hp).2⟩

/-- A table that is settled at all positions solves the equations. -/
theorem solves_of_settledAt {facts : Facts} (hfits : facts.Fits f.instCount d.size)
    (h : ∀ p < d.size, A.SettledAt f d p facts) : A.Solves f d facts := by
  intro b hb
  obtain ⟨s, hs, hw⟩ := exists_enters hA.toKeepsWidth hA.meet_keepsWidth hf hfits hb
  refine ⟨s, hs, hA.along_of_agreesAt hf hfits (fun i hi => ?_) hw fun p hp => ?_⟩
  · exact Direction.mem_instructions_of_mem_through hb hi
  · obtain ⟨s₀, hs₀, halong⟩ := h p hp b hb
    rwa [hs₀.unique hf hfits.size_eq hb hs] at halong

/-- After one pass more than there are blocks, the facts are a solution. -/
theorem solves_of_advanced {facts : Facts} (hfits : facts.Fits f.instCount d.size)
    (h : A.Advanced f d m port (f.blockCount + 1) facts) : A.Solves f d facts := by
  refine hA.solves_of_settledAt hf hfits fun p hp => (h p hp).resolve_right fun hcard => ?_
  have hle := card_signals_le (f := f) m port p facts
  omega

theorem passes_le_of_settle {order : List Block} (horder : ∀ b, b ∈ order ↔ b ∈ f.blocks)
    (hnodup : order.Nodup) {limit done passes : Nat} {t t' : Tables}
    (hfits : t.Fits f d.size) (hbal : A.Balanced f d m.Below t.facts)
    (hadvanced : A.Advanced f d m port done t.facts) (hdone : done ≤ f.blockCount + 1)
    (h : (A.settle f d (A.boundary d) order limit done t).result = .ok (t', passes)) :
    passes ≤ f.blockCount + 2 := by
  have horder' : ∀ b ∈ order, b ∈ f.blocks := fun b => (horder b).1
  induction limit generalizing done t with
  | zero => cases h
  | succ limit ih =>
    obtain ⟨t₁, changed, hpass, hrest⟩ := settle_succ_eq_ok_iff.1 h
    split at hrest
    · omega
    · rename_i hchanged
      -- a pass that changes something did not start from a solution
      have hlt : done ≠ f.blockCount + 1 := by
        rintro rfl
        obtain ⟨t₂, hpass', -⟩ := pass_of_solves hf horder' hfits
          (hA.solves_of_advanced hf hfits.facts hadvanced)
        cases hpass.symm.trans hpass'
        exact hchanged rfl
      obtain ⟨t₂, k, hpass', hfits₁, hbal₁, -⟩ := hA.pass_descends hf horder' hfits hbal
      cases hpass.symm.trans hpass'
      exact ih hfits₁ hbal₁ (hA.advanced_of_pass hf horder hnodup hfits hbal hadvanced hpass)
        (by omega) hrest

end IsBitwise

/-- **A bitwise analysis takes at most two passes more than there are blocks.** -/
theorem IsBitwise.passes_le [DecidableEq α] {m : Mode} {port : BlockId → InstId}
    (hA : A.IsBitwise f (A.domain f) m port) (hf : f.WellFormed) {S : Solution α}
    (h : (A.solve f).result = .ok S) : S.passes ≤ f.blockCount + 2 := by
  obtain ⟨-, -, t, passes, hsettle, rfl⟩ := solve_eq_ok_iff.1 h
  exact hA.passes_le_of_settle hf (fun _ => Direction.mem_schedule_iff)
    (Direction.schedule_nodup hf A.direction)
    ⟨fits_identities hA.meet_keepsWidth.unit_width _, (fits_start _).boundaries⟩
    (hA.balanced_identities hf) (fun _ _ => .inr (Nat.zero_le _)) (Nat.zero_le _) hsettle

theorem IsMust.passes_le [DecidableEq α] {gen kill : Instruction → α → Prop}
    (hA : A.IsMust f (A.domain f) gen kill) (hf : f.WellFormed) {S : Solution α}
    (h : (A.solve f).result = .ok S) : S.passes ≤ f.blockCount + 2 := by
  obtain ⟨port, hport⟩ :=
    hA.exists_isBitwise (hA.plain.updatesAlongEdges f.instCount) hA.isMonotoneIn
  exact hport.passes_le hf h

end

/-! ### The analyses -/

variable {f : Function}

theorem liveness_passes_le (hf : f.WellFormed) {S : Solution Value}
    (h : (liveness.solve f).result = .ok S) : S.passes ≤ f.blockCount + 2 := by
  have hA : liveness.IsMonotoneIn f (liveness.domain f) .may := liveness_isMonotoneIn hf rfl
  obtain ⟨port, hport⟩ := (liveness_isGenKill rfl).exists_isBitwise
    (liveness_updatesAlongEdges hf rfl f.instCount) hA
  exact hport.passes_le hf h

/-- Adding the anticipated facts takes no passes. -/
theorem willBeAvailable_passes_le (hf : f.WellFormed) {ant S : Solution Expression}
    (h : (WillBeAvailable.solve ant f).result = .ok S) : S.passes ≤ f.blockCount + 2 := by
  obtain ⟨own, hown, hS⟩ := WillBeAvailable.composed_eq_ok_iff.1 h
  have hpasses : S.passes = own.passes := by rw [(WillBeAvailable.addAnticipated_spec hS).eq_own]
  rw [hpasses]
  exact (willBeAvailable_isMust hf ant).passes_le hf hown

/-- No analysis of `f` takes more passes than there are blocks, and two. -/
structure FewPasses (f : Function) : Prop where
  /-- Available expressions. -/
  available : ∃ S, (available.solve f).result = .ok S ∧ S.passes ≤ f.blockCount + 2
  /-- Live variables. -/
  liveness : ∃ S, (liveness.solve f).result = .ok S ∧ S.passes ≤ f.blockCount + 2
  /-- Anticipated expressions, and will-be-available ones composed with them. -/
  willBeAvailable : f.criticalEdges = [] → ∃ ant S, (anticipated.solve f).result = .ok ant ∧
    (WillBeAvailable.solve ant f).result = .ok S ∧ ant.passes ≤ f.blockCount + 2 ∧
    S.passes ≤ f.blockCount + 2
  /-- Will-be-available expressions, whatever they are composed with. -/
  composed : ∀ ant S, (WillBeAvailable.solve ant f).result = .ok S → S.passes ≤ f.blockCount + 2

/-- **The analyses take at most two passes more than there are blocks**, however many elements there
are and in whatever order the blocks are numbered. -/
theorem passes_le_blockCount {draft : Draft} (hdraft : draft.toFunction = .ok f) : FewPasses f := by
  have hf := Draft.wellFormed_of_toFunction hdraft
  refine ⟨?_, ?_, fun hedges => ?_, fun ant S hS => willBeAvailable_passes_le hf hS⟩
  · obtain ⟨S, hS⟩ := exists_available_solve hf
    exact ⟨S, hS, (available_isMust hf).passes_le hf hS⟩
  · obtain ⟨S, hS⟩ := exists_liveness_solve hf
    exact ⟨S, hS, liveness_passes_le hf hS⟩
  · obtain ⟨ant, hant⟩ := exists_anticipated_solve hf hedges
    obtain ⟨S, hS, -⟩ := exists_isComposed hf hant
    exact ⟨ant, S, hant, hS, (anticipated_isMust hf).passes_le hf hant,
      willBeAvailable_passes_le hf hS⟩

/-- A slot is added to in an endless loop of one block. -/
def roundDraft : Draft where
  name := "round"
  params := 1
  slots := 1
  blockCount := 1
  entries := [
    ⟨0, .copy (.param 0), none⟩,
    ⟨0, .binary .add (.slot 0) (.param 0), some (.slot 0)⟩,
    ⟨0, .jump 0, none⟩]

theorem roundDraft_accepted : roundDraft.toFunction = .ok roundDraft.assemble :=
  Draft.toFunction_eq_ok_iff.2 ⟨by decide, rfl⟩

/-- One block and three passes: the first takes the sum out behind the addition, the second takes it
out in front of it, and the third finds nothing to change. -/
theorem passes_le_blockCount_round :
    roundDraft.toFunction = .ok roundDraft.assemble ∧ roundDraft.assemble.criticalEdges = [] ∧
      FewPasses roundDraft.assemble ∧ ∃ S, (available.solve roundDraft.assemble).result = .ok S ∧
        S.passes = roundDraft.assemble.blockCount + 2 :=
  ⟨roundDraft_accepted, rfl, passes_le_blockCount roundDraft_accepted,
    Outcome.exists_of_run (by decide +kernel)⟩

end Analysis

end FactFlow
