import FactFlow.Proofs.Analysis.Available
import FactFlow.Proofs.Analysis.WillBeAvailable

/-!
# What the composed facts miss, and what they keep too long

An expression should be available at a point if it is anticipated there, or if it was anticipated
earlier on every path and no operand has been redefined since.  The facts that adding the
anticipated ones leads to differ from this in two ways.

* Anticipation is added when the facts have settled, and so it does not travel.  What was
  anticipated earlier on every path from the entry is missing just where every path has computed it
  by then, it is not anticipated once more, and it is disturbed (`willBeAvailable_covers_iff`).
  The last is no restriction where nothing leads to the entry.
* The anticipated fact of an instruction is about the point in front of it, and is added to a fact
  about the point behind it.  The two points differ for an instruction that redefines an operand:
  behind it the expression still holds just if the instruction computes it
  (`willBeAvailable_redefined_iff`).

The smallest functions that show this compute a sum and return (`willBeAvailable_misses_sum`), and
add to a slot and return (`willBeAvailable_keeps_sum`).
-/

namespace FactFlow

namespace Expression

/-- On the path, `e` is anticipated in front of some instruction, and from there to the end no
operand of `e` is redefined. -/
def AnticipatedOn (ant : Solution Expression) (e : Expression) (path : List Instruction) : Prop :=
  ∃ pre k post, path = pre ++ k :: post ∧ ant.holds k.id e = .ok true ∧
    ∀ j ∈ k :: post, ¬ e.RedefinedBy j

variable {f : Function} {e : Expression} {i j : Instruction} {path : List Instruction}

theorem ComputedOn.append {pre : List Instruction} (h : e.ComputedOn path) :
    e.ComputedOn (pre ++ path) := by
  induction pre with
  | nil => exact h
  | cons i pre ih => exact ih.cons i

/-- **Anticipation travels** along a path that leaves the operands alone, until the path computes
the expression. -/
theorem computedOn_or_not_skippedFrom (hpath : f.Path i path j)
    (hclear : ∀ k ∈ path, ¬ e.RedefinedBy k) (hi : ¬ e.SkippedFrom f i) :
    e.ComputedOn path ∨ ¬ e.SkippedFrom f j := by
  -- along the path: either this instruction computes it, or it is anticipated at the next one
  induction hpath with
  | single _ => exact .inr hi
  | @cons i j _ path hstep hrest ih =>
    by_cases hcomputed : computedBy? i = some e
    · exact .inl ⟨[], i, path, rfl, hcomputed, hclear⟩
    · have hj : ¬ e.SkippedFrom f j := fun hj => hi (hj.cons hstep hcomputed)
      exact (ih (List.forall_mem_cons.1 hclear).2 hj).imp_left fun h => h.cons i

end Expression

namespace Analysis

open Expression WillBeAvailable

variable {f : Function} {ant S : Solution Expression}

/-! ### Earlier anticipation -/

/-- If on every path from `first` to `i` expression `e` is anticipated somewhere and no operand is
redefined since, then `e` holds at `i`. -/
def CoversAt (f : Function) (ant S : Solution Expression) (first : Instruction) (e : Expression)
    (i : Instruction) : Prop :=
  (∀ path, f.Path first path i → e.AnticipatedOn ant path) → S.holds i.id e = .ok true

/-- How far the composed facts cover what was anticipated earlier on runs from `first`. -/
structure CoversFrom (f : Function) (ant S : Solution Expression) (first : Instruction) :
    Prop where
  /-- Runs begin at this instruction. -/
  starts : f.Starts first
  /-- An expression is covered unless every path has computed it by then, it is not anticipated once
  more, and it is disturbed. -/
  coversAt_iff : ∀ i path, f.Path first path i → ∀ e ∈ S.domain.elements,
    (CoversAt f ant S first e i ↔ ((∀ path, f.Path first path i → e.ComputedOn path) →
      ant.holds i.id e = .ok true ∨ ¬ e.DisturbedAt f i))
  /-- If nothing leads to the entry, everything is disturbed wherever control can get to. -/
  disturbedAt : f.sources Function.entry = [] → ∀ i path, f.Path first path i →
    ∀ e ∈ S.domain.elements, e.DisturbedAt f i

section

variable (hf : f.WellFormed) (hant : (anticipated.solve f).result = .ok ant) {e : Expression}
  {i j : Instruction} {path : List Instruction} (he : e ∈ (anticipated.domain f).elements)
include hf hant he

/-- What a path computes is anticipated where it is computed. -/
theorem anticipatedOn_of_computedOn (hpath : f.Path i path j) (h : e.ComputedOn path) :
    e.AnticipatedOn ant path := by
  obtain ⟨pre, k, post, hsplit, hk, hclear⟩ := h
  refine ⟨pre, k, post, hsplit, ?_, hclear⟩
  rw [anticipated_holds_iff hf hant he (hpath.suffix hsplit).mem_left]
  exact not_skippedFrom_of_computed hk

/-- What is anticipated on a path is computed on it, or anticipated at its end. -/
theorem computedOn_or_holds (hpath : f.Path i path j) (h : e.AnticipatedOn ant path) :
    e.ComputedOn path ∨ ant.holds j.id e = .ok true := by
  obtain ⟨pre, k, post, hsplit, hk, hclear⟩ := h
  have hsuffix := hpath.suffix hsplit
  rw [anticipated_holds_iff hf hant he hsuffix.mem_left] at hk
  rw [hsplit, anticipated_holds_iff hf hant he hpath.mem_right]
  exact (computedOn_or_not_skippedFrom hsuffix hclear hk).imp_left fun h => h.append

theorem coversAt_iff (hS : IsComposed f ant S) (hi : i ∈ f.instructions) (first : Instruction) :
    CoversAt f ant S first e i ↔ ((∀ path, f.Path first path i → e.ComputedOn path) →
      ant.holds i.id e = .ok true ∨ ¬ e.DisturbedAt f i) := by
  obtain ⟨b, c, hb, hc, hiff⟩ := hS.holds_iff hf hant hi he
  have hholds : S.holds i.id e = .ok true ↔
      ant.holds i.id e = .ok true ∨ ¬ e.DisturbedAt f i := by
    rw [hb, hc, Except.ok.injEq, Except.ok.injEq, hiff]
  unfold CoversAt
  rw [hholds]
  constructor
  · exact fun hcovers hcomputed => hcovers fun path hpath =>
      anticipatedOn_of_computedOn hf hant he hpath (hcomputed path hpath)
  · intro hcomputed hanticipated
    by_cases hend : ant.holds i.id e = .ok true
    · exact .inl hend
    · -- not anticipated at the end, so on each path it was computed on the way
      refine hcomputed fun path hpath => ?_
      exact (computedOn_or_holds hf hant he hpath (hanticipated path hpath)).resolve_right hend

end

/-- **Earlier anticipation is covered** at an instruction unless every path from the entry has
computed the expression by then. -/
theorem willBeAvailable_covers_iff {draft : Draft} (hdraft : draft.toFunction = .ok f)
    (hedges : f.criticalEdges = []) :
    ∃ ant S first, (anticipated.solve f).result = .ok ant ∧
      (WillBeAvailable.solve ant f).result = .ok S ∧ CoversFrom f ant S first := by
  have hf := Draft.wellFormed_of_toFunction hdraft
  obtain ⟨ant, hant⟩ := exists_anticipated_solve hf hedges
  obtain ⟨S, hsolve, hS⟩ := exists_isComposed hf hant
  obtain ⟨first, b, hb, hfirst⟩ := hf.exists_starts
  refine ⟨ant, S, first, hant, hsolve, ⟨b, hb, hfirst⟩, fun i path hpath e he => ?_,
    fun hnil i path hpath e _ => ?_⟩
  · exact coversAt_iff hf hant (hS.domain_eq ▸ he) hS hpath.mem_right first
  · refine ⟨first, path, hpath, .inr ⟨b, Function.mem_blocks_of_block? hb, ?_, hfirst⟩⟩
    rwa [hf.id_of_block? hb]

theorem willBeAvailable_covers_iff_spin :
    spinDraft.toFunction = .ok spinDraft.assemble ∧ spinDraft.assemble.criticalEdges = [] ∧
      ∃ ant S first, (anticipated.solve spinDraft.assemble).result = .ok ant ∧
        (WillBeAvailable.solve ant spinDraft.assemble).result = .ok S ∧
        CoversFrom spinDraft.assemble ant S first :=
  ⟨spinDraft_accepted, rfl, willBeAvailable_covers_iff spinDraft_accepted rfl⟩

/-- An expression that the entry computes at once, and whose operands never change, is missing at
every return that control can get to. -/
theorem not_coversAt_of_ret (hf : f.WellFormed) (hant : (anticipated.solve f).result = .ok ant)
    (hS : IsComposed f ant S) {b : Block} (hb : b ∈ f.blocks) (hnil : f.sources b.id = [])
    {first ret : Instruction} (hfirst : b.first? = some first) {e : Expression}
    (hcomputed : computedBy? first = some e) (hclear : ∀ k ∈ f.instructions, ¬ e.RedefinedBy k)
    {path : List Instruction} (hpath : f.Path first path ret) {v : Option Value}
    (hret : ret.kind = .ret v) : ¬ CoversAt f ant S first e ret := by
  have he : e ∈ (anticipated.domain f).elements :=
    mem_domain_iff.2 ⟨first, hpath.mem_left, Option.mem_toList.2 hcomputed⟩
  rw [coversAt_iff hf hant he hS hpath.mem_right]
  intro hcovers
  -- every path starts with the computation, and nothing on it touches the operands
  have hpaths : ∀ path, f.Path first path ret → e.ComputedOn path := by
    intro path hpath
    obtain ⟨rest, rfl⟩ := hpath.exists_cons
    exact ⟨[], first, rest, rfl, hcomputed, fun k hk => hclear k (hpath.mem_instructions hk)⟩
  rcases hcovers hpaths with hholds | hkept
  · refine (anticipated_holds_iff hf hant he hpath.mem_right).1 hholds ?_
    exact ⟨[ret], ret, .single hpath.mem_right, by simp [computedBy?, hret], .inr ⟨v, hret⟩⟩
  · exact hkept ⟨first, path, hpath, .inr ⟨b, hb, hnil, hfirst⟩⟩

/-- A sum, and then the return. -/
def sumDraft : Draft where
  name := "sum"
  params := 2
  blockCount := 1
  entries := [
    ⟨0, .binary .add (.param 0) (.param 1), none⟩,
    ⟨0, .ret none, none⟩]

theorem sumDraft_accepted : sumDraft.toFunction = .ok sumDraft.assemble :=
  Draft.toFunction_eq_ok_iff.2 ⟨by decide, rfl⟩

/-- The sum is computed, and so anticipated, in front of the return, and its operands never change;
it does not hold there. -/
theorem willBeAvailable_misses_sum :
    sumDraft.toFunction = .ok sumDraft.assemble ∧ sumDraft.assemble.criticalEdges = [] ∧
      ∃ ant S first i path e, (anticipated.solve sumDraft.assemble).result = .ok ant ∧
        (WillBeAvailable.solve ant sumDraft.assemble).result = .ok S ∧
        sumDraft.assemble.Starts first ∧ sumDraft.assemble.Path first path i ∧
        e ∈ S.domain.elements ∧ ¬ CoversAt sumDraft.assemble ant S first e i := by
  have hf := Draft.wellFormed_of_toFunction sumDraft_accepted
  obtain ⟨ant, hant⟩ := exists_anticipated_solve hf rfl
  obtain ⟨S, hsolve, hS⟩ := exists_isComposed hf hant
  obtain ⟨b, sum, ret, hb, hbody, hsum, hret⟩ : ∃ b sum ret,
      sumDraft.assemble.block? Function.entry = some b ∧ b.body = [] ++ sum :: ret :: [] ∧
        computedBy? sum = some ⟨.add, .param 0, .param 1⟩ ∧ ret.kind = .ret none :=
    ⟨_, _, _, rfl, rfl, rfl, rfl⟩
  have hmem := Function.mem_blocks_of_block? hb
  have hfirst : b.first? = some sum := by rw [Block.first?, hbody]; rfl
  have hstep : sumDraft.assemble.Next sum ret := .inside hmem hbody
  have hpath : sumDraft.assemble.Path sum [sum, ret] ret := .cons hstep (.single hstep.mem_right)
  refine ⟨sumDraft_accepted, rfl, ant, S, sum, ret, _, ⟨.add, .param 0, .param 1⟩, hant, hsolve,
    ⟨b, hb, hfirst⟩, hpath, hS.domain_eq ▸ by decide, ?_⟩
  refine not_coversAt_of_ret hf hant hS hmem ?_ hfirst hsum (by decide) hpath hret
  rw [hf.id_of_block? hb]
  decide

/-! ### Redefinition -/

/-- If `e` is not anticipated behind `i`, then `e` does not hold behind `i`. -/
def DropsAt (f : Function) (ant S : Solution Expression) (e : Expression) (i : Instruction) :
    Prop :=
  ¬ ant.HoldsBefore f i.id e → S.holds i.id e = .ok false

/-- What the composed facts do with expressions behind instructions that redefine their operands. -/
structure DropsRedefined (f : Function) (ant S : Solution Expression) : Prop where
  /-- Behind a redefinition an expression holds iff it is computed there. -/
  holds : ∀ i ∈ f.instructions, ∀ e ∈ S.domain.elements, e.RedefinedBy i →
    ∃ b, S.holds i.id e = .ok b ∧ (b = true ↔ computedBy? i = some e)
  /-- What is anticipated behind an instruction can be asked for. -/
  before : ∀ i ∈ f.instructions, ∃ s, ant.before? f i.id = some s
  /-- So what is not anticipated behind a redefinition is dropped, unless it is computed there. -/
  dropsAt_iff : ∀ i ∈ f.instructions, ∀ e ∈ S.domain.elements, e.RedefinedBy i →
    (DropsAt f ant S e i ↔ (computedBy? i = some e → ant.HoldsBefore f i.id e))

/-- At an instruction that redefines an operand, an expression is anticipated iff it is computed
there, and it survives in no case. -/
theorem holds_iff_of_redefinedBy (hf : f.WellFormed)
    (hant : (anticipated.solve f).result = .ok ant) (hS : IsComposed f ant S) {i : Instruction}
    (hi : i ∈ f.instructions) {e : Expression} (he : e ∈ (anticipated.domain f).elements)
    (hredef : e.RedefinedBy i) :
    ∃ b, S.holds i.id e = .ok b ∧ (b = true ↔ computedBy? i = some e) := by
  obtain ⟨b, c, hb, hc, hiff⟩ := hS.holds_iff hf hant hi he
  have hstep := (anticipated_isMust hf).toIsGenKill.holds_iff hf hant (Mode.must.checksWidth _) hi
    he
  rw [hc, Except.ok.injEq] at hstep
  refine ⟨b, hb, ?_⟩
  -- the redefinition stops what is anticipated behind, and disturbs what comes from in front
  rw [hiff, hstep]
  simp [hredef, disturbedAt_of_redefinedBy hi hredef]

/-- **Behind a redefinition an expression holds iff it is computed there.** -/
theorem willBeAvailable_redefined_iff {draft : Draft} (hdraft : draft.toFunction = .ok f)
    (hedges : f.criticalEdges = []) :
    ∃ ant S, (anticipated.solve f).result = .ok ant ∧
      (WillBeAvailable.solve ant f).result = .ok S ∧ DropsRedefined f ant S := by
  have hf := Draft.wellFormed_of_toFunction hdraft
  obtain ⟨ant, hant⟩ := exists_anticipated_solve hf hedges
  obtain ⟨S, hsolve, hS⟩ := exists_isComposed hf hant
  refine ⟨ant, S, hant, hsolve, fun i hi e he hredef => ?_, fun i hi => ?_,
    fun i hi e he hredef => ?_⟩
  · exact holds_iff_of_redefinedBy hf hant hS hi (hS.domain_eq ▸ he) hredef
  · obtain ⟨s, -, hs, -, -⟩ := before_of_solve hf hant hi
    exact ⟨s, hs⟩
  · obtain ⟨b, hb, hiff⟩ := holds_iff_of_redefinedBy hf hant hS hi (hS.domain_eq ▸ he) hredef
    rw [DropsAt, hb, Except.ok.injEq, ← hiff]
    cases b <;> simp

theorem willBeAvailable_redefined_iff_loop :
    loopDraft.toFunction = .ok loopDraft.assemble ∧ loopDraft.assemble.criticalEdges = [] ∧
      ∃ ant S, (anticipated.solve loopDraft.assemble).result = .ok ant ∧
        (WillBeAvailable.solve ant loopDraft.assemble).result = .ok S ∧
        DropsRedefined loopDraft.assemble ant S :=
  ⟨loopDraft_accepted, rfl, willBeAvailable_redefined_iff loopDraft_accepted rfl⟩

/-- An instruction that overwrites an operand of what it computes keeps the expression, also where
it is skipped from the next instruction on. -/
theorem not_dropsAt_of_skipped (hf : f.WellFormed) (hant : (anticipated.solve f).result = .ok ant)
    (hS : IsComposed f ant S) {b : Block} (hb : b ∈ f.blocks) {pre post : List Instruction}
    {i j : Instruction} (hbody : b.body = pre ++ i :: j :: post) {e : Expression}
    (hcomputed : computedBy? i = some e) (hredef : e.RedefinedBy i) (hj : e.SkippedFrom f j) :
    ¬ DropsAt f ant S e i := by
  have hstep : f.Next i j := .inside hb hbody
  have he : e ∈ (anticipated.domain f).elements :=
    mem_domain_iff.2 ⟨i, hstep.mem_left, Option.mem_toList.2 hcomputed⟩
  -- behind `i` there is what is anticipated in front of `j`
  have hsplit : anticipated.direction.through b = post.reverse ++ j :: i :: pre.reverse :=
    Direction.through_backward.2 (by simpa using hbody)
  have hbefore : ¬ ant.HoldsBefore f i.id e := by
    rw [holdsBefore_iff_of_through hf hant rfl hb hsplit,
      anticipated_holds_iff hf hant he hstep.mem_right]
    exact not_not.2 hj
  obtain ⟨c, hc, hiff⟩ := holds_iff_of_redefinedBy hf hant hS hstep.mem_left he hredef
  intro hdrops
  have hfalse := hdrops hbefore
  rw [hc, hiff.2 hcomputed] at hfalse
  cases hfalse

/-- A slot is added to, and then the function returns. -/
def bumpDraft : Draft where
  name := "bump"
  params := 1
  slots := 1
  blockCount := 1
  entries := [
    ⟨0, .binary .add (.slot 0) (.param 0), some (.slot 0)⟩,
    ⟨0, .ret none, none⟩]

theorem bumpDraft_accepted : bumpDraft.toFunction = .ok bumpDraft.assemble :=
  Draft.toFunction_eq_ok_iff.2 ⟨by decide, rfl⟩

/-- The sum is not computed again behind the instruction that overwrites the slot, and holds
there. -/
theorem willBeAvailable_keeps_sum :
    bumpDraft.toFunction = .ok bumpDraft.assemble ∧ bumpDraft.assemble.criticalEdges = [] ∧
      ∃ ant S i e, (anticipated.solve bumpDraft.assemble).result = .ok ant ∧
        (WillBeAvailable.solve ant bumpDraft.assemble).result = .ok S ∧
        i ∈ bumpDraft.assemble.instructions ∧ e ∈ S.domain.elements ∧ e.RedefinedBy i ∧
        ¬ DropsAt bumpDraft.assemble ant S e i := by
  have hf := Draft.wellFormed_of_toFunction bumpDraft_accepted
  obtain ⟨ant, hant⟩ := exists_anticipated_solve hf rfl
  obtain ⟨S, hsolve, hS⟩ := exists_isComposed hf hant
  obtain ⟨b, bump, ret, hb, hbody, hbump, hredef, hret⟩ : ∃ b bump ret,
      b ∈ bumpDraft.assemble.blocks ∧ b.body = [] ++ bump :: ret :: [] ∧
        computedBy? bump = some ⟨.add, .slot 0, .param 0⟩ ∧
        Expression.RedefinedBy ⟨.add, .slot 0, .param 0⟩ bump ∧ ret.kind = .ret none :=
    ⟨_, _, _, List.mem_cons_self, rfl, rfl, by decide, rfl⟩
  have hstep : bumpDraft.assemble.Next bump ret := .inside hb hbody
  refine ⟨bumpDraft_accepted, rfl, ant, S, bump, ⟨.add, .slot 0, .param 0⟩, hant, hsolve,
    hstep.mem_left, hS.domain_eq ▸ by decide, hredef, ?_⟩
  refine not_dropsAt_of_skipped hf hant hS hb hbody hbump hredef ?_
  exact ⟨[ret], ret, .single hstep.mem_right, by simp [computedBy?, hret], .inr ⟨none, hret⟩⟩

end Analysis

end FactFlow
