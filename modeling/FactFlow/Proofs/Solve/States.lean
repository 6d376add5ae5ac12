import FactFlow.Proofs.Analysis.GenKill
import FactFlow.Proofs.Solve.Pass

/-!
# The states in front of instructions

A solution stores the state behind each instruction and the state where facts enter each block.
The state in front of an instruction is not stored: `Solution.before?` finds it in one of the two
tables.  The tables are written at different moments of a pass, so that they fit together is a
property of the last pass, which changed nothing.

* `Analysis.boundary_of_solve` : the boundary of a block is the state where facts enter it,
  computed from the facts of the same answer.
* `Analysis.before_of_solve` : there is a state in front of every instruction, and the fact of the
  instruction is what the transfer makes of it.
* `Analysis.IsGenKill.holds_iff` : so an element holds at an instruction that generates it, or that
  does not kill it and has it in front.
-/

namespace FactFlow

namespace Solution

variable {α : Type}

/-- Element `e` is in the state in front of instruction `i` of `f`, in the direction of the
solution. -/
def HoldsBefore (S : Solution α) (f : Function) (i : InstId) (e : α) : Prop :=
  ∃ p s, S.domain.get? p = some e ∧ S.before? f i = some s ∧ s.test p = true

/-- The instruction in front of `i` is the last one of those that are visited before it. -/
theorem previous_append {i : Instruction} {pre : List Instruction}
    (hfresh : ∀ k ∈ pre, k.id ≠ i.id) (post : List Instruction) (prev : Option InstId) :
    previous i.id prev (pre ++ i :: post) = some ((pre.getLast?.map (·.id)).or prev) := by
  induction pre generalizing prev with
  | nil => simp [previous]
  | cons k pre ih =>
    obtain ⟨hk, hpre⟩ := List.forall_mem_cons.1 hfresh
    rw [List.cons_append, previous, if_neg hk, ih hpre, List.getLast?_cons]
    cases pre.getLast? <;> simp

theorem before?_of_through {f : Function} (hf : f.WellFormed) (S : Solution α) {b : Block}
    (hb : b ∈ f.blocks) {pre post : List Instruction} {i : Instruction}
    (hsplit : S.direction.through b = pre ++ i :: post) :
    S.before? f i.id = match pre.getLast? with
      | some j => S.fact? j.id
      | none => S.boundary? b.id := by
  have hi : i ∈ b.body := Direction.mem_through_iff.1 (by rw [hsplit]; simp)
  have hinst := hf.instruction?_of_mem (Function.mem_instructions_iff.2 ⟨b, hb, hi⟩)
  have hblock : f.block? i.block = some b := by
    rw [hf.block_of_mem hb hi, hf.block?_of_mem hb]
  -- `previous` looks for a number, and no two instructions of the block share one
  have hfresh : ∀ k ∈ pre, k.id ≠ i.id := by
    have hnodup := Direction.through_ids_nodup hf S.direction hb
    rw [hsplit, List.map_append, List.nodup_append] at hnodup
    exact fun k hk => hnodup.2.2 _ (List.mem_map_of_mem hk) _ List.mem_cons_self
  have hprevious : previous i.id none (S.direction.arrange b.body) =
      some (pre.getLast?.map (·.id)) := by
    rw [show S.direction.arrange b.body = pre ++ i :: post from hsplit, previous_append hfresh,
      Option.or_none]
  simp only [before?, before, hinst, hf.bodyOf_eq hblock, Except.map, hprevious, Except.toOption,
    Option.join_some, Option.bind_eq_bind, Option.bind_some]
  cases pre.getLast? with
  | none => simp [hf.block_of_mem hb hi]
  | some j => simp

end Solution

namespace Analysis

variable {α : Type} {A : Analysis α} {f : Function}

/-! ### Boundaries -/

/-- A pass that changes nothing leaves behind the states where facts enter the blocks, both those it
visits and those recorded before. -/
theorem pass_zero_boundaries {d : Domain α} (hf : f.WellFormed) {order : List Block}
    (horder : ∀ b ∈ order, b ∈ f.blocks) {t t' : Tables} (hsize : t.facts.size = f.instCount)
    (h : A.pass f d (A.boundary d) order t = .ok (t', 0)) {b : Block} (hb : b ∈ f.blocks)
    (hseen : b ∈ order ∨ ∃ s, t.boundaries[b.id]? = some s ∧ A.Enters f d t.facts b s) :
    ∃ s, t'.boundaries[b.id]? = some s ∧ A.Enters f d t.facts b s := by
  -- on the blocks still to be visited; the facts stay as they are, so `Enters` keeps its meaning
  induction order generalizing t with
  | nil =>
    cases h
    exact hseen.resolve_left List.not_mem_nil
  | cons c rest ih =>
    obtain ⟨hc, hrest⟩ := List.forall_mem_cons.1 horder
    obtain ⟨t₁, k₁, k₂, hvisit, hpass, hk⟩ := pass_cons_eq_ok_iff.1 h
    obtain ⟨rfl, rfl⟩ : k₁ = 0 ∧ k₂ = 0 := by omega
    obtain ⟨_, -, hflowed⟩ := visit_spec hf hsize hc hvisit
    obtain ⟨s, hs, hlt, -, hset⟩ := (visit_eq_ok_iff hf hc).1 hvisit
    have hs := (blockInput_eq_ok_iff hf hsize hc).1 hs
    have hfacts := hflowed.eq_of_zero rfl
    rw [← hfacts]
    refine ih hrest (hfacts ▸ hsize) hpass ?_
    rw [hfacts, hset]
    by_cases hbc : c.id = b.id
    · -- blocks are known by their number, so this visit is the one that records the block
      obtain rfl : c = b := Option.some.inj
        ((hf.block?_of_mem hc).symm.trans (hbc ▸ hf.block?_of_mem hb))
      exact .inr ⟨s, by simp [hlt], hs⟩
    · rw [Array.getElem?_setIfInBounds_ne hbc]
      refine hseen.imp_left fun hmem => (List.mem_cons.1 hmem).resolve_left ?_
      rintro rfl
      exact hbc rfl

section

variable [DecidableEq α] {S : Solution α}

/-- **The boundary of a block** is the state where facts enter it, computed from the facts of the
same answer. -/
theorem boundary_of_solve (hf : f.WellFormed) (h : (A.solve f).result = .ok S) {b : Block}
    (hb : b ∈ f.blocks) :
    ∃ s, S.boundary? b.id = some s ∧ A.Enters f (A.domain f) S.facts b s := by
  obtain ⟨t, hsize, hpass⟩ := last_pass_of_solve hf h
  have horder : ∀ b ∈ A.direction.schedule f, b ∈ f.blocks := fun b hb =>
    Direction.mem_schedule_iff.1 hb
  have hfacts : S.facts = t.facts := (pass_zero hf horder hsize hpass).1
  rw [hfacts]
  exact pass_zero_boundaries hf horder hsize hpass hb (.inl (Direction.mem_schedule_iff.2 hb))

theorem boundaries_size_of_solve (h : (A.solve f).result = .ok S) :
    S.boundaries.size = f.blockCount := by
  obtain ⟨-, -, t, passes, hsettle, rfl⟩ := solve_eq_ok_iff.1 h
  exact (boundaries_size_of_settle hsettle).trans (by simp [start])

theorem boundary_width_of_solve (hf : f.WellFormed) (h : (A.solve f).result = .ok S)
    (hm : A.meet.ChecksWidth (A.domain f).size) {k : BlockId} {s : FactSet}
    (hs : S.boundaries[k]? = some s) : s.width = (A.domain f).size := by
  have hlt : k < f.blockCount :=
    boundaries_size_of_solve h ▸ (Array.getElem?_eq_some_iff.1 hs).1
  have hk : f.block? k = some _ := List.getElem?_eq_getElem hlt
  obtain ⟨s', hs', henters⟩ := boundary_of_solve hf h (Function.mem_blocks_of_block? hk)
  rw [hf.id_of_block? hk] at hs'
  cases hs.symm.trans hs'
  exact henters.width_eq hm (solve_eq_ok_iff.1 h).2.1

/-! ### In front of an instruction -/

theorem direction_of_solve (h : (A.solve f).result = .ok S) : S.direction = A.direction := by
  obtain ⟨-, -, t, passes, -, rfl⟩ := solve_eq_ok_iff.1 h
  rfl

/-- **There is a state in front of every instruction**, and the fact of the instruction is what the
transfer makes of it. -/
theorem before_of_solve (hf : f.WellFormed) (h : (A.solve f).result = .ok S) {i : Instruction}
    (hi : i ∈ f.instructions) :
    ∃ s u, S.before? f i.id = some s ∧ A.transfer f i (A.domain f) s = .ok u ∧
      S.facts[i.id]? = some u := by
  obtain ⟨b, hb, hib⟩ := Function.mem_instructions_iff.1 hi
  obtain ⟨pre, post, hsplit⟩ :=
    List.append_of_mem ((Direction.mem_through_iff (b := b)).2 hib : i ∈ A.direction.through b)
  obtain ⟨s, hs, henters⟩ := boundary_of_solve hf h hb
  obtain ⟨r, hr, halong⟩ := solves_of_solve hf h b hb
  rw [hsplit] at halong
  obtain ⟨s', u, hu, hfact, hfront⟩ := halong.exists_front
  refine ⟨s', u, ?_, hu, hfact⟩
  rw [Solution.before?_of_through hf S hb (by rw [direction_of_solve h, hsplit])]
  cases hlast : pre.getLast? with
  | none =>
    rw [hlast] at hfront
    -- the state that the equations start from is the one that was recorded
    rw [hfront, hr.unique hf (facts_size_of_solve hf h) hb henters]
    exact hs
  | some j =>
    rw [hlast] at hfront
    exact hfront

theorem before_width_of_solve (hf : f.WellFormed) (h : (A.solve f).result = .ok S)
    (hm : A.meet.ChecksWidth (A.domain f).size) {i : Instruction} (hi : i ∈ f.instructions)
    {s : FactSet} (hs : S.before? f i.id = some s) : s.width = (A.domain f).size := by
  obtain ⟨b, hb, hib⟩ := Function.mem_instructions_iff.1 hi
  obtain ⟨pre, post, hsplit⟩ :=
    List.append_of_mem ((Direction.mem_through_iff (b := b)).2 hib : i ∈ S.direction.through b)
  rw [Solution.before?_of_through hf S hb hsplit] at hs
  split at hs
  · exact (fits_of_solve hf h hm.unit_width).width_eq hs
  · exact boundary_width_of_solve hf h hm hs

/-- Within a block, the state in front of an instruction is the fact of the one visited before. -/
theorem holdsBefore_iff_of_through (hf : f.WellFormed) (h : (A.solve f).result = .ok S)
    (hunit : (A.meet.unit (A.domain f).size).width = (A.domain f).size) {b : Block}
    (hb : b ∈ f.blocks) {pre post : List Instruction} {i j : Instruction}
    (hsplit : A.direction.through b = pre ++ j :: i :: post) {e : α} :
    S.HoldsBefore f i.id e ↔ S.holds j.id e = .ok true := by
  have hsplit' : S.direction.through b = (pre ++ [j]) ++ i :: post := by
    simp [direction_of_solve h, hsplit]
  have hbefore := Solution.before?_of_through hf S hb hsplit'
  rw [List.getLast?_concat] at hbefore
  rw [holds_iff_of_solve hf h hunit, Solution.HoldsBefore, domain_of_solve h, hbefore]
  simp [Solution.fact?]

/-- **One step of a gen-kill analysis**: an element holds at an instruction that generates it, or
that does not kill it and has it in front. -/
theorem IsGenKill.holds_iff {gen kill : Instruction → α → Prop}
    (hgk : A.IsGenKill f (A.domain f) gen kill) (hf : f.WellFormed)
    (h : (A.solve f).result = .ok S) (hm : A.meet.ChecksWidth (A.domain f).size)
    {i : Instruction} (hi : i ∈ f.instructions) {e : α} (he : e ∈ (A.domain f).elements) :
    S.holds i.id e = .ok true ↔ gen i e ∨ S.HoldsBefore f i.id e ∧ ¬ kill i e := by
  obtain ⟨s, u, hs, htransfer, hu⟩ := before_of_solve hf h hi
  obtain ⟨p, hp⟩ := Domain.exists_get?_of_mem he
  have hbefore : S.HoldsBefore f i.id e ↔ s.test p = true := by
    constructor
    · rintro ⟨k, s', hk, hs', htest⟩
      rw [domain_of_solve h] at hk
      cases hs.symm.trans hs'
      rwa [Domain.get?_inj hp hk]
    · exact fun htest => ⟨p, s, by rwa [domain_of_solve h], hs, htest⟩
  rw [holds_eq_ok_iff_of_solve hf h hm.unit_width hp hu, eq_comm, hbefore]
  exact hgk.test_iff hi (before_width_of_solve hf h hm hi hs) htransfer hp

end

end Analysis

end FactFlow
