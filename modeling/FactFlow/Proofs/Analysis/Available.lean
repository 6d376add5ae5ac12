import FactFlow.Proofs.Solve.Extremal
import FactFlow.Proofs.Solve.MeetOverPaths

/-!
# Available expressions and paths

An expression is missing from the fact of an instruction iff some path leads there along which it is
never made, beginning at an instruction that redefines one of its operands or at the first
instruction of a block that nothing leads to (`Expression.LostAt`, `available_eq_all_paths`).

Reading a fact as a promise about every run is another matter.  A run begins at the entry, and the
entry counts as a place where nothing is known only if nothing leads to it.  So the facts are sound
for paths from the entry iff they are sound for the shortest one, the first instruction alone
(`available_sound_iff`).  A loop back to the entry breaks this (`available_unsound_loop`).
-/

namespace FactFlow

namespace Expression

/-- Instruction `i` computes `e` and leaves its operands as they were. -/
def MadeBy (e : Expression) (i : Instruction) : Prop := computedBy? i = some e ∧ ¬ e.RedefinedBy i

/-- Some path to `i` never makes `e`, and begins where an operand of `e` is redefined or at the
first instruction of a block that nothing leads to. -/
def LostAt (f : Function) (e : Expression) (i : Instruction) : Prop :=
  ∃ j path, f.Path j path i ∧ (∀ k ∈ path, ¬ e.MadeBy k) ∧
    (e.RedefinedBy j ∨ ∃ b ∈ f.blocks, f.sources b.id = [] ∧ b.first? = some j)

/-- Some instruction of the path computes `e`, and from there to the end no operand of `e` is
redefined. -/
def ComputedOn (e : Expression) (path : List Instruction) : Prop :=
  ∃ pre k post, path = pre ++ k :: post ∧ computedBy? k = some e ∧
    ∀ j ∈ k :: post, ¬ e.RedefinedBy j

theorem ComputedOn.cons {e : Expression} {path : List Instruction} (h : e.ComputedOn path)
    (i : Instruction) : e.ComputedOn (i :: path) := by
  obtain ⟨pre, k, post, rfl, hk, hclear⟩ := h
  exact ⟨i :: pre, k, post, rfl, hk, hclear⟩

theorem computedOn_singleton_iff {e : Expression} {i : Instruction} :
    e.ComputedOn [i] ↔ e.MadeBy i := by
  constructor
  · rintro ⟨pre, k, post, hpath, hk, hclear⟩
    obtain ⟨rfl, rfl, rfl⟩ : pre = [] ∧ k = i ∧ post = [] := by
      cases pre with
      | nil => simpa [eq_comm] using hpath
      | cons j pre => simp at hpath
    exact ⟨hk, hclear k List.mem_cons_self⟩
  · rintro ⟨hk, hclear⟩
    exact ⟨[], i, [], rfl, hk, by simpa using hclear⟩

variable {f : Function} {e : Expression} {i j : Instruction} {path : List Instruction}

theorem lostAt_iff_exposed : e.LostAt f i ↔
    Analysis.Exposed .forward f (fun i e => e.MadeBy i) (fun i e => e.RedefinedBy i) e i := by
  rw [Analysis.exposed_forward_iff]
  rfl

theorem LostAt.along (h : e.LostAt f i) (hpath : f.Path i path j)
    (hclear : ∀ k ∈ path, ¬ e.MadeBy k) : e.LostAt f j :=
  lostAt_iff_exposed.2 ((lostAt_iff_exposed.1 h).along hpath hclear)

/-- On a path that never makes `e` and does not lose it, no operand of `e` is redefined. -/
theorem not_redefinedBy_of_clear (hpath : f.Path i path j) (hclear : ∀ k ∈ path, ¬ e.MadeBy k)
    (hkept : ¬ e.LostAt f j) : ∀ k ∈ path, ¬ e.RedefinedBy k := by
  induction hpath with
  | single hi =>
    intro k hk hredef
    rw [List.mem_singleton.1 hk] at hredef
    exact hkept ⟨_, _, .single hi, hclear, .inl hredef⟩
  | cons hstep hrest ih =>
    refine List.forall_mem_cons.2 ⟨fun hredef => ?_, ih (List.forall_mem_cons.1 hclear).2 hkept⟩
    exact hkept ⟨_, _, .cons hstep hrest, hclear, .inl hredef⟩

/-- Where `e` is not lost, a path computes it for good or never makes it at all. -/
theorem computedOn_or_clear (hpath : f.Path i path j) (hkept : ¬ e.LostAt f j) :
    e.ComputedOn path ∨ ∀ k ∈ path, ¬ e.MadeBy k := by
  induction hpath with
  | @single i hi =>
    by_cases hmade : e.MadeBy i
    · exact .inl (computedOn_singleton_iff.2 hmade)
    · exact .inr (by simpa using hmade)
  | @cons i _ _ path hstep hrest ih =>
    rcases ih hkept with hcomputed | hclear
    · exact .inl (hcomputed.cons i)
    · -- the last place that makes `e` is the one that counts, so look behind it first
      by_cases hmade : e.MadeBy i
      · refine .inl ⟨[], i, path, rfl, hmade.1, List.forall_mem_cons.2 ⟨hmade.2, ?_⟩⟩
        exact not_redefinedBy_of_clear hrest hclear hkept
      · exact .inr (List.forall_mem_cons.2 ⟨hmade, hclear⟩)

end Expression

namespace Analysis

open Expression

variable {f : Function}

theorem available_isMust (hf : f.WellFormed) :
    available.IsMust f (available.domain f) (fun i e => e.MadeBy i)
      (fun i e => e.RedefinedBy i) where
  toIsGenKill := available_isGenKill hf rfl
  meet_eq := rfl
  plain _ _ _ _ := rfl
  boundary_eq := rfl

theorem exists_available_solve (hf : f.WellFormed) :
    ∃ S, (available.solve f).result = .ok S := by
  obtain ⟨S, hS, -⟩ := (available_isMust hf).isMonotoneIn.exists_solve hf rfl
  exact ⟨S, hS⟩

theorem available_holds_eq_false_iff (hf : f.WellFormed) {S : Solution Expression}
    (h : (available.solve f).result = .ok S) {e : Expression}
    (he : e ∈ (available.domain f).elements) {i : Instruction} (hi : i ∈ f.instructions) :
    S.holds i.id e = .ok false ↔ e.LostAt f i :=
  ((available_isMust hf).holds_eq_false_iff hf h he hi).trans lostAt_iff_exposed.symm

/-- **Available expressions are those that no path loses.** -/
theorem available_eq_all_paths {draft : Draft} (hdraft : draft.toFunction = .ok f) :
    ∃ S, (available.solve f).result = .ok S ∧ available.Misses f S fun e i => e.LostAt f i := by
  have hf := Draft.wellFormed_of_toFunction hdraft
  obtain ⟨S, hS⟩ := exists_available_solve hf
  exact ⟨S, hS, (available_isMust hf).misses hf hS lostAt_iff_exposed⟩

theorem available_eq_all_paths_loop :
    loopDraft.toFunction = .ok loopDraft.assemble ∧
      ∃ S, (available.solve loopDraft.assemble).result = .ok S ∧
        available.Misses loopDraft.assemble S fun e i => e.LostAt loopDraft.assemble i :=
  ⟨loopDraft_accepted, available_eq_all_paths loopDraft_accepted⟩

/-! ### From the entry -/

/-- Whatever holds at the end of a path from `first` is computed on that path. -/
def SoundFrom (f : Function) (S : Solution Expression) (first : Instruction) : Prop :=
  ∀ i path e, f.Path first path i → S.holds i.id e = .ok true → e.ComputedOn path

/-- How sound the facts of `S` are for runs from `first`, where the entry begins. -/
structure SoundAtEntry (f : Function) (S : Solution Expression) (first : Instruction) : Prop where
  /-- Runs begin at this instruction. -/
  starts : f.Starts first
  /-- All paths are covered iff the shortest one is: for every expression, the instruction makes it,
  or some path loses it there. -/
  sound_iff : SoundFrom f S first ↔
    ∀ e ∈ (available.domain f).elements, e.MadeBy first ∨ e.LostAt f first
  /-- So it is if nothing leads to the entry. -/
  sound : f.sources Function.entry = [] → SoundFrom f S first

theorem available_not_lostAt (hf : f.WellFormed) {S : Solution Expression}
    (h : (available.solve f).result = .ok S) {e : Expression} {i : Instruction}
    (hi : i ∈ f.instructions) (hholds : S.holds i.id e = .ok true) : ¬ e.LostAt f i := by
  rw [← available_holds_eq_false_iff hf h (mem_domain_of_holds hf h rfl hholds) hi, hholds]
  simp

/-- Facts are sound for all paths from an instruction iff they are for the shortest one. -/
theorem soundFrom_iff (hf : f.WellFormed) {S : Solution Expression}
    (hS : (available.solve f).result = .ok S) {first : Instruction}
    (hfirst : first ∈ f.instructions) :
    SoundFrom f S first ↔
      ∀ e ∈ (available.domain f).elements, e.MadeBy first ∨ e.LostAt f first := by
  constructor
  · -- the first instruction alone is a path
    intro hsound e he
    by_cases hlost : e.LostAt f first
    · exact .inr hlost
    · obtain ⟨c, hc⟩ := exists_holds_of_solve hf hS rfl first.id e
      cases c with
      | false => exact absurd ((available_holds_eq_false_iff hf hS he hfirst).1 hc) hlost
      | true =>
        exact .inl (computedOn_singleton_iff.1 (hsound first [first] e (.single hfirst) hc))
  · -- a path that never makes `e` hands on what is lost at its first instruction
    intro hentry i path e hpath hholds
    have hkept := available_not_lostAt hf hS hpath.mem_right hholds
    rcases computedOn_or_clear hpath hkept with hcomputed | hclear
    · exact hcomputed
    · rcases hentry e (mem_domain_of_holds hf hS rfl hholds) with hmade | hlost
      · exact absurd hmade (hclear first hpath.left_mem)
      · exact absurd (hlost.along hpath hclear) hkept

/-- **Sound from the entry iff sound at its first instruction.** -/
theorem available_sound_iff {draft : Draft} (hdraft : draft.toFunction = .ok f) :
    ∃ S first, (available.solve f).result = .ok S ∧ SoundAtEntry f S first := by
  have hf := Draft.wellFormed_of_toFunction hdraft
  obtain ⟨S, hS⟩ := exists_available_solve hf
  obtain ⟨first, b, hb, hfirst⟩ := hf.exists_starts
  have hblock := Function.mem_blocks_of_block? hb
  have hmem := Function.mem_instructions_iff.2 ⟨b, hblock, List.mem_of_mem_head? hfirst⟩
  have hiff := soundFrom_iff hf hS hmem
  refine ⟨S, first, hS, ⟨b, hb, hfirst⟩, hiff, fun hnil => hiff.2 fun e _ => ?_⟩
  by_cases hmade : e.MadeBy first
  · exact .inl hmade
  · have hsources : f.sources b.id = [] := by rwa [hf.id_of_block? hb]
    exact .inr ⟨first, [first], .single hmem, by simpa using hmade,
      .inr ⟨b, hblock, hsources, hfirst⟩⟩

theorem available_sound_iff_loop :
    loopDraft.toFunction = .ok loopDraft.assemble ∧
      ∃ S first, (available.solve loopDraft.assemble).result = .ok S ∧
        SoundAtEntry loopDraft.assemble S first ∧ SoundFrom loopDraft.assemble S first := by
  obtain ⟨S, first, hS, hentry⟩ := available_sound_iff loopDraft_accepted
  exact ⟨loopDraft_accepted, S, first, hS, hentry, hentry.sound (by decide)⟩

/-- The entry only jumps; the block it jumps to computes a sum and jumps back. -/
def backDraft : Draft where
  name := "back"
  params := 2
  blockCount := 2
  entries := [
    ⟨0, .jump 1, none⟩,
    ⟨1, .binary .add (.param 0) (.param 1), none⟩,
    ⟨1, .jump 0, none⟩]

theorem backDraft_accepted : backDraft.toFunction = .ok backDraft.assemble :=
  Draft.toFunction_eq_ok_iff.2 ⟨by decide, rfl⟩

/-- The sum is reported available at the first instruction of the entry, where nothing has been
computed yet: the boundary value is not used for a block that has neighbors. -/
theorem available_unsound_loop :
    backDraft.toFunction = .ok backDraft.assemble ∧
      ∃ S first, (available.solve backDraft.assemble).result = .ok S ∧
        backDraft.assemble.Starts first ∧ ¬ SoundFrom backDraft.assemble S first := by
  obtain ⟨S, hS, hholds⟩ := Outcome.exists_of_run
    (x := (available.solve backDraft.assemble).result)
    (P := fun S => S.holds 0 ⟨.add, .param 0, .param 1⟩ = .ok true) (by decide +kernel)
  refine ⟨backDraft_accepted, S, ⟨0, 0, .jump 1, none⟩, hS, ⟨_, rfl, rfl⟩, fun hsound => ?_⟩
  have hmem : ⟨0, 0, .jump 1, none⟩ ∈ backDraft.assemble.instructions :=
    Function.mem_instructions_iff.2 ⟨_, List.mem_cons_self, by decide⟩
  have hmade := computedOn_singleton_iff.1 (hsound _ _ _ (.single hmem) hholds)
  cases hmade.1

end Analysis

end FactFlow
