import FactFlow.Proofs.Analysis.GenKill
import FactFlow.Proofs.Program.Paths
import FactFlow.Proofs.Solve.Pass

/-!
# What must hold on all paths

A *must* analysis (`Analysis.IsMust`) decides each element by itself, intersects what several edges
bring, and knows nothing where facts enter from outside.  An element is missing from the fact of an
instruction for one reason only: some path leads there on which nothing generates the element, and
which begins where the element is killed or where facts enter from outside (`Analysis.Exposed`).

* `Analysis.IsMust.exposed_of_solve` : a missing element is exposed, by an invariant of every visit.
  Facts start full, so the solver never takes an element out without such a path.
* `Analysis.IsMust.not_test_of_exposed` : an exposed element is missing from every solution of the
  equations, by induction along the path.
* `Analysis.exposed_forward_iff`, `Analysis.exposed_backward_iff` : exposure by steps is exposure by
  a path of control, to the instruction or from it.
-/

namespace FactFlow

namespace Analysis

variable {α : Type}

/-- Some path along which facts flow leads to the instruction, nothing on it generates `e`, and it
begins where `e` is killed or where facts enter from outside. -/
inductive Exposed (dir : Direction) (f : Function) (gen kill : Instruction → α → Prop) (e : α) :
    Instruction → Prop
  | kill {j : Instruction} (hj : j ∈ f.instructions) (hgen : ¬ gen j e) (hkill : kill j e) :
      Exposed dir f gen kill e j
  | start {b : Block} {j : Instruction} (hb : b ∈ f.blocks) (hnil : dir.neighbors f b = [])
      (hj : dir.entrance? b = some j) (hgen : ¬ gen j e) : Exposed dir f gen kill e j
  | step {i j : Instruction} (hfeeds : dir.Feeds f i j) (hi : Exposed dir f gen kill e i)
      (hgen : ¬ gen j e) : Exposed dir f gen kill e j

/-- Exposure goes on along a path on which nothing generates the element. -/
theorem Exposed.along {f : Function} {gen kill : Instruction → α → Prop} {e : α}
    {i j : Instruction} {path : List Instruction} (hi : Exposed .forward f gen kill e i)
    (hpath : f.Path i path j) (hclear : ∀ k ∈ path, ¬ gen k e) :
    Exposed .forward f gen kill e j := by
  induction hpath with
  | single _ => exact hi
  | cons hstep hrest ih =>
    obtain ⟨-, hclear'⟩ := List.forall_mem_cons.1 hclear
    exact ih (.step hstep hi (hclear' _ hrest.left_mem)) hclear'

/-- An analysis of what must hold on all paths. -/
structure IsMust (A : Analysis α) (f : Function) (d : Domain α)
    (gen kill : Instruction → α → Prop) : Prop extends A.IsGenKill f d gen kill where
  /-- What several edges bring is intersected. -/
  meet_eq : A.meet = .intersect
  /-- Edges change nothing. -/
  plain : A.HasPlainEdges f d
  /-- Nothing is known from outside. -/
  boundary_eq : A.boundary d = FactSet.none d.size

variable {A : Analysis α} {f : Function} {d : Domain α} {gen kill : Instruction → α → Prop}

namespace IsMust

variable (hA : A.IsMust f d gen kill)
include hA

theorem isMonotoneIn : A.IsMonotoneIn f d .must :=
  ⟨hA.toIsGenKill.isMonotone hA.plain (by rw [hA.boundary_eq, FactSet.width_none]), hA.meet_eq⟩

/-- An element missing where facts enter a block is missing from the fact of a neighbor's exit,
unless facts enter from outside. -/
theorem enters_missing (hf : f.WellFormed) {facts : Facts} (hfits : facts.Fits f.instCount d.size)
    {b : Block} (hb : b ∈ f.blocks) {s : FactSet} (hs : A.Enters f d facts b s)
    (hne : A.direction.neighbors f b ≠ []) {p : Nat} (hp : p < d.size) (htest : ¬ s.test p = true) :
    ∃ n ∈ A.direction.neighbors f b, ∃ c i u, f.block? n = some c ∧
      A.direction.exit? c = some i ∧ facts[i.id]? = some u ∧ ¬ u.test p = true := by
  rw [hs.test_iff (m := .must) hA.meet_eq hne hp] at htest
  push Not at htest
  obtain ⟨n, hn, hsends⟩ := htest
  obtain ⟨c, i, hc, hi, hmem⟩ := Direction.exists_exit? hf hb hn
  obtain ⟨u, hu, -⟩ := hfits.exists_getElem? (hf.id_lt hmem)
  exact ⟨n, hn, c, i, u, hc, hi, hu, hsends u ⟨c, i, u, hc, hi, hu, hA.plain _ _ _ _⟩⟩

/-- Through a block: where an element is missing in front only if it is exposed there, it is missing
behind only if it is exposed. -/
theorem exposed_of_along (hf : f.WellFormed) {b : Block} (hb : b ∈ f.blocks) {facts : Facts}
    {p : Nat} {e : α} (hp : d.get? p = some e) {pre l : List Instruction}
    (hsplit : A.direction.through b = pre ++ l) {s : FactSet} (hw : s.width = d.size)
    (halong : A.Along f d (· = ·) facts s l)
    (hfront : ¬ s.test p = true → ∀ j, l.head? = some j → ¬ gen j e →
      Exposed A.direction f gen kill e j) :
    ∀ j ∈ l, ∀ u, facts[j.id]? = some u → ¬ u.test p = true →
      Exposed A.direction f gen kill e j := by
  induction l generalizing pre s with
  | nil => exact fun j hj => by cases hj
  | cons i rest ih =>
    obtain ⟨t, u, ht, hu, rfl, hrest⟩ := halong
    have hi : i ∈ f.instructions :=
      Direction.mem_instructions_of_mem_through hb (by rw [hsplit]; simp)
    have hexposed : ¬ t.test p = true → Exposed A.direction f gen kill e i := by
      intro htest
      rw [hA.test_iff hi hw ht hp, not_or, not_and, not_not] at htest
      by_cases hsp : s.test p = true
      · exact .kill hi htest.1 (htest.2 hsp)
      · exact hfront hsp i rfl htest.1
    refine List.forall_mem_cons.2 ⟨fun v hv => ?_, ?_⟩
    · cases hu.symm.trans hv
      exact hexposed
    · have hwt := hA.isMonotoneIn.transfer_width hi hw ht
      have hsplit' : A.direction.through b = (pre ++ [i]) ++ rest := by simp [hsplit]
      refine ih hsplit' hwt hrest fun htest j hj hgen => .step ?_ (hexposed htest) hgen
      obtain ⟨post, rfl⟩ := List.head?_eq_some_iff.1 hj
      exact (Direction.feeds_iff hf).2 ⟨b, hb, .inl ⟨pre, post, hsplit⟩⟩

omit hA in
/-- **What is missing is exposed.** -/
theorem exposed_of_solve [DecidableEq α] (hA : A.IsMust f (A.domain f) gen kill)
    (hf : f.WellFormed) {S : Solution α} (h : (A.solve f).result = .ok S) {p : Nat} {e : α}
    (hp : (A.domain f).get? p = some e) {j : Instruction} (hj : j ∈ f.instructions) {u : FactSet}
    (hu : S.facts[j.id]? = some u) (htest : ¬ u.test p = true) :
    Exposed A.direction f gen kill e j := by
  have hlt := Domain.lt_size_of_get? hp
  refine solve_fact_invariant hf h hA.isMonotoneIn.meet_keepsWidth.unit_width
    (Q := fun j u => ¬ u.test p = true → Exposed A.direction f gen kill e j) ?_ ?_ hj hu htest
  · -- the table starts full
    intro j _ hmissing
    refine absurd ?_ hmissing
    rw [hA.meet_eq]
    simpa [Meet.intersect] using hlt
  · intro facts b s facts' hfits hinv hb hs halong
    refine hA.exposed_of_along hf hb hp (List.nil_append _).symm
      (hA.isMonotoneIn.enters_width hs) halong ?_
    intro hsp k hk hgen
    by_cases hnil : A.direction.neighbors f b = []
    · exact .start hb hnil hk hgen
    · obtain ⟨n, hn, c, i, v, hc, hi, hv, hvp⟩ := hA.enters_missing hf hfits hb hs hnil hlt hsp
      have hfeeds := (Direction.feeds_iff hf).2 ⟨b, hb, .inr ⟨n, hn, c, hc, hi, hk⟩⟩
      exact .step hfeeds (hinv i hfeeds.mem_left v hv hvp) hgen

/-- **What is exposed is missing**, from every solution of the equations. -/
theorem not_test_of_exposed (hf : f.WellFormed) {facts : Facts}
    (hfits : facts.Fits f.instCount d.size) (hfacts : A.Solves f d facts) {p : Nat} {e : α}
    (hp : d.get? p = some e) {j : Instruction} (hj : Exposed A.direction f gen kill e j)
    {u : FactSet} (hu : facts[j.id]? = some u) : ¬ u.test p = true := by
  have hlt := Domain.lt_size_of_get? hp
  have hwidth : ∀ {b s}, A.Enters f d facts b s → s.width = d.size :=
    hA.isMonotoneIn.enters_width
  induction hj generalizing u with
  | kill hj hgen hkill =>
    obtain ⟨s, u', hw, htransfer, hu'⟩ := hfacts.exists_transfer hfits hwidth hj
    cases hu.symm.trans hu'
    rw [hA.test_iff hj hw htransfer hp]
    exact fun h => h.elim hgen fun hs => hs.2 hkill
  | start hb hnil hj hgen =>
    obtain ⟨s, u', hs, htransfer, hu'⟩ := hfacts.transfer_entrance hb hj
    cases hu.symm.trans hu'
    have hmem := Function.mem_instructions_iff.2 ⟨_, hb, Direction.mem_of_entrance? hj⟩
    rw [hA.test_iff hmem (hwidth hs) htransfer hp]
    rw [Enters, if_pos hnil, hA.boundary_eq] at hs
    refine fun h => h.elim hgen fun hsp => ?_
    simp [hs] at hsp
  | step hfeeds _ hgen ih =>
    obtain ⟨b, hb, ⟨pre, post, hsplit⟩ | ⟨n, hn, c, hc, hexit, hentrance⟩⟩ :=
      (Direction.feeds_iff hf).1 hfeeds
    · obtain ⟨s, u', hs, htransfer, hu'⟩ := hfacts.transfer_inside hb hsplit
      cases hu.symm.trans hu'
      rw [hA.test_iff hfeeds.mem_right (hfits.width_eq hs) htransfer hp]
      exact fun h => h.elim hgen fun hsp => ih hs hsp.1
    · obtain ⟨s, u', hs, htransfer, hu'⟩ := hfacts.transfer_entrance hb hentrance
      cases hu.symm.trans hu'
      rw [hA.test_iff hfeeds.mem_right (hwidth hs) htransfer hp]
      refine fun h => h.elim hgen fun hsp => ?_
      -- the neighbor sends its fact as it is, and the meet keeps only what all of them send
      have hall := hs.test_iff (m := .must) hA.meet_eq (List.ne_nil_of_mem hn) hlt
      obtain ⟨v, ⟨c', i, w, hc', hi, hw, hedge⟩, hv⟩ := hall.1 hsp.1 n hn
      cases hc.symm.trans hc'
      cases hexit.symm.trans hi
      cases (hA.plain _ _ _ _).symm.trans hedge
      exact ih hw hv

omit hA in
/-- **A must analysis finds just what holds on all paths.** -/
theorem holds_eq_false_iff [DecidableEq α] (hA : A.IsMust f (A.domain f) gen kill)
    (hf : f.WellFormed) {S : Solution α} (h : (A.solve f).result = .ok S) {e : α}
    (he : e ∈ (A.domain f).elements) {j : Instruction} (hj : j ∈ f.instructions) :
    S.holds j.id e = .ok false ↔ Exposed A.direction f gen kill e j := by
  have hunit := hA.isMonotoneIn.meet_keepsWidth.unit_width
  have hfits := fits_of_solve hf h hunit
  obtain ⟨u, hu, -⟩ := hfits.exists_getElem? (hf.id_lt hj)
  obtain ⟨p, hp⟩ := Domain.exists_get?_of_mem he
  rw [holds_eq_ok_iff_of_solve hf h hunit hp hu, eq_comm, Bool.eq_false_iff]
  exact ⟨hA.exposed_of_solve hf h hp hj hu,
    fun hexp => hA.not_test_of_exposed hf hfits (solves_of_solve hf h) hp hexp hu⟩

end IsMust

/-- What the facts of `S` miss is what is lost: every element holds or does not hold at every
instruction, and it does not iff it is lost there. -/
structure Misses [DecidableEq α] (A : Analysis α) (f : Function) (S : Solution α)
    (lost : α → Instruction → Prop) : Prop where
  /-- The solution speaks about the elements that instructions contribute. -/
  domain_eq : S.domain = A.domain f
  /-- There is an answer for each of them, at each instruction. -/
  holds : ∀ i ∈ f.instructions, ∀ e ∈ S.domain.elements,
    ∃ b, S.holds i.id e = .ok b ∧ (b = false ↔ lost e i)

theorem IsMust.misses [DecidableEq α] (hA : A.IsMust f (A.domain f) gen kill) (hf : f.WellFormed)
    {S : Solution α} (h : (A.solve f).result = .ok S) {lost : α → Instruction → Prop}
    (hlost : ∀ {e i}, lost e i ↔ Exposed A.direction f gen kill e i) : A.Misses f S lost where
  domain_eq := domain_of_solve h
  holds i hi e he := by
    rw [domain_of_solve h] at he
    obtain ⟨b, hb⟩ :=
      exists_holds_of_solve hf h hA.isMonotoneIn.meet_keepsWidth.unit_width i.id e
    refine ⟨b, hb, ?_⟩
    rw [hlost, ← hA.holds_eq_false_iff hf h he hi, hb, Except.ok.injEq]

/-! ### Paths of control -/

/-- Exposure along control is a path of control. -/
theorem exposed_forward_iff {e : α} {j : Instruction} :
    Exposed .forward f gen kill e j ↔ ∃ i path, f.Path i path j ∧ (∀ k ∈ path, ¬ gen k e) ∧
      (kill i e ∨ ∃ b ∈ f.blocks, f.sources b.id = [] ∧ b.first? = some i) := by
  constructor
  · intro h
    induction h with
    | kill hj hgen hkill => exact ⟨_, _, .single hj, by simpa using hgen, .inl hkill⟩
    | start hb hnil hj hgen =>
      have hmem := Function.mem_instructions_iff.2 ⟨_, hb, List.mem_of_mem_head? hj⟩
      exact ⟨_, _, .single hmem, by simpa using hgen, .inr ⟨_, hb, hnil, hj⟩⟩
    | step hfeeds _ hgen ih =>
      obtain ⟨i, path, hpath, hclear, hbegin⟩ := ih
      refine ⟨i, _, hpath.snoc hfeeds, fun k hk => ?_, hbegin⟩
      rcases List.mem_append.1 hk with hk | hk
      · exact hclear k hk
      · rwa [List.mem_singleton.1 hk]
  · rintro ⟨i, path, hpath, hclear, hbegin⟩
    have hi : Exposed .forward f gen kill e i := by
      have hgen := hclear i hpath.left_mem
      rcases hbegin with hkill | ⟨b, hb, hnil, hfirst⟩
      · exact .kill hpath.mem_left hgen hkill
      · exact .start hb hnil hfirst hgen
    exact hi.along hpath hclear

/-- Exposure against control is a path of control, read from its end. -/
theorem exposed_backward_iff {e : α} {i : Instruction} :
    Exposed .backward f gen kill e i ↔ ∃ path j, f.Path i path j ∧ (∀ k ∈ path, ¬ gen k e) ∧
      (kill j e ∨ ∃ b ∈ f.blocks, b.successors = [] ∧ b.last? = some j) := by
  constructor
  · intro h
    induction h with
    | kill hj hgen hkill => exact ⟨_, _, .single hj, by simpa using hgen, .inl hkill⟩
    | start hb hnil hj hgen =>
      have hlast := Direction.entrance?_backward.symm.trans hj
      have hmem := Function.mem_instructions_iff.2 ⟨_, hb, List.mem_of_getLast? hlast⟩
      exact ⟨_, _, .single hmem, by simpa using hgen, .inr ⟨_, hb, hnil, hlast⟩⟩
    | step hfeeds _ hgen ih =>
      obtain ⟨path, j, hpath, hclear, hend⟩ := ih
      exact ⟨_, j, .cons hfeeds hpath, List.forall_mem_cons.2 ⟨hgen, hclear⟩, hend⟩
  · rintro ⟨path, j, hpath, hclear, hend⟩
    induction hpath with
    | single hi =>
      have hgen := hclear _ List.mem_cons_self
      rcases hend with hkill | ⟨b, hb, hnil, hlast⟩
      · exact .kill hi hgen hkill
      · exact .start hb hnil (Direction.entrance?_backward.trans hlast) hgen
    | cons hstep _ ih =>
      obtain ⟨hgen, hclear'⟩ := List.forall_mem_cons.1 hclear
      exact .step hstep (ih hclear' hend) hgen

end Analysis

end FactFlow
