import FactFlow.Direction
import FactFlow.Proofs.Program.WellFormed

/-!
# Paths through a function

Control goes from one instruction to the next of its block, and from the end of a block to the
start of each of its targets (`Function.Next`).  Facts flow along these steps in the direction of
an analysis (`Direction.Feeds`).

* `Function.Path` : a finite path, given by the instructions on it.
* `Direction.feeds_iff` : the steps as the solver takes them, within a block in visiting order and
  from the exit of a neighbor to the entrance of a block.
-/

namespace FactFlow

namespace Function

/-- Control may go from instruction `i` directly to instruction `j`. -/
inductive Next (f : Function) : Instruction → Instruction → Prop
  /-- To the next instruction of the block. -/
  | inside {b : Block} {pre post : List Instruction} {i j : Instruction} (hb : b ∈ f.blocks)
      (hbody : b.body = pre ++ i :: j :: post) : Next f i j
  /-- From the end of a block to the first instruction of a target. -/
  | across {b c : Block} {t : BlockId} {i j : Instruction} (hb : b ∈ f.blocks)
      (hlast : b.last? = some i) (ht : t ∈ i.targets) (hc : f.block? t = some c)
      (hfirst : c.first? = some j) : Next f i j

/-- The instructions of the list, in order, lead from `i` to `j`. -/
inductive Path (f : Function) : Instruction → List Instruction → Instruction → Prop
  | single {i : Instruction} (hi : i ∈ f.instructions) : Path f i [i] i
  | cons {i j k : Instruction} {path : List Instruction} (hstep : f.Next i j)
      (hpath : Path f j path k) : Path f i (i :: path) k

variable {f : Function} {i j k : Instruction} {path : List Instruction}

theorem Next.mem_left (h : f.Next i j) : i ∈ f.instructions := by
  cases h with
  | inside hb hbody => exact mem_instructions_iff.2 ⟨_, hb, by simp [hbody]⟩
  | across hb hlast _ _ _ => exact mem_instructions_iff.2 ⟨_, hb, List.mem_of_getLast? hlast⟩

theorem Next.mem_right (h : f.Next i j) : j ∈ f.instructions := by
  cases h with
  | inside hb hbody => exact mem_instructions_iff.2 ⟨_, hb, by simp [hbody]⟩
  | across _ _ _ hc hfirst =>
    exact mem_instructions_iff.2 ⟨_, mem_blocks_of_block? hc, List.mem_of_mem_head? hfirst⟩

theorem Path.mem_right (h : f.Path i path j) : j ∈ f.instructions := by
  induction h with
  | single hi => exact hi
  | cons _ _ ih => exact ih

theorem Path.mem_left (h : f.Path i path j) : i ∈ f.instructions := by
  cases h with
  | single hi => exact hi
  | cons hstep _ => exact hstep.mem_left

theorem Path.left_mem (h : f.Path i path j) : i ∈ path := by
  cases h with
  | single _ => exact List.mem_cons_self
  | cons _ _ => exact List.mem_cons_self

theorem Path.exists_cons (h : f.Path i path j) : ∃ rest, path = i :: rest := by
  cases h with
  | single _ => exact ⟨[], rfl⟩
  | cons _ _ => exact ⟨_, rfl⟩

theorem Path.mem_instructions (h : f.Path i path j) (hk : k ∈ path) : k ∈ f.instructions := by
  induction h with
  | single hi => rwa [List.mem_singleton.1 hk]
  | cons hstep _ ih =>
    rcases List.mem_cons.1 hk with rfl | hk
    · exact hstep.mem_left
    · exact ih hk

theorem Path.snoc (h : f.Path i path j) (hstep : f.Next j k) : f.Path i (path ++ [k]) k := by
  induction h with
  | single _ => exact .cons hstep (.single hstep.mem_right)
  | cons hfirst _ ih => exact .cons hfirst (ih hstep)

/-- The rest of a path, from any instruction on it. -/
theorem Path.suffix (h : f.Path i path j) {pre post : List Instruction}
    (hpath : path = pre ++ k :: post) : f.Path k (k :: post) j := by
  induction h generalizing pre with
  | single hi =>
    cases pre with
    | nil =>
      cases hpath
      exact .single hi
    | cons _ pre => simp at hpath
  | cons hstep hrest ih =>
    cases pre with
    | nil =>
      cases hpath
      exact .cons hstep hrest
    | cons _ pre => exact ih (List.cons.inj hpath).2

end Function

namespace Direction

/-- The fact of `i` flows directly into `j`. -/
def Feeds (dir : Direction) (f : Function) (i j : Instruction) : Prop :=
  match dir with
  | .forward => f.Next i j
  | .backward => f.Next j i

variable {f : Function}

theorem Feeds.mem_left {dir : Direction} {i j : Instruction} (h : dir.Feeds f i j) :
    i ∈ f.instructions := by
  cases dir with
  | forward => exact Function.Next.mem_left h
  | backward => exact Function.Next.mem_right h

theorem Feeds.mem_right {dir : Direction} {i j : Instruction} (h : dir.Feeds f i j) :
    j ∈ f.instructions := by
  cases dir with
  | forward => exact Function.Next.mem_right h
  | backward => exact Function.Next.mem_left h

theorem exit?_backward {b : Block} : backward.exit? b = b.first? := by
  simp [exit?, through, arrange, Block.first?]

theorem entrance?_backward {b : Block} : backward.entrance? b = b.last? := by
  simp [entrance?, through, arrange, Block.last?]

theorem through_backward {b : Block} {pre post : List Instruction} {i j : Instruction} :
    backward.through b = pre ++ i :: j :: post ↔
      b.body = post.reverse ++ j :: i :: pre.reverse := by
  rw [← List.reverse_inj]
  simp [through, arrange]

/-- **Facts flow** from an instruction to the one visited after it in the block, and from the exit
of a neighbor to the entrance of the block. -/
theorem feeds_iff (hf : f.WellFormed) {dir : Direction} {i j : Instruction} :
    dir.Feeds f i j ↔ ∃ b ∈ f.blocks,
      (∃ pre post, dir.through b = pre ++ i :: j :: post) ∨
        ∃ n ∈ dir.neighbors f b, ∃ c, f.block? n = some c ∧ dir.exit? c = some i ∧
          dir.entrance? b = some j := by
  cases dir with
  | forward =>
    constructor
    · rintro (⟨hb, hbody⟩ | ⟨hb, hlast, ht, hc, hfirst⟩)
      · exact ⟨_, hb, .inl ⟨_, _, hbody⟩⟩
      · refine ⟨_, Function.mem_blocks_of_block? hc, .inr ⟨_, ?_, _, hf.block?_of_mem hb, hlast,
          hfirst⟩⟩
        rw [neighbors, hf.id_of_block? hc]
        exact Function.mem_sources_iff.2 ⟨_, hb, rfl, Block.mem_successors_iff.2 ⟨_, hlast, ht⟩⟩
    · rintro ⟨b, hb, ⟨pre, post, hbody⟩ | ⟨n, hn, c, hc, hexit, hentrance⟩⟩
      · exact .inside hb hbody
      · obtain ⟨c', hc', rfl, hsucc⟩ := Function.mem_sources_iff.1 hn
        cases hc.symm.trans (hf.block?_of_mem hc')
        rw [Block.successors_of_last? hexit] at hsucc
        exact .across hc' hexit hsucc (hf.block?_of_mem hb) hentrance
  | backward =>
    constructor
    · rintro (@⟨b, pre, post, _, _, hb, hbody⟩ | ⟨hb, hlast, ht, hc, hfirst⟩)
      · exact ⟨b, hb, .inl ⟨post.reverse, pre.reverse, through_backward.2 (by simp [hbody])⟩⟩
      · refine ⟨_, hb, .inr ⟨_, Block.mem_successors_iff.2 ⟨_, hlast, ht⟩, _, hc, ?_, ?_⟩⟩
        · exact exit?_backward.trans hfirst
        · exact entrance?_backward.trans hlast
    · rintro ⟨b, hb, ⟨pre, post, hbody⟩ | ⟨n, hn, c, hc, hexit, hentrance⟩⟩
      · exact .inside hb (through_backward.1 hbody)
      · have hlast := entrance?_backward.symm.trans hentrance
        rw [neighbors, Block.successors_of_last? hlast] at hn
        exact .across hb hlast hn hc (exit?_backward.symm.trans hexit)

end Direction

end FactFlow
