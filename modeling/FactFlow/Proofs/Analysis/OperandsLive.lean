import FactFlow.Proofs.Analysis.Anticipated
import FactFlow.Proofs.Analysis.Liveness

/-!
# Operands of anticipated expressions are live

On a path that returns, an anticipated expression is computed at some point, and until then none of
its operands is redefined.  So the path reads every operand before writing it, and variables among
them are live where the expression is anticipated (`anticipated_operands_live`).  Where no return
can be reached, everything that is not redefined is anticipated and nothing need be read.

The two analyses go through phis in different ways.  Anticipation takes them one by one, like all
other instructions (`ReadAhead`); liveness goes from the end of a block to the point behind the phis
of its successor and writes them at once.  What is live in front of a phi therefore says nothing
about the edges that lead to it, and the induction along the path has to speak of the point behind
the phis (`LiveBehindPhis`).
-/

namespace FactFlow

/-- An instruction has one place in the function. -/
theorem Function.WellFormed.split_unique {f : Function} (hf : f.WellFormed) {b c : Block}
    (hb : b ∈ f.blocks) (hc : c ∈ f.blocks) {pre post pre' post' : List Instruction}
    {i : Instruction} (h : b.body = pre ++ i :: post) (h' : c.body = pre' ++ i :: post') :
    b = c ∧ pre = pre' ∧ post = post' := by
  obtain rfl : b = c := hf.eq_of_mem_body hb hc (i := i) (by simp [h]) (by simp [h']) rfl
  have hnodup : b.body.Nodup := (hf.body_ids_nodup hb).of_map
  rw [h, List.nodup_append, List.nodup_cons] at hnodup
  obtain ⟨-, ⟨hpost, -⟩, hpre⟩ := hnodup
  have hpre : i ∉ pre := fun hi => hpre i hi i List.mem_cons_self rfl
  obtain ⟨rfl, -, rfl⟩ := (List.append_cons_inj_of_notMem hpre hpost).1 (h.symm.trans h')
  exact ⟨rfl, rfl, rfl⟩

namespace Analysis

variable {f : Function} {v : Value}

/-! ### From paths to liveness -/

/-- Some path from here reads `v` at an instruction that is not a phi, and does not define it
before. -/
inductive ReadAhead (f : Function) (v : Value) : Instruction → Prop
  | here {i : Instruction} (hi : i ∈ f.instructions) (hphi : i.kind.isPhi = false)
      (hread : v ∈ i.operands) : ReadAhead f v i
  | later {i j : Instruction} (hstep : f.Next i j) (hdef : ¬ i.result = some v)
      (hj : ReadAhead f v j) : ReadAhead f v i

/-- Of the instructions `l` up to the end of a block, no phi defines `v`, and `v` is live in front
of the first one that is not a phi. -/
structure LiveBehindPhis (f : Function) (v : Value) (l : List Instruction) : Prop where
  /-- No phi defines the variable. -/
  not_defined : ∀ k ∈ l, k.kind.isPhi = true → ¬ k.result = some v
  /-- The variable is live behind the phis. -/
  exists_live : ∃ n, l.find? (!·.kind.isPhi) = some n ∧ Live f v n

theorem Live.liveBehindPhis (hf : f.WellFormed) {i : Instruction} (hlive : Live f v i)
    (hphi : i.kind.isPhi = false) {b : Block} (hb : b ∈ f.blocks) {pre post : List Instruction}
    (hbody : b.body = pre ++ i :: post) : LiveBehindPhis f v (i :: post) where
  not_defined k hk hkphi := by
    have hk : k.kind.isPhi = false := by
      rcases List.mem_cons.1 hk with rfl | hk
      · exact hphi
      · exact hf.isPhi_of_behind hb hbody hphi k hk
    rw [hk] at hkphi
    cases hkphi
  exists_live := ⟨i, by simp [hphi], hlive⟩

theorem LiveBehindPhis.live {i : Instruction} {post : List Instruction}
    (h : LiveBehindPhis f v (i :: post)) (hphi : i.kind.isPhi = false) : Live f v i := by
  obtain ⟨n, hn, hlive⟩ := h.exists_live
  rw [List.find?_cons_of_pos (by simp [hphi])] at hn
  cases hn
  exact hlive

theorem LiveBehindPhis.cons {i : Instruction} {l : List Instruction} (h : LiveBehindPhis f v l)
    (hphi : i.kind.isPhi = true) (hdef : ¬ i.result = some v) : LiveBehindPhis f v (i :: l) where
  not_defined := List.forall_mem_cons.2 ⟨fun _ => hdef, h.not_defined⟩
  exists_live := by
    rw [List.find?_cons_of_neg (by simp [hphi])]
    exact h.exists_live

/-- **A variable that is read ahead is live**, behind the phis that are still to come. -/
theorem ReadAhead.liveBehindPhis (hf : f.WellFormed) {i : Instruction} (h : ReadAhead f v i)
    {b : Block} (hb : b ∈ f.blocks) {pre post : List Instruction}
    (hbody : b.body = pre ++ i :: post) : LiveBehindPhis f v (i :: post) := by
  induction h generalizing b pre post with
  | here hi hphi hread => exact (Live.read hi hphi hread).liveBehindPhis hf hphi hb hbody
  | @later i j hstep hdef _ ih =>
    cases hstep with
    | inside hc hinside =>
      obtain ⟨-, -, rfl⟩ := hf.split_unique hb hc hbody hinside
      have hnext := ih hc (hinside.trans (List.append_cons _ i _))
      cases hphi : i.kind.isPhi with
      | true => exact hnext.cons hphi hdef
      | false =>
        have hlive := hnext.live (hf.isPhi_of_next hc hinside hphi)
        exact (Live.inside hc hinside hphi hdef hlive).liveBehindPhis hf hphi hb hbody
    | @across _ c _ _ j hc hlast ht hd hfirst =>
      -- the successor is entered at its first instruction, so all of its phis are still to come
      obtain ⟨rest, hrest⟩ := List.head?_eq_some_iff.1 hfirst
      have hsplit : c.body = [] ++ j :: rest := hrest
      have hnext := ih (Function.mem_blocks_of_block? hd) hsplit
      rw [← hrest] at hnext
      obtain ⟨n, hn, hlive⟩ := hnext.exists_live
      have hphis : ¬ Liveness.DefinedByPhi c v := fun ⟨k, hk, hkphi, hkdef⟩ =>
        hnext.not_defined k hk hkphi hkdef
      have ht := Block.mem_successors_iff.2 ⟨i, hlast, ht⟩
      exact (Live.across hc hlast hdef ht hd hphis hn hlive).liveBehindPhis hf
        (hf.isPhi_of_last hc hlast) hb hbody

/-- What is live behind the phis is in the fact of each of them. -/
theorem LiveBehindPhis.holds (hf : f.WellFormed) {S : Solution Value}
    (hS : (liveness.solve f).result = .ok S) (hvar : v.isVariable = true) {b : Block}
    (hb : b ∈ f.blocks) {pre post : List Instruction} {i : Instruction}
    (hbody : b.body = pre ++ i :: post) (h : LiveBehindPhis f v (i :: post)) :
    S.holds i.id v = .ok true := by
  cases hphi : i.kind.isPhi with
  | false =>
    have hi : i ∈ f.instructions := Function.mem_instructions_iff.2 ⟨b, hb, by simp [hbody]⟩
    exact (liveness_holds_iff hf hS hi hphi).2 ⟨fun _ => ⟨hvar, h.live hphi⟩, fun _ => rfl⟩
  | true =>
    cases post with
    | nil =>
      -- a phi does not end its block
      have hlast : i.kind.isPhi = false := hf.isPhi_of_last hb (by simp [Block.last?, hbody])
      rw [hlast] at hphi
      cases hphi
    | cons n post =>
      obtain ⟨hdef, hrest⟩ := List.forall_mem_cons.1 h.not_defined
      have hlive := h.exists_live
      rw [List.find?_cons_of_neg (by simp [hphi])] at hlive
      have hn := LiveBehindPhis.holds hf hS hvar hb (hbody.trans (List.append_cons _ i _))
        ⟨hrest, hlive⟩
      exact (liveness_holds_step hf hS hb hbody v).2 (.inr ⟨hdef hphi, hn⟩)

/-! ### From anticipated expressions to paths -/

open Expression

theorem mem_operands_of_uses {i : Instruction} {e : Expression} (hi : computedBy? i = some e)
    (huses : e.uses v = true) : v ∈ i.operands ∧ i.kind.isPhi = false := by
  unfold computedBy? at hi
  unfold Instruction.operands
  split at hi
  · rename_i op lhs rhs hkind
    cases hi
    have hv : lhs = v ∨ rhs = v := by simpa [uses] using huses
    rw [hkind]
    refine ⟨?_, rfl⟩
    rcases hv with rfl | rfl <;> simp [Kind.operands]
  · cases hi

/-- Along a path that returns, the operands of an expression that is not skipped are read ahead. -/
theorem readAhead_of_not_skippedFrom {i j : Instruction} {path : List Instruction}
    {w : Option Value} (hpath : f.Path i path j) (hret : j.kind = .ret w) {e : Expression}
    (hskip : ¬ e.SkippedFrom f i) (huses : e.uses v = true) : ReadAhead f v i := by
  induction hpath with
  | @single i hi =>
    have hnone : ¬ computedBy? i = some e := by simp [computedBy?, hret]
    exact absurd ⟨[i], i, .single hi, by simp [hnone], .inr ⟨w, hret⟩⟩ hskip
  | @cons i j _ _ hstep _ ih =>
    have hi := hstep.mem_left
    by_cases hcomputed : computedBy? i = some e
    · obtain ⟨hread, hphi⟩ := mem_operands_of_uses hcomputed huses
      exact .here hi hphi hread
    · have hdef : ¬ i.result = some v := fun hdef =>
        hskip ⟨[i], i, .single hi, by simp [hcomputed], .inl ⟨v, hdef, huses⟩⟩
      exact .later hstep hdef (ih hret fun hj => hskip (hj.cons hstep hcomputed))

/-- **Anticipated expressions keep their operands live**, in front of every instruction, phis
included, from which the function can return. -/
theorem anticipated_operands_live {draft : Draft} (hdraft : draft.toFunction = .ok f)
    (hedges : f.criticalEdges = []) :
    ∃ ant live, (anticipated.solve f).result = .ok ant ∧ (liveness.solve f).result = .ok live ∧
      ∀ i path j w, f.Path i path j → j.kind = .ret w →
        ∀ e, ant.holds i.id e = .ok true →
          ∀ v, e.uses v = true → v.isVariable = true → live.holds i.id v = .ok true := by
  have hf := Draft.wellFormed_of_toFunction hdraft
  obtain ⟨ant, hant⟩ := exists_anticipated_solve hf hedges
  obtain ⟨live, hlive⟩ := exists_liveness_solve hf
  refine ⟨ant, live, hant, hlive, fun i path j w hpath hret e he v huses hvar => ?_⟩
  have hmem := mem_domain_of_holds hf hant rfl he
  have hskip := (anticipated_holds_iff hf hant hmem hpath.mem_left).1 he
  have hahead := readAhead_of_not_skippedFrom hpath hret hskip huses
  obtain ⟨b, hb, hi⟩ := Function.mem_instructions_iff.1 hpath.mem_left
  obtain ⟨pre, post, hbody⟩ := List.append_of_mem hi
  exact (hahead.liveBehindPhis hf hb hbody).holds hf hlive hvar hb hbody

/-- A phi counts the rounds of a loop, and behind the loop two parameters are multiplied. -/
def countDraft : Draft where
  name := "count"
  params := 2
  blockCount := 4
  entries := [
    ⟨0, .jump 1, none⟩,
    ⟨1, .phi [⟨.param 0, 0⟩, ⟨.result 3, 2⟩], none⟩,
    ⟨1, .branch (.result 1) 2 3, none⟩,
    ⟨2, .binary .add (.result 1) (.const 1), none⟩,
    ⟨2, .jump 1, none⟩,
    ⟨3, .binary .mul (.param 0) (.param 1), none⟩,
    ⟨3, .ret (some (.result 5)), none⟩]

theorem countDraft_accepted : countDraft.toFunction = .ok countDraft.assemble :=
  Draft.toFunction_eq_ok_iff.2 ⟨by decide, rfl⟩

theorem anticipated_operands_live_count :
    countDraft.toFunction = .ok countDraft.assemble ∧ countDraft.assemble.criticalEdges = [] ∧
      ∃ ant live, (anticipated.solve countDraft.assemble).result = .ok ant ∧
        (liveness.solve countDraft.assemble).result = .ok live ∧
        ant.holds 1 ⟨.mul, .param 0, .param 1⟩ = .ok true ∧
        live.holds 1 (.param 0) = .ok true ∧ live.holds 1 (.param 1) = .ok true := by
  obtain ⟨ant, live, hant, hlive, hoperands⟩ := anticipated_operands_live countDraft_accepted rfl
  have hholds : ant.holds 1 ⟨.mul, .param 0, .param 1⟩ = .ok true :=
    Outcome.of_run hant (P := fun ant => ant.holds 1 ⟨.mul, .param 0, .param 1⟩ = .ok true)
      (by decide +kernel)
  -- the way out of the loop: phi, branch, product, return
  obtain ⟨b, c, phi, branch, mul, ret, hb, hc, hbody, hlast, htarget, hafter, hid, hret⟩ :
      ∃ b c phi branch mul ret, b ∈ countDraft.assemble.blocks ∧
        countDraft.assemble.block? 3 = some c ∧ b.body = [] ++ phi :: branch :: [] ∧
        b.last? = some branch ∧ 3 ∈ branch.targets ∧ c.body = [] ++ mul :: ret :: [] ∧
        phi.id = 1 ∧ ret.kind = .ret (some (.result 5)) :=
    ⟨_, _, _, _, _, _, List.mem_cons_of_mem _ List.mem_cons_self, rfl, rfl, rfl, by decide, rfl,
      rfl, rfl⟩
  have hmul : countDraft.assemble.Next mul ret := .inside (Function.mem_blocks_of_block? hc) hafter
  have hpath : countDraft.assemble.Path phi [phi, branch, mul, ret] ret :=
    .cons (.inside hb hbody) (.cons (.across hb hlast htarget hc (by simp [Block.first?, hafter]))
      (.cons hmul (.single hmul.mem_right)))
  have hlives := hoperands phi _ ret _ hpath hret ⟨.mul, .param 0, .param 1⟩ (hid ▸ hholds)
  rw [hid] at hlives
  exact ⟨countDraft_accepted, rfl, ant, live, hant, hlive, hholds, hlives _ (by decide) rfl,
    hlives _ (by decide) rfl⟩

end Analysis

end FactFlow
