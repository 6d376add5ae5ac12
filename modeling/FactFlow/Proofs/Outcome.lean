import Mathlib.Data.List.Forall2

/-!
# Computations that end well

Most operations answer in `Except`.  A sequence of them succeeds iff each one succeeds in turn, and
these equivalences take such a sequence apart; no later proof unfolds the monad.
-/

namespace FactFlow

namespace Outcome

variable {ε δ α β : Type}

theorem pure_eq_ok_iff {a b : α} : (pure a : Except ε α) = .ok b ↔ a = b := by
  change Except.ok a = .ok b ↔ _
  rw [Except.ok.injEq]

/-- An answer that decides `q` says `true` iff `q`. -/
theorem eq_iff_of_decides {c b : Bool} {q : Prop} (h : c = true ↔ q) : c = b ↔ (b = true ↔ q) := by
  rw [← h, Bool.eq_iff_iff]
  exact Iff.comm

theorem ok_bind (a : α) (k : α → Except ε β) : Except.ok a >>= k = k a := rfl

theorem bind_eq_ok_iff {x : Except ε α} {k : α → Except ε β} {b : β} :
    x >>= k = .ok b ↔ ∃ a, x = .ok a ∧ k a = .ok b := by
  cases x with
  | error e => simp [bind, Except.bind]
  | ok a => simp [bind, Except.bind]

theorem bind_eq_error_iff {x : Except ε α} {k : α → Except ε β} {e : ε} :
    x >>= k = .error e ↔ x = .error e ∨ ∃ a, x = .ok a ∧ k a = .error e := by
  cases x with
  | error e' => simp [bind, Except.bind]
  | ok a => simp [bind, Except.bind]

theorem map_eq_ok_iff {g : α → β} {x : Except ε α} {b : β} :
    x.map g = .ok b ↔ ∃ a, x = .ok a ∧ g a = b := by
  cases x <;> simp [Except.map]

theorem map_eq_error_iff {g : α → β} {x : Except ε α} {e : ε} :
    x.map g = .error e ↔ x = .error e := by
  cases x <;> simp [Except.map]

theorem mapError_eq_ok_iff {g : ε → δ} {x : Except ε α} {a : α} :
    x.mapError g = .ok a ↔ x = .ok a := by
  cases x <;> simp [Except.mapError]

theorem mapM_eq_ok_iff {g : α → Except ε β} {xs : List α} {ys : List β} :
    xs.mapM g = .ok ys ↔ List.Forall₂ (fun x y => g x = .ok y) xs ys := by
  induction xs generalizing ys with
  | nil =>
    rw [List.mapM_nil, pure_eq_ok_iff, List.forall₂_nil_left_iff]
    exact eq_comm
  | cons x xs ih =>
    simp only [List.mapM_cons, bind_eq_ok_iff, pure_eq_ok_iff, List.forall₂_cons_left_iff, ih]
    constructor
    · rintro ⟨y, hy, zs, hzs, rfl⟩
      exact ⟨y, zs, hy, hzs, rfl⟩
    · rintro ⟨y, zs, hy, hzs, rfl⟩
      exact ⟨y, hy, zs, hzs, rfl⟩

/-- A sequence fails with the error of the first computation that fails. -/
theorem mapM_eq_error_iff {g : α → Except ε β} {xs : List α} {e : ε} :
    xs.mapM g = .error e ↔ ∃ pre x post, xs = pre ++ x :: post ∧ (∀ y ∈ pre, ∃ b, g y = .ok b) ∧
      g x = .error e := by
  induction xs with
  | nil => simp [pure, Except.pure]
  | cons x xs ih =>
    simp only [List.mapM_cons, bind_eq_error_iff, ih]
    constructor
    · rintro (hx | ⟨b, hb, ⟨pre, y, post, rfl, hpre, hy⟩ | ⟨bs, -, hbs⟩⟩)
      · exact ⟨[], x, xs, rfl, by simp, hx⟩
      · exact ⟨x :: pre, y, post, rfl, List.forall_mem_cons.2 ⟨⟨b, hb⟩, hpre⟩, hy⟩
      · cases hbs
    · rintro ⟨pre, y, post, hxs, hpre, hy⟩
      cases pre with
      | nil =>
        cases hxs
        exact .inl hy
      | cons z pre =>
        cases hxs
        obtain ⟨⟨b, hb⟩, hpre⟩ := List.forall_mem_cons.1 hpre
        exact .inr ⟨b, hb, .inl ⟨pre, y, post, rfl, hpre, hy⟩⟩

/-- What is found by evaluating a computation holds of its answer. -/
theorem of_run {x : Except ε α} {a : α} (h : x = .ok a) {P : α → Prop} [DecidablePred P]
    (hrun : x.toOption.any (fun a => decide (P a)) = true) : P a := by
  rw [h] at hrun
  exact of_decide_eq_true hrun

theorem exists_of_run {x : Except ε α} {P : α → Prop} [DecidablePred P]
    (hrun : x.toOption.any (fun a => decide (P a)) = true) : ∃ a, x = .ok a ∧ P a := by
  cases h : x with
  | error e =>
    rw [h] at hrun
    cases hrun
  | ok a => exact ⟨a, rfl, of_run h hrun⟩

theorem exists_left_of_mem {r : α → β → Prop} {xs : List α} {ys : List β}
    (h : List.Forall₂ r xs ys) {y : β} (hy : y ∈ ys) : ∃ x ∈ xs, r x y := by
  induction h with
  | nil => cases hy
  | cons hxy _ ih =>
    rcases List.mem_cons.1 hy with rfl | hy
    · exact ⟨_, List.mem_cons_self, hxy⟩
    · obtain ⟨x, hx, hr⟩ := ih hy
      exact ⟨x, List.mem_cons_of_mem _ hx, hr⟩

theorem exists_right_of_mem {r : α → β → Prop} {xs : List α} {ys : List β}
    (h : List.Forall₂ r xs ys) {x : α} (hx : x ∈ xs) : ∃ y ∈ ys, r x y :=
  exists_left_of_mem h.flip hx

theorem exists_forall₂ {r : α → β → Prop} {xs : List α} (h : ∀ x ∈ xs, ∃ y, r x y) :
    ∃ ys, List.Forall₂ r xs ys := by
  induction xs with
  | nil => exact ⟨[], .nil⟩
  | cons x xs ih =>
    obtain ⟨⟨y, hy⟩, hxs⟩ := List.forall_mem_cons.1 h
    obtain ⟨ys, hys⟩ := ih hxs
    exact ⟨y :: ys, .cons hy hys⟩

/-- Related lists are related place by place. -/
theorem getElem?_of_forall₂ {r : α → β → Prop} {xs : List α} {ys : List β}
    (h : List.Forall₂ r xs ys) :
    ys.length = xs.length ∧
      ∀ {k : Nat} {x : α}, xs[k]? = some x → ∃ y, ys[k]? = some y ∧ r x y := by
  obtain ⟨hlength, hget⟩ := List.forall₂_iff_get.1 h
  refine ⟨hlength.symm, fun {k x} hx => ?_⟩
  obtain ⟨hk, rfl⟩ := List.getElem?_eq_some_iff.1 hx
  exact ⟨_, List.getElem?_eq_getElem (hlength ▸ hk), hget k hk (hlength ▸ hk)⟩

/-- A computation on each entry of a list and its number: the answers stand in the same places. -/
theorem getElem?_of_mapM_zipIdx {g : α × Nat → Except ε β} {xs : List α} {ys : List β}
    (h : xs.zipIdx.mapM g = .ok ys) :
    ys.length = xs.length ∧
      ∀ {k : Nat} {x : α}, xs[k]? = some x → ∃ y, ys[k]? = some y ∧ g (x, k) = .ok y := by
  obtain ⟨hlength, hget⟩ := getElem?_of_forall₂ (mapM_eq_ok_iff.1 h)
  exact ⟨hlength.trans List.length_zipIdx, fun {k x} hx => hget (by simp [hx])⟩

theorem exists_mapM {g : α → Except ε β} {xs : List α} (h : ∀ x ∈ xs, ∃ y, g x = .ok y) :
    ∃ ys, xs.mapM g = .ok ys := by
  obtain ⟨ys, hys⟩ := exists_forall₂ h
  exact ⟨ys, mapM_eq_ok_iff.2 hys⟩

theorem exists_mapM_zipIdx (g : α × Nat → Except ε β) {xs : List α}
    (h : ∀ k x, xs[k]? = some x → ∃ y, g (x, k) = .ok y) : ∃ ys, xs.zipIdx.mapM g = .ok ys :=
  exists_mapM fun x hx => h x.2 x.1 (List.mem_zipIdx_iff_getElem?.1 hx)

end Outcome

end FactFlow
