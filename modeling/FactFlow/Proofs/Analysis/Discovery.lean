import FactFlow.Proofs.Analysis.Composition

/-!
# Discovery

Elements enter a domain one after another; one that is there already keeps its number.  A `Domain`
finds an element by going through its list.  A `Ledger` keeps an index beside the list, and each of
the two is only right as long as they are inverse to each other (`Ledger.Records`).  An insertion
keeps them so (`Ledger.Records.insert`), and with them the numbers that earlier insertions were
answered with (`Domain.enterAll_insert`).

Instructions contribute in program order, so the domain of an analysis lists first occurrences
block by block.  The analyses of expressions contribute alike: their domains are the same, and
position `k` of a fact means the same expression to all of them (`Analysis.discovery_exact`).
-/

namespace FactFlow

/-! ### Insertions one after another -/

/-- Insert elements one after another; the answers are their numbers. -/
def enterAll {δ α : Type} (insert : δ → α → Except Fault (δ × Nat)) :
    δ → List α → Except Fault (δ × List Nat)
  | d, [] => .ok (d, [])
  | d, e :: rest => do
    let (d, k) ← insert d e
    let (d, ks) ← enterAll insert d rest
    return (d, k :: ks)

/-- Elements in order of discovery and, apart from them, an index of their numbers. -/
structure Ledger (α : Type) [BEq α] [Hashable α] where
  /-- The elements; element `k` is entry `k`. -/
  elements : Array α
  /-- The numbers of the elements. -/
  index : Std.HashMap α Nat
  /-- Whether discovery has ended. -/
  frozen : Bool

namespace Ledger

variable {α : Type} [BEq α] [Hashable α]

/-- An open ledger without elements. -/
def empty : Ledger α := ⟨#[], ∅, false⟩

/-- Enter an element, unless the index knows it; the answer has its number. -/
def insert (L : Ledger α) (e : α) : Except Fault (Ledger α × Nat) :=
  if L.frozen then .error .frozenDomain
  else
    match L.index[e]? with
    | some k => .ok (L, k)
    | none =>
      let k := L.elements.size
      .ok ({ L with elements := L.elements.push e, index := L.index.insert e k }, k)

/-- End discovery. -/
def freeze (L : Ledger α) : Ledger α := { L with frozen := true }

/-- The number of an element in a frozen ledger. -/
def indexOf (L : Ledger α) (e : α) : Except Fault (Option Nat) :=
  if L.frozen then .ok L.index[e]? else .error .openDomain

end Ledger

variable {α : Type} [DecidableEq α]

namespace Domain

variable {d : Domain α} {e : α}

theorem add_of_mem (h : e ∈ d.elements) : d.add e = d := dif_pos h

theorem elements_add_of_not_mem (h : e ∉ d.elements) : (d.add e).elements = d.elements ++ [e] := by
  rw [add, dif_neg h]

/-- Numbers do not change when an element is added. -/
theorem get?_add {k : Nat} {x : α} (h : d.get? k = some x) : (d.add e).get? k = some x := by
  by_cases he : e ∈ d.elements
  · rwa [add_of_mem he]
  · rw [get?, elements_add_of_not_mem he, List.getElem?_append_left (lt_size_of_get? h)]
    exact h

/-- The number that an insertion answers with is that of the element. -/
theorem get?_add_idxOf : (d.add e).get? (d.elements.idxOf e) = some e := by
  by_cases he : e ∈ d.elements
  · rw [add_of_mem he]
    exact List.getElem?_idxOf he
  · rw [get?, elements_add_of_not_mem he, List.idxOf_eq_length he]
    exact List.getElem?_concat_length

theorem get?_add_iff_of_ne {k : Nat} {x : α} (hx : x ≠ e) :
    (d.add e).get? k = some x ↔ d.get? k = some x := by
  refine ⟨fun h => ?_, get?_add⟩
  have hmem : x ∈ d.elements := (mem_add_iff.1 (mem_of_get? h)).resolve_right hx
  obtain ⟨j, hj⟩ := exists_get?_of_mem hmem
  rwa [get?_inj h (get?_add hj)]

theorem get?_foldl_add {es : List α} {k : Nat} {x : α} (h : d.get? k = some x) :
    (es.foldl add d).get? k = some x := by
  induction es generalizing d with
  | nil => exact h
  | cons e rest ih => exact ih (get?_add h)

theorem insert_of_open (hd : d.frozen = false) :
    d.insert e = .ok (d.add e, d.elements.idxOf e) := by
  rw [insert, hd]
  rfl

/-- Every number that an insertion answered with still names the element at the end. -/
theorem enterAll_insert (hd : d.frozen = false) (es : List α) :
    ∃ ks, enterAll insert d es = .ok (es.foldl add d, ks) ∧
      List.Forall₂ (fun e k => (es.foldl add d).get? k = some e) es ks := by
  induction es generalizing d with
  | nil => exact ⟨[], rfl, .nil⟩
  | cons e rest ih =>
    obtain ⟨ks, hks, hnumbers⟩ := ih ((d.frozen_add e).trans hd)
    have hnumber : (rest.foldl add (d.add e)).get? (d.elements.idxOf e) = some e :=
      get?_foldl_add get?_add_idxOf
    refine ⟨d.elements.idxOf e :: ks, ?_, .cons hnumber hnumbers⟩
    rw [enterAll, insert_of_open hd, Outcome.ok_bind]
    exact Outcome.bind_eq_ok_iff.2 ⟨_, hks, rfl⟩

theorem agrees_iff_indexOf {d' : Domain α} (hd : d.frozen = true) (hd' : d'.frozen = true) :
    d.agrees d' = true ↔ ∀ e, d.indexOf e = d'.indexOf e := by
  rw [agrees, beq_iff_eq]
  constructor
  · intro h e
    rw [indexOf, indexOf, if_pos hd, if_pos hd', h]
  · intro h
    apply List.ext_getElem?
    intro k
    apply Option.ext
    intro e
    change d.get? k = some e ↔ d'.get? k = some e
    rw [← indexOf_eq_some_iff hd, ← indexOf_eq_some_iff hd', h]

end Domain

namespace Ledger

variable [Hashable α]

/-- A ledger has the elements of a domain, and its index is inverse to them. -/
structure Records (L : Ledger α) (d : Domain α) : Prop where
  /-- The elements are the same. -/
  elements_eq : L.elements.toList = d.elements
  /-- Discovery has ended for both or for none. -/
  frozen_eq : L.frozen = d.frozen
  /-- The index has the number of each element, and no other numbers. -/
  index_iff : ∀ e k, L.index[e]? = some k ↔ d.get? k = some e

variable {L : Ledger α} {d : Domain α}

theorem records_empty : (empty : Ledger α).Records .empty where
  elements_eq := rfl
  frozen_eq := rfl
  index_iff e k := by simp [empty, Domain.empty, Domain.get?]

theorem Records.index_add (h : L.Records d) {e : α} (he : e ∉ d.elements) (x : α) (k : Nat) :
    (L.index.insert e d.size)[x]? = some k ↔ (d.add e).get? k = some x := by
  have hnew : (d.add e).get? d.size = some e := by
    have hnumber := d.get?_add_idxOf (e := e)
    rwa [List.idxOf_eq_length he] at hnumber
  rw [Std.HashMap.getElem?_insert]
  by_cases hx : e = x
  · subst hx
    rw [if_pos (beq_self_eq_true e), Option.some.injEq]
    exact ⟨fun hk => hk ▸ hnew, fun hk => Domain.get?_inj hnew hk⟩
  · rw [if_neg (by simpa using hx), h.index_iff, Domain.get?_add_iff_of_ne (Ne.symm hx)]

/-- What one insertion does to a domain, it does to a ledger that records it. -/
theorem Records.insert (h : L.Records d) (hd : d.frozen = false) (e : α) :
    ∃ L', L.insert e = .ok (L', d.elements.idxOf e) ∧ L'.Records (d.add e) := by
  have hopen : ¬ L.frozen = true := by rw [h.frozen_eq, hd]; decide
  rw [Ledger.insert, if_neg hopen]
  cases hindex : L.index[e]? with
  | some k =>
    have hk : d.get? k = some e := (h.index_iff e k).1 hindex
    have he : e ∈ d.elements := Domain.mem_of_get? hk
    have hnumber := d.get?_add_idxOf (e := e)
    rw [Domain.add_of_mem he] at hnumber ⊢
    exact ⟨L, by rw [Domain.get?_inj hk hnumber], h⟩
  | none =>
    have he : e ∉ d.elements := by
      intro he
      obtain ⟨k, hk⟩ := Domain.exists_get?_of_mem he
      rw [(h.index_iff e k).2 hk] at hindex
      cases hindex
    have hsize : L.elements.size = d.size := by rw [← Array.length_toList, h.elements_eq]; rfl
    refine ⟨_, by rw [List.idxOf_eq_length he, hsize]; rfl, ?_, ?_, ?_⟩
    · rw [Array.toList_push, h.elements_eq, Domain.elements_add_of_not_mem he]
    · exact h.frozen_eq.trans (d.frozen_add e).symm
    · exact h.index_add he

/-- What insertions do to a domain, they do to a ledger that records it. -/
theorem Records.enterAll (h : L.Records d) (hd : d.frozen = false) {es : List α} {d' : Domain α}
    {ks : List Nat} (hes : FactFlow.enterAll Domain.insert d es = .ok (d', ks)) :
    ∃ L', FactFlow.enterAll Ledger.insert L es = .ok (L', ks) ∧ L'.Records d' := by
  induction es generalizing L d ks with
  | nil =>
    cases hes
    exact ⟨L, rfl, h⟩
  | cons e rest ih =>
    rw [FactFlow.enterAll, Domain.insert_of_open hd, Outcome.ok_bind] at hes
    obtain ⟨⟨d', ks'⟩, hrest, heq⟩ := Outcome.bind_eq_ok_iff.1 hes
    cases heq
    obtain ⟨L₁, hL₁, h₁⟩ := h.insert hd e
    obtain ⟨L', hL', h'⟩ := ih h₁ ((d.frozen_add e).trans hd) hrest
    refine ⟨L', ?_, h'⟩
    rw [FactFlow.enterAll, hL₁, Outcome.ok_bind]
    exact Outcome.bind_eq_ok_iff.2 ⟨_, hL', rfl⟩

theorem Records.freeze (h : L.Records d) : L.freeze.Records d.freeze :=
  ⟨h.elements_eq, rfl, h.index_iff⟩

theorem Records.indexOf_eq (h : L.Records d) (e : α) : L.indexOf e = d.indexOf e := by
  rw [Ledger.indexOf, h.frozen_eq]
  split
  · rename_i hd
    rcases Domain.indexOf_cases hd e with ⟨k, hk, hget⟩ | ⟨hk, he⟩
    · rw [hk, (h.index_iff e k).2 hget]
    · rw [hk]
      cases hindex : L.index[e]? with
      | none => rfl
      | some k => exact absurd (Domain.mem_of_get? ((h.index_iff e k).1 hindex)) he
  · rename_i hd
    exact (if_neg hd).symm

end Ledger

/-! ### What is discovered -/

namespace Domain

/-- Domain `d` is what comes of inserting `es` one after another, with the numbers `ks` as answers,
and then ending discovery. -/
structure IsDiscovered (es : List α) (d : Domain α) (ks : List Nat) : Prop where
  /-- The elements are inserted into an open domain. -/
  entered : (enterAll insert empty es).map (fun x => (x.1.freeze, x.2)) = .ok (d, ks)
  /-- Each element stands where it occurred first. -/
  elements_eq : d.elements = es.eraseDups
  /-- No element has two numbers. -/
  nodup : d.elements.Nodup
  /-- The number of each insertion still names the element that was inserted. -/
  numbers : List.Forall₂ (fun e k => d.get? k = some e) es ks
  /-- Looking elements up and reading numbers off are inverse to each other. -/
  indexOf_iff : ∀ e k, d.indexOf e = .ok (some k) ↔ d.get? k = some e
  /-- Insertions into a ledger have the same answers, and leave it with the same elements and an
  index that is inverse to them, however elements are hashed. -/
  ledger : ∀ [Hashable α], ∃ L : Ledger α, enterAll Ledger.insert .empty es = .ok (L, ks) ∧
    L.freeze.Records d

theorem exists_isDiscovered (es : List α) :
    ∃ ks, IsDiscovered es (ofElements es).freeze ks := by
  obtain ⟨ks, hks, hnumbers⟩ := enterAll_insert (d := empty) rfl es
  refine ⟨ks, ?_⟩
  exact
    { entered := by rw [hks]; rfl
      elements_eq := elements_ofElements es
      nodup := (ofElements es).nodup
      numbers := hnumbers
      indexOf_iff := fun _ _ => indexOf_eq_some_iff rfl
      ledger := by
        intro _
        obtain ⟨L, hL, hrecords⟩ := Ledger.records_empty.enterAll rfl hks
        exact ⟨L, hL, hrecords.freeze⟩ }

end Domain

/-- The variables that the instructions of a function read, each at its first occurrence. -/
def Function.variablesRead (f : Function) : List Value :=
  ((f.instructions.flatMap (·.operands)).filter (·.isVariable)).eraseDups

namespace Analysis

theorem elements_domain_liveness (f : Function) :
    (liveness.domain f).elements = f.variablesRead := by
  rw [Function.variablesRead, List.filter_flatMap]
  exact Domain.elements_ofElements _

/-- What the analyses discover on `f`. -/
structure DiscoversOn (f : Function) : Prop where
  /-- The domain of an analysis comes of inserting what the instructions contribute. -/
  domain : ∀ {α : Type} [DecidableEq α] (A : Analysis α),
    ∃ ks, Domain.IsDiscovered (f.instructions.flatMap (A.contribute f)) (A.domain f) ks
  /-- It is the domain of every solution. -/
  solved : ∀ {α : Type} [DecidableEq α] {A : Analysis α} {S : Solution α},
    (A.solve f).result = .ok S → S.domain = A.domain f
  /-- Composition does not change it. -/
  composed : ∀ {ant S : Solution Expression}, (WillBeAvailable.solve ant f).result = .ok S →
    S.domain = (willBeAvailable ant).domain f
  /-- The analyses of expressions have the same elements. -/
  expressions : (available.domain f).elements = f.expressions ∧
    (anticipated.domain f).elements = f.expressions ∧
    ∀ ant, ((willBeAvailable ant).domain f).elements = f.expressions
  /-- So their domains agree. -/
  agree : ∀ ant, (available.domain f).agrees (anticipated.domain f) = true ∧
    (anticipated.domain f).agrees ((willBeAvailable ant).domain f) = true ∧
    ((willBeAvailable ant).domain f).agrees (available.domain f) = true
  /-- The live variables have those that are read, by phis too. -/
  readVariables : (liveness.domain f).elements = f.variablesRead

theorem discoversOn (f : Function) : DiscoversOn f := by
  have havailable : (available.domain f).elements = f.expressions :=
    elements_domain_of_contributed fun _ => rfl
  have hanticipated : (anticipated.domain f).elements = f.expressions :=
    elements_domain_of_contributed fun _ => rfl
  have hwill : ∀ ant, ((willBeAvailable ant).domain f).elements = f.expressions := fun ant =>
    elements_domain_of_contributed fun _ => rfl
  exact
    { domain := fun A => Domain.exists_isDiscovered _
      solved := domain_of_solve
      composed := fun h => by
        obtain ⟨own, hown, hjoin⟩ := WillBeAvailable.composed_eq_ok_iff.1 h
        exact (WillBeAvailable.addAnticipated_spec hjoin).domain_eq.trans (domain_of_solve hown)
      expressions := ⟨havailable, hanticipated, hwill⟩
      agree := fun ant => by
        refine ⟨?_, ?_, ?_⟩ <;> rw [Domain.agrees, beq_iff_eq]
        · rw [havailable, hanticipated]
        · rw [hanticipated, hwill]
        · rw [hwill, havailable]
      readVariables := elements_domain_liveness f }

/-- **Discovery is exact and shared**: on every function, and for every sequence of insertions. -/
theorem discovery_exact (f : Function) :
    DiscoversOn f ∧ ∀ {α : Type} [DecidableEq α] (es es' : List α), ∃ d ks d' ks',
      Domain.IsDiscovered es d ks ∧ Domain.IsDiscovered es' d' ks' ∧
        (d.agrees d' = true ↔ ∀ e, d.indexOf e = d'.indexOf e) := by
  refine ⟨discoversOn f, fun es es' => ?_⟩
  obtain ⟨ks, hks⟩ := Domain.exists_isDiscovered es
  obtain ⟨ks', hks'⟩ := Domain.exists_isDiscovered es'
  exact ⟨_, ks, _, ks', hks, hks', Domain.agrees_iff_indexOf rfl rfl⟩

end Analysis

end FactFlow
