import FactFlow.Expression
import FactFlow.FactSet.View
import FactFlow.Proofs.Domain
import FactFlow.Proofs.Printing.Separable

/-!
# Printed forms are unambiguous

Instructions that print alike define the same variable and do the same (`Instruction.text_inj`).
Values and expressions that print alike are equal, so the elements of a domain are told apart by
their printed forms, and sets of elements by the lines of a listing (`texts_unambiguous`).

The text of an instruction begins with the variable that it defines, or with its *keyword*.  A
variable has a digit in it and a keyword has none.  The keyword says which kind of instruction it
is, and so which parts come after it.  All of these are words with marks between, except for the
name of a callee: that may hold blanks, brackets, or the text of another instruction.  But there is
no opening bracket in the arguments, so the last one in the text is where the name ends
(`Kind.call_inj`).
-/

namespace FactFlow

open Printing

/-! ### Values and blocks -/

namespace Value

/-- What is printed in front of the number of a value. -/
def sigil : Value → String
  | .param _ => "%arg"
  | .slot _ => "%loc"
  | .result _ => "%"
  | .const c => if 0 ≤ c then "" else "-"

/-- The number that is printed for a value. -/
def number : Value → Nat
  | .param n | .slot n | .result n => n
  | .const c => c.natAbs

/-- The value with a number behind a sigil. -/
def ofSigil (sigil : String) (n : Nat) : Value :=
  match sigil with
  | "%arg" => .param n
  | "%loc" => .slot n
  | "%" => .result n
  | "-" => .const (-n)
  | _ => .const n

theorem ofSigil_sigil (v : Value) : ofSigil v.sigil v.number = v := by
  cases v with
  | const c =>
    simp only [sigil, number]
    split
    · have habs : (c.natAbs : Int) = c := by omega
      exact congrArg const habs
    · have habs : -(c.natAbs : Int) = c := by omega
      exact congrArg const habs
  | _ => rfl

theorem text_eq (v : Value) : v.text = v.sigil ++ toString v.number := by
  cases v with
  | param n => rfl
  | slot n => rfl
  | result i => rfl
  | const c =>
    rw [text, Int.toString_eq_repr, Int.repr_eq_if, sigil, number, Nat.toString_eq_repr]
    split
    · rw [String.empty_append, show c.toNat = c.natAbs by omega]
    · rw [show (-c).toNat = c.natAbs by omega]

/-- All sigils. -/
def sigils : List String := ["%arg", "%loc", "%", "-", ""]

theorem sigil_mem (v : Value) : v.sigil ∈ sigils := by
  cases v with
  | const c => rw [sigil]; split <;> decide
  | _ => exact of_decide_eq_true rfl

theorem isWord_sigil (v : Value) : IsWord v.sigil := by
  have hall : ∀ s ∈ sigils, IsWord s := by decide
  exact hall _ v.sigil_mem

theorem hasDigit_sigil (v : Value) : hasDigit v.sigil = false := by
  have hall : ∀ s ∈ sigils, hasDigit s = false := by decide
  exact hall _ v.sigil_mem

theorem text_injective : Function.Injective text := by
  intro v w h
  -- the number begins at the first digit
  rw [text_eq, text_eq] at h
  have hchars : v.sigil.toList ++ (toString v.number).toList =
      w.sigil.toList ++ (toString w.number).toList := by
    rw [← String.toList_append, h, String.toList_append]
  have hsigil : ∀ v : Value, ∀ c ∈ v.sigil.toList, (!c.isDigit) = true := by
    intro v c hc
    have hdigit := List.any_eq_false.1 v.hasDigit_sigil c hc
    simpa using hdigit
  have hnumber : ∀ n : Nat, ∀ c ∈ (toString n).toList.head?, (!c.isDigit) = false := by
    intro n c hc
    rw [isDigit_of_mem_toString (List.mem_of_mem_head? hc), Bool.not_true]
  obtain ⟨hs, hn⟩ := append_inj_of_all (hsigil v) (hsigil w) (hnumber _) (hnumber _) hchars
  rw [← v.ofSigil_sigil, ← w.ofSigil_sigil, String.toList_inj.1 hs,
    eq_of_toString_eq (String.toList_inj.1 hn)]

theorem isWord_text (v : Value) : IsWord v.text := by
  rw [text_eq]
  exact isWord_append v.isWord_sigil (isWord_toString _)

theorem text_separable : Separable text := .of_words text_injective isWord_text

theorem hasDigit_text (v : Value) : hasDigit v.text = true := by
  rw [text_eq, hasDigit_append, hasDigit_toString, Bool.or_true]

theorem text_ne_empty (v : Value) : v.text ≠ "" := fun h =>
  absurd v.hasDigit_text (h ▸ by decide)

/-- Two values with a comma between them. -/
theorem pair_separable : Separable fun z : Value × Value => z.1.text ++ ", " ++ z.2.text :=
  text_separable.pair text_separable isMark_comma

end Value

theorem blockName_separable : Separable blockName :=
  .of_words (fun _ _ h => eq_of_toString_eq ((String.append_right_inj _).1 h)) fun b =>
    isWord_append (by decide) (isWord_toString b)

/-! ### Operators, predicates and expressions -/

namespace BinaryOp

theorem ofText?_text (op : BinaryOp) : ofText? op.text = some op := by cases op <;> rfl

theorem isWord_text (op : BinaryOp) : IsWord op.text := by cases op <;> decide

theorem text_separable : Separable text := .of_words (injective_of_read ofText?_text) isWord_text

end BinaryOp

namespace Predicate

theorem ofText?_text (p : Predicate) : ofText? p.text = some p := by cases p <;> rfl

theorem isWord_text (p : Predicate) : IsWord p.text := by cases p <;> decide

theorem text_separable : Separable text := .of_words (injective_of_read ofText?_text) isWord_text

end Predicate

namespace Expression

theorem text_separable : Separable text := by
  have hparts := BinaryOp.text_separable.pair Value.pair_separable isMark_blank
  refine hparts.comp (f := fun e : Expression => (e.op, e.lhs, e.rhs)) ?_ fun e => ?_
  · rintro ⟨op, lhs, rhs⟩ ⟨op', lhs', rhs'⟩ h
    cases h
    rfl
  · simp only [text, String.append_assoc]

theorem text_ne_empty (e : Expression) : e.text ≠ "" := fun h =>
  e.rhs.text_ne_empty (String.append_eq_empty_iff.1 h).2

end Expression

/-! ### Instructions -/

namespace Incoming

theorem text_separable : Separable text := by
  have hparts := Value.text_separable.pair blockName_separable isMark_comma
  refine ⟨fun {a b r t} hr ht h => ?_⟩
  simp only [text, String.append_assoc, String.append_right_inj] at h
  have hbracket : ∀ rest, Breaks ("]" ++ rest) := breaks_append rfl
  obtain ⟨hab, hrest⟩ := hparts.cut (x := (a.value, a.source)) (y := (b.value, b.source))
    (hbracket r) (hbracket t) (by simpa only [String.append_assoc] using h)
  cases a
  cases b
  cases hab
  exact ⟨rfl, (String.append_right_inj _).1 hrest⟩

theorem text_ne_empty (a : Incoming) : a.text ≠ "" := fun h =>
  absurd (String.append_eq_empty_iff.1 h).2 (by decide)

end Incoming

/-- The first word of an instruction, after the variable it defines. -/
inductive Keyword where
  | operator (op : BinaryOp)
  | cmp | copy | call | phi | jump | br | ret
  deriving DecidableEq, Repr

namespace Keyword

/-- The printed form of a keyword. -/
def text : Keyword → String
  | .operator op => op.text
  | .cmp => "cmp" | .copy => "copy" | .call => "call" | .phi => "phi"
  | .jump => "jump" | .br => "br" | .ret => "ret"

/-- The keyword of a printed form. -/
def ofText? (s : String) : Option Keyword :=
  match BinaryOp.ofText? s with
  | some op => some (.operator op)
  | none => [cmp, copy, call, phi, jump, br, ret].find? (·.text == s)

theorem ofText?_text (w : Keyword) : ofText? w.text = some w := by
  cases w with
  | operator op => rw [ofText?, text, op.ofText?_text]
  | _ => rfl

theorem isWord_text (w : Keyword) : IsWord w.text := by
  cases w with
  | operator op => exact op.isWord_text
  | _ => decide

theorem text_separable : Separable text := .of_words (injective_of_read ofText?_text) isWord_text

theorem hasDigit_text (w : Keyword) : hasDigit w.text = false := by
  cases w with
  | operator op => cases op <;> decide
  | _ => decide

/-- The text of a value has a digit in it, that of a keyword has none. -/
theorem text_ne_value (w : Keyword) (v : Value) : v.text ≠ w.text := by
  intro h
  have hdigit := v.hasDigit_text
  rw [h, w.hasDigit_text] at hdigit
  cases hdigit

end Keyword

namespace Kind

/-- The keyword of a kind. -/
def keyword : Kind → Keyword
  | .binary op _ _ => .operator op
  | .compare .. => .cmp
  | .copy _ => .copy
  | .call .. => .call
  | .phi _ => .phi
  | .jump _ => .jump
  | .branch .. => .br
  | .ret _ => .ret

/-- What is printed after the keyword. -/
def arguments : Kind → String
  | .binary _ lhs rhs => " " ++ (lhs.text ++ ", " ++ rhs.text)
  | .compare pred lhs rhs => " " ++ (pred.text ++ " " ++ (lhs.text ++ ", " ++ rhs.text))
  | .copy source => " " ++ source.text
  | .call callee args => " " ++ (callee ++ "(" ++ ", ".intercalate (args.map Value.text) ++ ")")
  | .phi alts => " " ++ ", ".intercalate (alts.map Incoming.text)
  | .jump target => " " ++ blockName target
  | .branch cond onTrue onFalse =>
    " " ++ (cond.text ++ ", " ++ (blockName onTrue ++ ", " ++ blockName onFalse))
  | .ret (some value) => " " ++ value.text
  | .ret none => ""

theorem text_eq (k : Kind) : k.text = k.keyword.text ++ k.arguments := by
  -- a keyword is printed in one piece with the blank behind it
  have hcmp : "cmp " = "cmp" ++ " " := rfl
  have hcopy : "copy " = "copy" ++ " " := rfl
  have hcall : "call " = "call" ++ " " := rfl
  have hphi : "phi " = "phi" ++ " " := rfl
  have hjump : "jump " = "jump" ++ " " := rfl
  have hbr : "br " = "br" ++ " " := rfl
  have hret : "ret " = "ret" ++ " " := rfl
  cases k with
  | ret value =>
    cases value with
    | none => rfl
    | some v => simp only [text, keyword, Keyword.text, arguments, hret, String.append_assoc]
  | _ =>
    simp only [text, keyword, Keyword.text, arguments, hcmp, hcopy, hcall, hphi, hjump, hbr,
      String.append_assoc]

theorem breaks_arguments (k : Kind) : Breaks k.arguments := by
  cases k with
  | ret value =>
    cases value with
    | none => exact breaks_empty
    | some v => exact breaks_append isMark_blank _
  | _ => exact breaks_append isMark_blank _

theorem not_mem_joined_values (args : List Value) :
    '(' ∉ (", ".intercalate (args.map Value.text)).toList := by
  intro h
  rcases mem_toList_intercalate h with hsep | ⟨s, hs, hc⟩
  · revert hsep
    decide
  · obtain ⟨v, -, rfl⟩ := List.mem_map.1 hs
    cases isWord_iff.1 v.isWord_text _ hc

/-- The text of a call determines the name of the callee and the arguments. -/
theorem call_inj {callee callee' : String} {args args' : List Value}
    (h : (call callee args).arguments = (call callee' args').arguments) :
    callee = callee' ∧ args = args' := by
  simp only [arguments, String.append_right_inj, String.append_left_inj] at h
  obtain ⟨hcallee, hargs⟩ :=
    callText_inj (not_mem_joined_values args) (not_mem_joined_values args') h
  exact ⟨hcallee, Value.text_separable.joined_inj Value.text_ne_empty hargs⟩

-- what stands in front of the last opening bracket is the name, even if it looks like a call
example : (call "f(%0), g" [.result 1]).text = "call f(%0), g(%1)" := rfl

/-- The keyword and what is printed after it determine the kind. -/
theorem eq_of_arguments {k l : Kind} (hword : k.keyword = l.keyword)
    (hargs : k.arguments = l.arguments) : k = l := by
  have hcut : ∀ {s t : String}, " " ++ s = " " ++ t → s = t := (String.append_right_inj _).1
  cases k with
  | binary op lhs rhs =>
    cases l with
    | binary op' lhs' rhs' =>
      have hvalues : (lhs, rhs) = (lhs', rhs') := Value.pair_separable.injective (hcut hargs)
      cases hword
      cases hvalues
      rfl
    | _ => cases hword
  | compare pred lhs rhs =>
    cases l with
    | compare pred' lhs' rhs' =>
      have hparts : (pred, lhs, rhs) = (pred', lhs', rhs') :=
        (Predicate.text_separable.pair Value.pair_separable isMark_blank).injective (hcut hargs)
      cases hparts
      rfl
    | _ => cases hword
  | copy source =>
    cases l with
    | copy source' => rw [Value.text_injective (hcut hargs)]
    | _ => cases hword
  | call callee args =>
    cases l with
    | call callee' args' =>
      obtain ⟨rfl, rfl⟩ := call_inj hargs
      rfl
    | _ => cases hword
  | phi alts =>
    cases l with
    | phi alts' =>
      rw [Incoming.text_separable.joined_inj Incoming.text_ne_empty (hcut hargs)]
    | _ => cases hword
  | jump target =>
    cases l with
    | jump target' => rw [blockName_separable.injective (hcut hargs)]
    | _ => cases hword
  | branch cond onTrue onFalse =>
    cases l with
    | branch cond' onTrue' onFalse' =>
      have htargets := blockName_separable.pair blockName_separable isMark_comma
      have hparts : (cond, onTrue, onFalse) = (cond', onTrue', onFalse') :=
        (Value.text_separable.pair htargets isMark_comma).injective (hcut hargs)
      cases hparts
      rfl
    | _ => cases hword
  | ret value =>
    cases l with
    | ret value' =>
      cases value with
      | none =>
        cases value' with
        | none => rfl
        | some v' => exact absurd (String.append_eq_empty_iff.1 hargs.symm).1 (by decide)
      | some v =>
        cases value' with
        | none => exact absurd (String.append_eq_empty_iff.1 hargs).1 (by decide)
        | some v' => rw [Value.text_injective (hcut hargs)]
    | _ => cases hword

theorem text_injective : Function.Injective text := by
  intro k l h
  rw [text_eq, text_eq] at h
  obtain ⟨hword, hargs⟩ :=
    Keyword.text_separable.cut k.breaks_arguments l.breaks_arguments h
  exact eq_of_arguments hword hargs

/-- No kind is printed as a value and something after it. -/
theorem value_append_ne_text (k : Kind) (v : Value) {rest : String} (hrest : Breaks rest) :
    v.text ++ rest ≠ k.text := by
  intro h
  rw [text_eq] at h
  obtain ⟨hword, -⟩ :=
    word_append_inj v.isWord_text k.keyword.isWord_text hrest k.breaks_arguments h
  exact k.keyword.text_ne_value v hword

end Kind

namespace Instruction

theorem text_of_none {i : Instruction} (h : i.result = none) : i.text = i.kind.text := by
  rw [text, h]

theorem text_of_some {i : Instruction} {v : Value} (h : i.result = some v) :
    i.text = v.text ++ (" = " ++ i.kind.text) := by
  rw [text, h, ← String.append_assoc]

theorem result_and_kind_of_text {i j : Instruction} (h : i.text = j.text) :
    i.result = j.result ∧ i.kind = j.kind := by
  have hequals : ∀ k : Kind, Breaks (" = " ++ k.text) := fun k => breaks_append isMark_equals _
  cases hi : i.result with
  | none =>
    rw [text_of_none hi] at h
    cases hj : j.result with
    | none =>
      rw [text_of_none hj] at h
      exact ⟨rfl, Kind.text_injective h⟩
    | some w =>
      rw [text_of_some hj] at h
      exact absurd h.symm (i.kind.value_append_ne_text w (hequals _))
  | some v =>
    rw [text_of_some hi] at h
    cases hj : j.result with
    | none =>
      rw [text_of_none hj] at h
      exact absurd h (j.kind.value_append_ne_text v (hequals _))
    | some w =>
      rw [text_of_some hj] at h
      obtain ⟨hvw, hrest⟩ := Value.text_separable.cut (hequals _) (hequals _) h
      exact ⟨congrArg some hvw, Kind.text_injective ((String.append_right_inj _).1 hrest)⟩

theorem text_inj {i j : Instruction} :
    i.text = j.text ↔ i.result = j.result ∧ i.kind = j.kind := by
  refine ⟨result_and_kind_of_text, ?_⟩
  rintro ⟨hresult, hkind⟩
  rw [text, text, hresult, hkind]

end Instruction

/-! ### Elements of a domain -/

namespace Domain

variable {α : Type} [ToString α]

theorem braced_cons (e : α) (es : List α) :
    braced (e :: es) =
      "\x7b" ++ (", ".intercalate ((e :: es).map toString) ++ ", ") ++ "\x7d" := by
  have hparts : (e :: es).map (fun e => toString e ++ ", ") =
      ((e :: es).map toString).map (· ++ ", ") := by
    rw [List.map_map]
    rfl
  rw [braced, hparts, List.map_cons, join_map_append]

theorem braced_nil_ne_cons (e : α) (es : List α) : braced ([] : List α) ≠ braced (e :: es) := by
  rw [braced_cons, braced, Ne, String.append_left_inj, String.append_right_inj, eq_comm,
    List.map_nil, String.join_nil, String.append_eq_empty_iff]
  exact fun h => absurd h.2 (by decide)

theorem braced_inj (h : Separable (toString : α → String)) (hne : ∀ e : α, toString e ≠ "")
    {es es' : List α} (hes : braced es = braced es') : es = es' := by
  cases es with
  | nil =>
    cases es' with
    | nil => rfl
    | cons e' es' => exact absurd hes (braced_nil_ne_cons e' es')
  | cons e es =>
    cases es' with
    | nil => exact absurd hes.symm (braced_nil_ne_cons e es)
    | cons e' es' =>
      rw [braced_cons, braced_cons, String.append_left_inj, String.append_right_inj,
        String.append_left_inj] at hes
      exact h.joined_inj hne hes

omit [ToString α] in
/-- A set is determined by the elements at its positions. -/
theorem test_of_filterMap_get? {d : Domain α} {s t : FactSet} (hs : s.width = d.size)
    (h : s.positions.filterMap d.get? = t.positions.filterMap d.get?) {p : Nat}
    (hp : s.test p = true) : t.test p = true := by
  obtain ⟨e, he⟩ := exists_get?_of_lt (hs ▸ FactSet.lt_width_of_test hp)
  have hmem : e ∈ t.positions.filterMap d.get? :=
    h ▸ List.mem_filterMap.2 ⟨p, FactSet.mem_positions_iff.2 hp, he⟩
  obtain ⟨q, hq, hqe⟩ := List.mem_filterMap.1 hmem
  cases get?_inj he hqe
  exact FactSet.mem_positions_iff.1 hq

/-- Sets of elements that print alike are equal. -/
theorem render_inj (h : Separable (toString : α → String)) (hne : ∀ e : α, toString e ≠ "")
    {d : Domain α} {s t : FactSet} {line : String} (hs : d.render s = .ok line)
    (ht : d.render t = .ok line) : s = t := by
  obtain ⟨hsw, hs⟩ := render_eq_ok_iff.1 hs
  obtain ⟨htw, ht⟩ := render_eq_ok_iff.1 ht
  have helements := braced_inj h hne (hs.trans ht.symm)
  exact FactSet.eq_of_test (hsw.trans htw.symm) fun p => Bool.eq_iff_iff.2
    ⟨test_of_filterMap_get? hsw helements, test_of_filterMap_get? htw helements.symm⟩

end Domain

/-- Printing tells elements apart, one by one, in a domain and in a set of elements. -/
structure PrintsApart (α : Type) [ToString α] : Prop where
  /-- Elements that print alike are equal. -/
  toString_inj : ∀ x y : α, toString x = toString y ↔ x = y
  /-- No two elements of a domain print alike. -/
  nodup : ∀ d : Domain α, (d.elements.map toString).Nodup
  /-- No two sets of elements of a domain print alike. -/
  render_inj : ∀ (d : Domain α) (s t : FactSet) (line : String),
    d.render s = .ok line → d.render t = .ok line → s = t

theorem PrintsApart.of_separable {α : Type} [ToString α] (h : Separable (toString : α → String))
    (hne : ∀ e : α, toString e ≠ "") : PrintsApart α where
  toString_inj _ _ := h.injective.eq_iff
  nodup d := d.nodup.map h.injective
  render_inj _ _ _ _ hs ht := Domain.render_inj h hne hs ht

/-- **Printed forms are unambiguous**: an instruction's text says what it defines and does, and the
texts of values and expressions say which they are. -/
theorem texts_unambiguous :
    (∀ i j : Instruction, i.text = j.text ↔ i.result = j.result ∧ i.kind = j.kind) ∧
      PrintsApart Value ∧ PrintsApart Expression :=
  ⟨fun _ _ => Instruction.text_inj, .of_separable Value.text_separable Value.text_ne_empty,
    .of_separable Expression.text_separable Expression.text_ne_empty⟩

end FactFlow
