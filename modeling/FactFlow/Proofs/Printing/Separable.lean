import Mathlib.Data.List.Basic

/-!
# Texts that can be taken apart

Names, numbers and operators are printed as *words*, made of letters, digits, `%` and `-`.  What is
printed beside a word is a mark: a blank, a comma, a bracket.  So a word can be cut off the front of
a text without losing where it ends.  A printed form with this property is called `Separable`.
Words have it (`Separable.of_words`), and it passes to pairs with a mark between
(`Separable.pair`).  Lists with commas between can be read off from the front
(`Separable.joined_inj`).

A text that need not be a word has no such end.  It can still be cut off in front of the last
opening bracket, if there is none in what follows (`callText_inj`).
-/

namespace FactFlow

namespace Printing

/-! ### Words and marks -/

/-- Names and numbers are made of these characters. -/
def isWordChar (c : Char) : Bool := c.isAlphanum || c == '%' || c == '-'

/-- A text of word characters only. -/
def IsWord (s : String) : Prop := s.toList.all isWordChar = true

instance (s : String) : Decidable (IsWord s) :=
  inferInstanceAs (Decidable (s.toList.all isWordChar = true))

theorem isWord_iff {s : String} : IsWord s ↔ ∀ c ∈ s.toList, isWordChar c = true :=
  List.all_eq_true

theorem isWord_append {s t : String} (hs : IsWord s) (ht : IsWord t) : IsWord (s ++ t) := by
  rw [IsWord, String.toList_append, List.all_append, Bool.and_eq_true]
  exact ⟨hs, ht⟩

/-- A word ends in front of this text. -/
def Breaks (rest : String) : Prop := ∀ c ∈ rest.toList.head?, isWordChar c = false

/-- A text that begins with a mark, that is, with a character that no word has. -/
def IsMark (sep : String) : Prop := sep.toList.head?.map isWordChar = some false

theorem breaks_empty : Breaks "" := nofun

theorem isMark_comma : IsMark ", " := rfl

theorem isMark_blank : IsMark " " := rfl

theorem isMark_equals : IsMark " = " := rfl

theorem breaks_append {sep : String} (h : IsMark sep) (rest : String) : Breaks (sep ++ rest) := by
  obtain ⟨c, hc, hmark⟩ := Option.map_eq_some_iff.1 h
  intro d hd
  rw [String.toList_append, List.head?_append, hc] at hd
  cases hd
  exact hmark

/-- A text can be cut in one way only into characters with a property and a rest that begins with a
character without it. -/
theorem append_inj_of_all {p : Char → Bool} {a b r t : List Char} (ha : ∀ c ∈ a, p c = true)
    (hb : ∀ c ∈ b, p c = true) (hr : ∀ c ∈ r.head?, p c = false) (ht : ∀ c ∈ t.head?, p c = false)
    (h : a ++ r = b ++ t) : a = b ∧ r = t := by
  -- the first part is what is found by going on as long as the property holds
  have hcut : ∀ {a r : List Char}, (∀ c ∈ a, p c = true) → (∀ c ∈ r.head?, p c = false) →
      (a ++ r).takeWhile p = a := by
    intro a r ha hr
    rw [List.takeWhile_append_of_pos ha]
    cases r with
    | nil => simp
    | cons c r => simp [hr c rfl]
  have hab : a = b := by rw [← hcut ha hr, h, hcut hb ht]
  subst hab
  exact ⟨rfl, (List.append_right_inj a).1 h⟩

/-- A word can be cut off the front of a text. -/
theorem word_append_inj {s s' r t : String} (hs : IsWord s) (hs' : IsWord s') (hr : Breaks r)
    (ht : Breaks t) (h : s ++ r = s' ++ t) : s = s' ∧ r = t := by
  have hchars : s.toList ++ r.toList = s'.toList ++ t.toList := by
    rw [← String.toList_append, h, String.toList_append]
  exact (append_inj_of_all (isWord_iff.1 hs) (isWord_iff.1 hs') hr ht hchars).imp
    String.toList_inj.1 String.toList_inj.1

/-- What can be read back from its printed form is determined by it. -/
theorem injective_of_read {α : Type} {print : α → String} {read : String → Option α}
    (h : ∀ x, read (print x) = some x) : Function.Injective print := fun x y hxy =>
  Option.some.inj ((h x).symm.trans (hxy ▸ h y))

/-- What `print` writes can be cut off the front of a text, and says what was printed. -/
structure Separable {α : Type} (print : α → String) : Prop where
  cut : ∀ {x y : α} {r t : String}, Breaks r → Breaks t → print x ++ r = print y ++ t →
    x = y ∧ r = t

namespace Separable

variable {α β : Type} {print : α → String}

theorem of_words (hinj : Function.Injective print) (hword : ∀ x, IsWord (print x)) :
    Separable print :=
  ⟨fun hr ht h => (word_append_inj (hword _) (hword _) hr ht h).imp_left (hinj ·)⟩

theorem injective (h : Separable print) : Function.Injective print := fun _ _ hxy =>
  (h.cut breaks_empty breaks_empty (congrArg (· ++ "") hxy)).1

/-- A form that is printed by the parts of what it stands for. -/
theorem comp {print' : β → String} (h : Separable print') {f : α → β} (hf : Function.Injective f)
    (hprint : ∀ x, print x = print' (f x)) : Separable print := by
  refine ⟨fun hr ht hxy => ?_⟩
  rw [hprint, hprint] at hxy
  exact (h.cut hr ht hxy).imp_left (hf ·)

/-- Two printed forms with a mark between them. -/
theorem pair (h : Separable print) {print' : β → String} (h' : Separable print') {sep : String}
    (hsep : IsMark sep) : Separable fun z : α × β => print z.1 ++ sep ++ print' z.2 := by
  refine ⟨fun hr ht hzw => ?_⟩
  simp only [String.append_assoc] at hzw
  obtain ⟨hfst, hrest⟩ := h.cut (breaks_append hsep _) (breaks_append hsep _) hzw
  obtain ⟨hsnd, hrt⟩ := h'.cut hr ht ((String.append_right_inj sep).1 hrest)
  exact ⟨Prod.ext hfst hsnd, hrt⟩

end Separable

/-! ### Numbers -/

theorem isDigit_of_mem_toString {n : Nat} {c : Char} (h : c ∈ (toString n).toList) :
    c.isDigit = true := by
  rw [Nat.toString_eq_repr, Nat.toList_repr] at h
  exact Nat.isDigit_of_mem_toDigits (by omega) (by omega) h

/-- A number can be read back from its digits. -/
theorem eq_of_toString_eq {m n : Nat} (h : toString m = toString n) : m = n := by
  have hdigits : Nat.toDigits 10 m = Nat.toDigits 10 n := by
    rw [← Nat.toList_repr, ← Nat.toList_repr]
    exact congrArg String.toList h
  rw [← Nat.ofDigitChars_ten_toDigits (n := m), hdigits, Nat.ofDigitChars_ten_toDigits]

theorem isWord_toString (n : Nat) : IsWord (toString n) :=
  isWord_iff.2 fun c hc => by simp [isWordChar, Char.isAlphanum, isDigit_of_mem_toString hc]

/-- Whether a digit occurs in a text. -/
def hasDigit (s : String) : Bool := s.toList.any Char.isDigit

theorem hasDigit_append (s t : String) : hasDigit (s ++ t) = (hasDigit s || hasDigit t) := by
  rw [hasDigit, String.toList_append, List.any_append]
  rfl

theorem hasDigit_toString (n : Nat) : hasDigit (toString n) = true := by
  obtain ⟨c, hc⟩ := List.exists_mem_of_ne_nil (toString n).toList
    (String.toList_eq_nil_iff.not.2 Nat.repr_ne_empty)
  exact List.any_eq_true.2 ⟨c, hc, isDigit_of_mem_toString hc⟩

/-! ### Lists -/

theorem intercalate_cons (sep s : String) (rest : List String) :
    sep.intercalate (s :: rest) = s ++ String.join (rest.map (sep ++ ·)) := by
  induction rest generalizing s with
  | nil => rw [String.intercalate_singleton, List.map_nil, String.join_nil, String.append_empty]
  | cons t rest ih =>
    rw [String.intercalate_cons_cons, ih, List.map_cons, String.join_cons, String.append_assoc,
      String.append_assoc]

/-- Parts that are followed by a separator each, the last one too. -/
theorem join_map_append (sep s : String) (rest : List String) :
    String.join ((s :: rest).map (· ++ sep)) = sep.intercalate (s :: rest) ++ sep := by
  induction rest generalizing s with
  | nil => rw [String.intercalate_singleton, List.map_singleton, String.join_cons, String.join_nil,
      String.append_empty]
  | cons t rest ih =>
    rw [List.map_cons, String.join_cons, ih, String.intercalate_cons_cons, String.append_assoc,
      String.append_assoc, String.append_assoc]

theorem mem_toList_intercalate {sep : String} {parts : List String} {c : Char}
    (h : c ∈ (sep.intercalate parts).toList) : c ∈ sep.toList ∨ ∃ s ∈ parts, c ∈ s.toList := by
  cases parts with
  | nil => simp at h
  | cons s rest =>
    rw [intercalate_cons, String.toList_append, List.mem_append, String.toList_join,
      List.mem_flatMap] at h
    rcases h with hs | ⟨t, ht, hc⟩
    · exact .inr ⟨s, List.mem_cons_self, hs⟩
    · obtain ⟨u, hu, rfl⟩ := List.mem_map.1 ht
      rw [String.toList_append, List.mem_append] at hc
      exact hc.imp_right fun hc => ⟨u, List.mem_cons_of_mem s hu, hc⟩

theorem breaks_continued (parts : List String) :
    Breaks (String.join (parts.map (", " ++ ·))) := by
  cases parts with
  | nil => exact breaks_empty
  | cons s parts =>
    rw [List.map_cons, String.join_cons, String.append_assoc]
    exact breaks_append isMark_comma _

theorem joined_cons_ne_empty {α : Type} {print : α → String} (hne : ∀ x, print x ≠ "") (x : α)
    (xs : List α) : ", ".intercalate ((x :: xs).map print) ≠ "" := by
  rw [List.map_cons, intercalate_cons, Ne, String.append_eq_empty_iff]
  exact fun h => hne x h.1

namespace Separable

variable {α : Type} {print : α → String} {xs ys : List α}

/-- What comes after the first part of a list says which parts come after it. -/
theorem continued_inj (h : Separable print)
    (hxs : String.join ((xs.map print).map (", " ++ ·)) =
      String.join ((ys.map print).map (", " ++ ·))) : xs = ys := by
  induction xs generalizing ys with
  | nil =>
    cases ys with
    | nil => rfl
    | cons y ys => simp at hxs
  | cons x xs ih =>
    cases ys with
    | nil => simp at hxs
    | cons y ys =>
      simp only [List.map_cons, String.join_cons, String.append_assoc, String.append_right_inj]
        at hxs
      obtain ⟨hxy, hrest⟩ := h.cut (breaks_continued _) (breaks_continued _) hxs
      rw [hxy, ih hrest]

theorem joined_inj (h : Separable print) (hne : ∀ x, print x ≠ "")
    (hxs : ", ".intercalate (xs.map print) = ", ".intercalate (ys.map print)) : xs = ys := by
  cases xs with
  | nil =>
    cases ys with
    | nil => rfl
    | cons y ys => exact absurd hxs.symm (joined_cons_ne_empty hne y ys)
  | cons x xs =>
    cases ys with
    | nil => exact absurd hxs (joined_cons_ne_empty hne x xs)
    | cons y ys =>
      rw [List.map_cons, List.map_cons, intercalate_cons, intercalate_cons] at hxs
      obtain ⟨hxy, hrest⟩ := h.cut (breaks_continued _) (breaks_continued _) hxs
      rw [hxy, h.continued_inj hrest]

end Separable

/-! ### Calls -/

/-- The last opening bracket ends the name of a callee, whatever that name is. -/
theorem callText_inj {callee callee' args args' : String} (hargs : '(' ∉ args.toList)
    (hargs' : '(' ∉ args'.toList) (h : callee ++ "(" ++ args = callee' ++ "(" ++ args') :
    callee = callee' ∧ args = args' := by
  -- read from the back, the arguments go on up to the first opening bracket
  have hreverse : args.toList.reverse ++ '(' :: callee.toList.reverse =
      args'.toList.reverse ++ '(' :: callee'.toList.reverse := by
    have hchars := congrArg (List.reverse ∘ String.toList) h
    simpa [String.toList_append] using hchars
  have hall : ∀ {s : String}, '(' ∉ s.toList → ∀ c ∈ s.toList.reverse, (c != '(') = true := by
    intro s hs c hc
    rw [bne_iff_ne]
    rintro rfl
    exact hs (List.mem_reverse.1 hc)
  have hhead : ∀ {cs : List Char}, ∀ c ∈ ('(' :: cs).head?, (c != '(') = false := by
    rintro cs c ⟨⟩
    rfl
  obtain ⟨heq, hrest⟩ := append_inj_of_all (hall hargs) (hall hargs') hhead hhead hreverse
  exact ⟨String.toList_inj.1 (List.reverse_injective (List.cons.inj hrest).2),
    String.toList_inj.1 (List.reverse_injective heq)⟩

end Printing

end FactFlow
