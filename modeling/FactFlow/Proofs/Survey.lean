import FactFlow.Proofs.Analysis.Totality
import FactFlow.Proofs.Solve.Reading
import FactFlow.Survey

/-!
# What a survey reports

On a function that comes out of a draft, a survey fails for one reason only: an analysis that needs
the anticipated expressions is asked for, the function has a critical arm, and the settings do not
let such functions pass (`Settings.Refuses`).  Otherwise the report has what was asked for, found as
if nothing else had been asked for (`Settings.IsReport`).  That the journal takes a printed report
on the way makes no difference, since every solution in it can be printed.

A survey of a program has a report for each function, or the failure of one of them: the first one
if functions are analyzed in order, and any one if they are analyzed side by side.  All that is
assumed of a `Gather` is that it keeps the order of reports and makes up no failure
(`Gather.IsFaithful`).
-/

namespace FactFlow

/-! ### Gathering -/

theorem Traced.result_mapM {α β : Type} (g : α → Traced β) (xs : List α) :
    (xs.mapM g).result = xs.mapM fun x => (g x).result := by
  induction xs with
  | nil => rfl
  | cons x xs ih =>
    simp only [List.mapM_cons, Traced.result_bind, ih, Traced.result_pure]
    rfl

namespace Gather

/-- All runs that end well give their reports in order; else one of the failures is passed on. -/
structure IsFaithful (gather : Gather) : Prop where
  /-- The reports of runs that all end well. -/
  ok : ∀ {runs reports}, List.Forall₂ (fun run r => run.result = .ok r) runs reports →
    (gather runs).result = .ok reports
  /-- The failure of some run. -/
  error : ∀ {runs}, (∃ run ∈ runs, ∃ e, run.result = .error e) →
    ∃ run ∈ runs, ∃ e, run.result = .error e ∧ (gather runs).result = .error e

theorem inOrder_result (runs : List (Traced Report)) :
    (inOrder runs).result = runs.mapM (·.result) :=
  Traced.result_mapM id runs

theorem ok_or_error (runs : List (Traced Report)) :
    (∃ reports, List.Forall₂ (fun run r => run.result = .ok r) runs reports) ∨
      ∃ run ∈ runs, ∃ e, run.result = .error e := by
  cases h : runs.mapM (·.result) with
  | ok reports => exact .inl ⟨reports, Outcome.mapM_eq_ok_iff.1 h⟩
  | error e =>
    obtain ⟨pre, run, post, rfl, -, hrun⟩ := Outcome.mapM_eq_error_iff.1 h
    exact .inr ⟨run, by simp, e, hrun⟩

theorem inOrder_isFaithful : inOrder.IsFaithful where
  ok {runs reports} h := by
    rw [inOrder_result]
    exact Outcome.mapM_eq_ok_iff.2 h
  error {runs} := by
    rintro ⟨run, hrun, e, he⟩
    rw [inOrder_result]
    cases hresult : runs.mapM (·.result) with
    | ok reports =>
      obtain ⟨r, -, hr⟩ := Outcome.exists_right_of_mem (Outcome.mapM_eq_ok_iff.1 hresult) hrun
      cases he.symm.trans hr
    | error e' =>
      obtain ⟨pre, run', post, rfl, -, hrun'⟩ := Outcome.mapM_eq_error_iff.1 hresult
      exact ⟨run', by simp, e', hrun', rfl⟩

namespace IsFaithful

variable {gather : Gather} (h : gather.IsFaithful)
include h

theorem result_eq_ok_iff {runs : List (Traced Report)} {reports : List Report} :
    (gather runs).result = .ok reports ↔
      List.Forall₂ (fun run r => run.result = .ok r) runs reports := by
  refine ⟨fun hresult => ?_, h.ok⟩
  rcases ok_or_error runs with ⟨reports', hreports⟩ | herror
  · cases hresult.symm.trans (h.ok hreports)
    exact hreports
  · obtain ⟨run, -, e, -, he⟩ := h.error herror
    cases hresult.symm.trans he

theorem exists_of_error {runs : List (Traced Report)} {e : Failure}
    (hresult : (gather runs).result = .error e) : ∃ run ∈ runs, run.result = .error e := by
  rcases ok_or_error runs with ⟨reports, hreports⟩ | herror
  · cases hresult.symm.trans (h.ok hreports)
  · obtain ⟨run, hrun, e', hfail, he⟩ := h.error herror
    cases hresult.symm.trans he
    exact ⟨run, hrun, hfail⟩

end IsFaithful

end Gather

/-! ### Reports -/

namespace Report

/-- An entry of a report: it is there iff it is `wanted`, and then it is what `x` found. -/
structure IsEntry {α : Type} (wanted : Prop) (x : Except Failure α) (entry : Option α) : Prop where
  /-- What is wanted was found. -/
  present : wanted → ∃ a, x = .ok a ∧ entry = some a
  /-- Nothing else is there. -/
  absent : ¬ wanted → entry = none

theorem IsEntry.of_not {α : Type} {wanted : Prop} {x : Except Failure α} (h : ¬ wanted) :
    IsEntry wanted x none :=
  ⟨fun hwanted => absurd hwanted h, fun _ => rfl⟩

theorem IsEntry.eq_ok {α : Type} {wanted : Prop} {x : Except Failure α} {entry : Option α}
    (h : IsEntry wanted x entry) {a : α} (ha : entry = some a) : x = .ok a := by
  by_cases hwanted : wanted
  · obtain ⟨a', hx, ha'⟩ := h.present hwanted
    cases ha.symm.trans ha'
    exact hx
  · cases ha.symm.trans (h.absent hwanted)

theorem exists_section {α : Type} [ToString α] {r : Report} (hr : r.function.WellFormed)
    {f : Function} {S? : Option (Solution α)} (h : ∀ S, S? = some S → S.Shaped f) :
    ∃ text, r.section? S? = .ok text := by
  cases S? with
  | none => exact ⟨"", rfl⟩
  | some S =>
    obtain ⟨text, htext⟩ := (h S rfl).exists_listing hr
    exact ⟨_, Outcome.map_eq_ok_iff.2 ⟨text, htext, rfl⟩⟩

end Report

namespace Settings

open Analysis Report

variable (c : Settings) (f : Function)

/-- Expressions that need the anticipated ones are asked for, and `f` has a critical arm, which the
settings do not let pass. -/
def Refuses : Prop :=
  (c.selection.anticipated = true ∨ c.selection.willBeAvailable = true) ∧
    c.requireSplitEdges = true ∧ ∃ x, f.IsCritical x

/-- Report `r` has what the settings ask for on `f`, each found on its own. -/
structure IsReport (r : Report) : Prop where
  /-- The report is on `f`. -/
  function_eq : r.function = f
  /-- Available expressions. -/
  available : IsEntry (c.selection.available = true) (Analysis.available.solve f).result
    r.available
  /-- Anticipated expressions, on functions without critical arms. -/
  anticipated : IsEntry (c.selection.anticipated = true ∧ ∀ x, ¬ f.IsCritical x)
    (Analysis.anticipated.solve f).result r.anticipated
  /-- Will-be-available expressions, on functions without critical arms. -/
  willBeAvailable : IsEntry (c.selection.willBeAvailable = true ∧ ∀ x, ¬ f.IsCritical x)
    (do Analysis.WillBeAvailable.solve (← Analysis.anticipated.solve f) f).result
    r.willBeAvailable
  /-- Live variables. -/
  liveness : IsEntry (c.selection.liveness = true) (Analysis.liveness.solve f).result r.liveness

/-- How a survey of `f` ends. -/
structure Surveys : Prop where
  /-- Refused for the first critical arm. -/
  refused : c.Refuses f → ∃ first, f.IsFirstCritical first ∧
    (c.survey f).result = .error (.refused (.criticalEdge first.source first.target))
  /-- With a report in all other cases. -/
  reported : ¬ c.Refuses f → ∃ r, (c.survey f).result = .ok r ∧ c.IsReport f r

/-- How a survey of a program ends. -/
structure SurveysAll (gather : Gather) (p : Program) : Prop where
  /-- It succeeds iff it does on every function. -/
  ok_iff : (∃ rs, (c.surveyAllBy gather p).result = .ok rs) ↔
    ∀ f ∈ p.functions, ∃ r, (c.survey f).result = .ok r
  /-- There is one report for each function, in the same order. -/
  reports : ∀ {rs}, (c.surveyAllBy gather p).result = .ok rs →
    rs.length = p.functions.length ∧ ∀ {k : Nat} {f}, p.functions[k]? = some f →
      ∃ r, rs[k]? = some r ∧ (c.survey f).result = .ok r
  /-- In order, the first failure is the answer. -/
  first_error : c.parallel = false → ∀ {e}, (c.surveyAllBy gather p).result = .error e ↔
    ∃ pre f post, p.functions = pre ++ f :: post ∧
      (∀ g ∈ pre, ∃ r, (c.survey g).result = .ok r) ∧ (c.survey f).result = .error e
  /-- Side by side, the failure of some function is. -/
  some_error : c.parallel = true → ∀ {e}, (c.surveyAllBy gather p).result = .error e →
    ∃ f ∈ p.functions, (c.survey f).result = .error e

variable {c f}

/-! ### The parts of a survey -/

theorem exists_selected {α : Type} (wanted : Bool) {x : Traced α} (h : ∃ a, x.result = .ok a) :
    ∃ entry, (selected wanted x).result = .ok entry ∧ IsEntry (wanted = true) x.result entry := by
  obtain ⟨a, ha⟩ := h
  cases wanted with
  | false => exact ⟨none, rfl, .of_not Bool.false_ne_true⟩
  | true =>
    refine ⟨some a, ?_, ⟨fun _ => ⟨a, ha, rfl⟩, fun h => absurd rfl h⟩⟩
    change (x >>= fun a => pure (some a)).result = _
    rw [Traced.result_bind, ha]
    rfl

theorem wantsAnticipated_iff : c.selection.wantsAnticipated = true ↔
    c.selection.anticipated = true ∨ c.selection.willBeAvailable = true := by
  rw [Selection.wantsAnticipated, Bool.or_eq_true]

theorem hasCriticalEdge_iff (hf : f.WellFormed) :
    f.hasCriticalEdge = true ↔ ∃ x, f.IsCritical x := by
  rw [← not_iff_not, not_exists, ← hf.criticalEdges_eq_nil_iff]
  simp [Function.hasCriticalEdge]

theorem surveyAnticipated_refused (hf : f.WellFormed) (h : c.Refuses f) :
    ∃ first, f.IsFirstCritical first ∧ (c.surveyAnticipated f).result =
      .error (.refused (.criticalEdge first.source first.target)) := by
  obtain ⟨hwants, hrequire, x, hx⟩ := h
  obtain ⟨first, hfirst, hant⟩ := anticipated_refused hf hx
  refine ⟨first, hfirst, ?_⟩
  rw [surveyAnticipated, wantsAnticipated_iff.2 hwants, hrequire, Bool.not_true, Bool.and_false]
  change (Analysis.anticipated.solve f >>= _).result = _
  rw [Traced.result_bind, hant]
  rfl

/-- On a function without critical arms, what needs the anticipated expressions is found as if on
its own. -/
theorem exists_surveyAnticipated_of_split (hf : f.WellFormed) (hsplit : ∀ x, ¬ f.IsCritical x)
    (hwants : c.selection.wantsAnticipated = true) :
    ∃ ant wba, (c.surveyAnticipated f).result = .ok (ant, wba) ∧
      IsEntry (c.selection.anticipated = true) (Analysis.anticipated.solve f).result ant ∧
      IsEntry (c.selection.willBeAvailable = true)
        (do Analysis.WillBeAvailable.solve (← Analysis.anticipated.solve f) f).result wba := by
  obtain ⟨ant, hant⟩ := (anticipated_solve_iff hf).2 hsplit
  obtain ⟨S, hS, -⟩ := exists_isComposed hf hant
  obtain ⟨wba, hwba, hentry⟩ := exists_selected c.selection.willBeAvailable ⟨S, hS⟩
  have hedge : f.hasCriticalEdge = false :=
    Bool.eq_false_iff.2 fun h => absurd ((hasCriticalEdge_iff hf).1 h) (not_exists.2 hsplit)
  refine ⟨if c.selection.anticipated then some ant else none, wba, ?_, ?_, ?_⟩
  · rw [surveyAnticipated, hwants, hedge]
    change (Analysis.anticipated.solve f >>= _).result = _
    rw [Traced.result_bind, hant, Outcome.ok_bind, Traced.result_bind, hwba]
    rfl
  · exact ⟨fun h => ⟨ant, hant, if_pos h⟩, fun h => if_neg h⟩
  · rw [Traced.result_bind, hant]
    exact hentry

/-- Unless the function is refused, what needs the anticipated expressions is found or left out. -/
theorem exists_surveyAnticipated (hf : f.WellFormed) (h : ¬ c.Refuses f) :
    ∃ ant wba, (c.surveyAnticipated f).result = .ok (ant, wba) ∧
      IsEntry (c.selection.anticipated = true ∧ ∀ x, ¬ f.IsCritical x)
        (Analysis.anticipated.solve f).result ant ∧
      IsEntry (c.selection.willBeAvailable = true ∧ ∀ x, ¬ f.IsCritical x)
        (do Analysis.WillBeAvailable.solve (← Analysis.anticipated.solve f) f).result wba := by
  by_cases hwants : c.selection.wantsAnticipated = true
  · by_cases hcritical : ∃ x, f.IsCritical x
    · -- not refused, so the settings let the function pass without these analyses
      have hrequire : c.requireSplitEdges = false :=
        Bool.eq_false_iff.2 fun hrequire =>
          h ⟨wantsAnticipated_iff.1 hwants, hrequire, hcritical⟩
      have hnot : ¬ ∀ x, ¬ f.IsCritical x := fun hsplit => not_exists.2 hsplit hcritical
      refine ⟨none, none, ?_, .of_not fun hw => hnot hw.2, .of_not fun hw => hnot hw.2⟩
      rw [surveyAnticipated, hwants, (hasCriticalEdge_iff hf).2 hcritical, hrequire]
      rfl
    · have hsplit := not_exists.1 hcritical
      simp only [hsplit, not_false_eq_true, implies_true, and_true]
      exact exists_surveyAnticipated_of_split hf hsplit hwants
  · have hnot := mt wantsAnticipated_iff.2 hwants
    refine ⟨none, none, ?_, .of_not fun hw => hnot (.inl hw.1), .of_not fun hw => hnot (.inr hw.1)⟩
    rw [surveyAnticipated, Bool.eq_false_iff.2 hwants]
    rfl

/-- Every solution in a report can be printed. -/
theorem IsReport.exists_text (hf : f.WellFormed) {r : Report} (h : c.IsReport f r) :
    ∃ text, r.text = .ok text := by
  have hcomposed : ∀ S, r.willBeAvailable = some S → S.Shaped f := by
    intro S hS
    have hok := h.willBeAvailable.eq_ok hS
    rw [Traced.result_bind, Outcome.bind_eq_ok_iff] at hok
    obtain ⟨ant, -, hjoin⟩ := hok
    exact (Solution.Found.joined hjoin).shaped hf
  have hr : r.function.WellFormed := by rwa [h.function_eq]
  obtain ⟨available, havailable⟩ := exists_section hr fun S hS =>
    Solution.shaped_of_solve hf (h.available.eq_ok hS) (Mode.must.checksWidth _)
  obtain ⟨anticipated, hanticipated⟩ := exists_section hr fun S hS =>
    Solution.shaped_of_solve hf (h.anticipated.eq_ok hS) (Mode.must.checksWidth _)
  obtain ⟨willBeAvailable, hwillBeAvailable⟩ := exists_section hr hcomposed
  obtain ⟨liveness, hliveness⟩ := exists_section hr fun S hS =>
    Solution.shaped_of_solve hf (h.liveness.eq_ok hS) (Mode.may.checksWidth _)
  refine ⟨available ++ anticipated ++ willBeAvailable ++ liveness, ?_⟩
  rw [text, havailable, hanticipated, hwillBeAvailable, hliveness]
  rfl

/-! ### Surveys of functions and programs -/

theorem survey_refused (hf : f.WellFormed) (h : c.Refuses f) :
    ∃ first, f.IsFirstCritical first ∧
      (c.survey f).result = .error (.refused (.criticalEdge first.source first.target)) := by
  obtain ⟨first, hfirst, hant⟩ := surveyAnticipated_refused hf h
  obtain ⟨available, havailable, -⟩ :=
    exists_selected c.selection.available (exists_available_solve hf)
  refine ⟨first, hfirst, ?_⟩
  rw [survey, Traced.result_bind, havailable, Outcome.ok_bind, Traced.result_bind, hant]
  rfl

theorem exists_survey (hf : f.WellFormed) (h : ¬ c.Refuses f) :
    ∃ r, (c.survey f).result = .ok r ∧ c.IsReport f r := by
  obtain ⟨available, havailable, havailable'⟩ :=
    exists_selected c.selection.available (exists_available_solve hf)
  obtain ⟨ant, wba, hant, hant', hwba'⟩ := exists_surveyAnticipated hf h
  obtain ⟨live, hlive, hlive'⟩ := exists_selected c.selection.liveness (exists_liveness_solve hf)
  have hreport : c.IsReport f ⟨f, available, ant, wba, live⟩ :=
    ⟨rfl, havailable', hant', hwba', hlive'⟩
  obtain ⟨text, htext⟩ := hreport.exists_text hf
  refine ⟨_, ?_, hreport⟩
  simp only [survey, Traced.result_bind, havailable, hant, hlive, Outcome.ok_bind,
    Traced.result_emit]
  split
  · simp only [Traced.result_bind, Traced.result_ofFault, htext]
    rfl
  · rfl

theorem surveyAllBy_eq_ok_iff {gather : Gather} (hgather : gather.IsFaithful) {p : Program}
    {rs : List Report} : (c.surveyAllBy gather p).result = .ok rs ↔
      List.Forall₂ (fun f r => (c.survey f).result = .ok r) p.functions rs := by
  unfold surveyAllBy
  split
  · rw [hgather.result_eq_ok_iff, List.forall₂_map_left_iff]
  · rw [Traced.result_mapM, Outcome.mapM_eq_ok_iff]

theorem surveysAll {gather : Gather} (hgather : gather.IsFaithful) (p : Program) :
    c.SurveysAll gather p where
  ok_iff := by
    simp only [surveyAllBy_eq_ok_iff hgather]
    constructor
    · rintro ⟨rs, hrs⟩ f hf
      obtain ⟨r, -, hr⟩ := Outcome.exists_right_of_mem hrs hf
      exact ⟨r, hr⟩
    · exact Outcome.exists_forall₂
  reports h := Outcome.getElem?_of_forall₂ ((surveyAllBy_eq_ok_iff hgather).1 h)
  first_error hparallel e := by
    rw [surveyAllBy, hparallel]
    change (p.functions.mapM c.survey).result = _ ↔ _
    rw [Traced.result_mapM, Outcome.mapM_eq_error_iff]
  some_error hparallel e h := by
    rw [surveyAllBy, hparallel] at h
    obtain ⟨run, hrun, he⟩ := hgather.exists_of_error h
    obtain ⟨f, hf, rfl⟩ := List.mem_map.1 hrun
    exact ⟨f, hf, he⟩

/-- **Surveys report what is asked for**, on every function and on every program, and fail on
functions for critical arms only. -/
theorem surveys_and_surveysAll (c : Settings) {gather : Gather} (hgather : gather.IsFaithful) :
    (∀ {draft : Draft} {f : Function}, draft.toFunction = .ok f → c.Surveys f) ∧
      ∀ p : Program, c.SurveysAll gather p := by
  refine ⟨fun hdraft => ?_, surveysAll hgather⟩
  have hf := Draft.wellFormed_of_toFunction hdraft
  exact ⟨survey_refused hf, exists_survey hf⟩

/-- A loop without critical arms, and a function with two of them. -/
theorem surveys_and_surveysAll_swap :
    Gather.inOrder.IsFaithful ∧ (∀ x, ¬ loopDraft.assemble.IsCritical x) ∧
      (∃ x, swapDraft.assemble.IsCritical x) ∧
      ∀ c : Settings, c.Surveys loopDraft.assemble ∧ c.Surveys swapDraft.assemble ∧
        c.SurveysAll .inOrder ⟨[loopDraft.assemble, swapDraft.assemble]⟩ := by
  have hloop := Draft.wellFormed_of_toFunction loopDraft_accepted
  have hswap := Draft.wellFormed_of_toFunction swapDraft_accepted
  have hsplit := hloop.criticalEdges_eq_nil_iff.1 rfl
  have hcritical := (hasCriticalEdge_iff hswap).1 (by decide)
  refine ⟨Gather.inOrder_isFaithful, hsplit, hcritical, fun c => ?_⟩
  obtain ⟨hone, hall⟩ := surveys_and_surveysAll c Gather.inOrder_isFaithful
  exact ⟨hone loopDraft_accepted, hone swapDraft_accepted, hall _⟩

end Settings

end FactFlow
