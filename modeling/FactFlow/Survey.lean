import FactFlow.Analysis.Available
import FactFlow.Analysis.Liveness
import FactFlow.Analysis.WillBeAvailable
import FactFlow.Survey.Report
import FactFlow.Survey.Settings

/-!
# Surveys

A survey runs the selected analyses over a function (`Settings.survey`) or over every function of a
program (`Settings.surveyAll`).  The anticipated expressions are solved once, also when only the
will-be-available ones, which build on them, are asked for.

Functions may be analyzed side by side.  In which order they then end, and which failure is seen
first, is up to a `Gather`.
-/

namespace FactFlow

/-- A way to gather the reports of functions that are analyzed side by side. -/
abbrev Gather := List (Traced Report) → Traced (List Report)

/-- One report after the other; the first failure ends the survey. -/
def Gather.inOrder : Gather := fun runs => runs.mapM id

namespace Settings

variable (c : Settings)

/-- The result of `x` if `wanted`. -/
def selected {α : Type} (wanted : Bool) (x : Traced α) : Traced (Option α) :=
  if wanted then do return some (← x) else return none

/-- The anticipated and the will-be-available expressions, as far as they are asked for. -/
def surveyAnticipated (f : Function) :
    Traced (Option (Solution Expression) × Option (Solution Expression)) := do
  if !c.selection.wantsAnticipated then return (none, none)
  else if f.hasCriticalEdge && !c.requireSplitEdges then
    .emit .warn ("skipping anticipated and will-be-available expressions for `" ++ f.name ++
      "`: " ++ toString f.criticalEdges.length ++ " critical edges")
    return (none, none)
  else
    let ant ← Analysis.anticipated.solve f
    let wba ← selected c.selection.willBeAvailable (Analysis.WillBeAvailable.solve ant f)
    return (if c.selection.anticipated then some ant else none, wba)

/-- Run the selected analyses over a function. -/
def survey (f : Function) : Traced Report := do
  let available ← selected c.selection.available (Analysis.available.solve f)
  let (anticipated, willBeAvailable) ← c.surveyAnticipated f
  let liveness ← selected c.selection.liveness (Analysis.liveness.solve f)
  let report : Report := { function := f, available, anticipated, willBeAvailable, liveness }
  .emit .info ("analyzed `" ++ f.name ++ "`: " ++ toString f.blockCount ++ " blocks, " ++
    toString f.instCount ++ " instructions, " ++ toString report.count ++ " analyses")
  if c.dump then
    let text ← .ofFault report.text
    .emit .debug text
  return report

/-- Run the selected analyses over every function of a program: side by side if the settings allow
it, and else in order, up to the first failure. -/
def surveyAllBy (gather : Gather) (p : Program) : Traced (List Report) :=
  if c.parallel then gather (p.functions.map c.survey) else p.functions.mapM c.survey

/-- Run the selected analyses over every function of a program, in order; the first failure ends
the survey. -/
def surveyAll (p : Program) : Traced (List Report) := c.surveyAllBy .inOrder p

end Settings

end FactFlow
