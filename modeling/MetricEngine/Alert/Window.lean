import MetricEngine.Series.Basic

/-!
Windows of time in which an alert fires, and the triggers that they become on a series.
-/
namespace MetricEngine

/-- A window with the reason for which it opened; one without an end is still open. -/
structure AlertWindow where
  start : Instant
  finish : Option Instant
  message : String
deriving DecidableEq

namespace Series

/-- The tags with exactly one value, and the series' name as `name`. -/
def alertArgs (series : Series) : Table String :=
  let single := series.tags.entries.filterMap fun (tag, values) =>
    match values with
    | [value] => some (tag, value)
    | _ => none
  (Table.ofList single).insert "name" series.name

/-- All groups of the series together; later groups win. -/
def alertGroup (series : Series) : Table String :=
  series.groupBy.foldl
    (fun all groupBy =>
      match groupBy with
      | .tag _ group => all.union group
      | .type _ => all)
    .empty

/-- Appends a trigger for each window. -/
def withWindows (series : Series) (windows : List AlertWindow) : Series :=
  let args := series.alertArgs
  let group := series.alertGroup
  { series with
    alerts := series.alerts ++ windows.map fun window =>
      ⟨window.start, window.finish, window.message, args, group⟩ }

end Series
end MetricEngine
