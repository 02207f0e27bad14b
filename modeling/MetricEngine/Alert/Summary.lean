import MetricEngine.Series.Result

/-!
Summaries of alert evaluations: which groups of a metric fire. Only the result of one query on one
metric can be summarised, and its series must be told apart by grouping tags.
-/
namespace MetricEngine

inductive SummaryError where
  | queryCount (count : Nat)
  | noResults
  | mixedSeriesNames
  | missingGroupBy
deriving DecidableEq

def SummaryError.message : SummaryError → String
  | .queryCount count => "Expected exactly one query, got " ++ toString count
  | .noResults => "Expected at least one result"
  | .mixedSeriesNames => "All result metric names must be identical"
  | .missingGroupBy =>
    "All results must contain a tag group-by if there are multiple results"

/-- A group with at least one trigger. -/
structure FiringGroup where
  group : Table String
  triggers : Nat
  ongoing : Bool
deriving DecidableEq

structure AlertSummary where
  seriesName : String
  groupBys : List String
  firing : List FiringGroup
  window : Option TimeRange
deriving DecidableEq

namespace Series

def firingGroup? (series : Series) : Option FiringGroup :=
  if series.alerts.isEmpty then none
  else some {
    group := (series.tagGroup?.map (·.2)).getD .empty
    triggers := series.alerts.length
    ongoing := series.alerts.any (·.isOngoing) }

end Series

namespace AlertSummary

def ofSeries (first : Series) (series : List Series) : Except SummaryError AlertSummary := do
  if series.any fun s => s.name ≠ first.name then throw .mixedSeriesNames
  if 1 < series.length && series.any fun s => s.tagGroup?.isNone then throw .missingGroupBy
  return {
    seriesName := first.name
    groupBys := ((series.findSome? Series.tagGroup?).map (·.1)).getD []
    firing := series.filterMap Series.firingGroup?
    window := none }

def ofResult (result : Result) : Except SummaryError AlertSummary :=
  match result.queries with
  | [query] =>
    match query.series with
    | [] => .error .noResults
    | first :: _ => ofSeries first query.series
  | queries => .error (.queryCount queries.length)

def isFiring (summary : AlertSummary) : Bool :=
  !summary.firing.isEmpty

def FiringGroup.toJson (group : FiringGroup) : Json :=
  .obj [("group", .ofTable .str group.group), ("triggers", .int group.triggers),
    ("ongoing", .bool group.ongoing)]

def toJson (summary : AlertSummary) : Json :=
  .obj ([("series_name", .str summary.seriesName),
    ("group_bys", .ofStrings summary.groupBys),
    ("firing", .arr (summary.firing.map FiringGroup.toJson))] ++
    summary.window.toList.map fun range => ("query_window", range.toJson))

end AlertSummary
end MetricEngine
