import MetricEngine.Program.Kind

/-!
What the engine counts, and the names under which the counts are published.
-/
namespace MetricEngine

inductive Counter where
  | graphBuilds (success : Bool)
  | lifted (kind : AggregatorKind)
  | stageRuns (operation : String) (success : Bool)
  | stageDurations (operation : String)
  | storeQueries (success : Bool)
  | alertTriggers (kind : String)
deriving DecidableEq

namespace Counter

def statusText (success : Bool) : String :=
  if success then "success" else "error"

/-- A metric name with its labels. -/
def labelled (name : String) (labels : List (String × String)) : String :=
  let texts := labels.map fun (key, value) => key ++ "=\"" ++ value ++ "\""
  name ++ "\x7b" ++ String.intercalate "," texts ++ "\x7d"

def name : Counter → String
  | graphBuilds success => labelled "mql_graph_builds_total" [("status", statusText success)]
  | lifted kind => labelled "mql_lifted_aggregations_total" [("aggregator", kind.name)]
  | stageRuns operation success =>
    labelled "mql_stage_executions_total"
      [("operation", operation), ("status", statusText success)]
  | stageDurations operation =>
    labelled "mql_stage_duration_seconds_count" [("operation", operation)]
  | storeQueries success => labelled "mql_store_queries_total" [("status", statusText success)]
  | alertTriggers kind => labelled "mql_alert_triggers_total" [("kind", kind)]

end Counter

/-- The increments of counters, in the order in which they were made. -/
structure Tally where
  increments : List (Counter × Nat)

namespace Tally

def empty : Tally := ⟨[]⟩

def add (tally : Tally) (counter : Counter) (amount : Nat) : Tally :=
  ⟨tally.increments ++ [(counter, amount)]⟩

def append (tally other : Tally) : Tally :=
  ⟨tally.increments ++ other.increments⟩

def total (tally : Tally) (counter : Counter) : Nat :=
  (tally.increments.filter (·.1 = counter)).foldl (fun total increment => total + increment.2) 0

/-- The counters that are not zero, with their totals. -/
def totals (tally : Tally) : List (Counter × Nat) :=
  let counters := (tally.increments.map (·.1)).eraseDups
  (counters.map fun counter => (counter, tally.total counter)).filter (·.2 ≠ 0)

end Tally
end MetricEngine
