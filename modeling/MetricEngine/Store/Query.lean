import MetricEngine.Series.Result

/-!
Queries to a store and its answers. A query names metrics, each with a tag filter, grouping tags
and aggregators that the store applies in order.
-/
namespace MetricEngine

inductive SamplingUnit where
  | milliseconds
  | seconds
  | minutes
  | hours
  | days
deriving DecidableEq

namespace SamplingUnit

def name : SamplingUnit → String
  | milliseconds => "milliseconds"
  | seconds => "seconds"
  | minutes => "minutes"
  | hours => "hours"
  | days => "days"

def ofName? : String → Option SamplingUnit
  | "milliseconds" => some milliseconds
  | "seconds" => some seconds
  | "minutes" => some minutes
  | "hours" => some hours
  | "days" => some days
  | _ => none

def millis : SamplingUnit → Int
  | milliseconds => 1
  | seconds => 1000
  | minutes => 60000
  | hours => 3600000
  | days => 86400000

end SamplingUnit

/-- The length of the buckets of an aggregator. -/
structure Sampling where
  value : Int
  unit : SamplingUnit
deriving DecidableEq

namespace Sampling

/-- States a span of whole milliseconds in the largest unit that divides it. -/
def ofSpan (span : Span) : Sampling :=
  let millis := span.millis
  match [SamplingUnit.days, .hours, .minutes, .seconds].find? fun unit =>
      millis ≠ 0 ∧ millis % unit.millis = 0 with
  | some unit => ⟨millis / unit.millis, unit⟩
  | none => ⟨millis, .milliseconds⟩

/-- There is no span when the number of milliseconds is too large. -/
def span? (sampling : Sampling) : Option Span :=
  Span.ofMillis? (sampling.value * sampling.unit.millis)

def toJson (sampling : Sampling) : Json :=
  .obj [("value", .int sampling.value), ("unit", .str sampling.unit.name)]

def ofJson? (json : Json) : Option Sampling := do
  let field ← json.record? ["value", "unit"]
  let value ← Json.required Json.asInt64? (field "value")
  let unit ← Json.required (fun json => json.asWord?.bind SamplingUnit.ofName?) (field "unit")
  return ⟨value, unit⟩

end Sampling

/-- An aggregator as a query states it. -/
structure Aggregator where
  name : String
  sampling : Option Sampling
  extra : Table Json

namespace Aggregator

def toJson (aggregator : Aggregator) : Json :=
  .obj (("name", .str aggregator.name) ::
    (aggregator.sampling.toList.map fun s => ("sampling", s.toJson)) ++
    (if aggregator.extra.isEmpty then [] else [("extra", .ofTable id aggregator.extra)]))

def ofJson? (json : Json) : Option Aggregator := do
  let field ← json.record? ["name", "sampling", "extra"]
  let name ← Json.required Json.asString? (field "name")
  let sampling ← Json.optional Sampling.ofJson? (field "sampling")
  let extra ← Json.withDefault .empty (Json.asTable? some) (field "extra")
  return ⟨name, sampling, extra⟩

end Aggregator

structure Metric where
  name : String
  /-- For every key one of the listed values is wanted. -/
  tags : Table (List String)
  groupBy : List String
  aggregators : List Aggregator

namespace Metric

def ofJson? (json : Json) : Option Metric := do
  let field ← json.record? ["name", "tags", "group_by", "aggregators"]
  let name ← Json.required Json.asString? (field "name")
  let tags ← Json.withDefault .empty (Json.asTable? Json.asStrings?) (field "tags")
  let groupBy ← Json.withDefault [] Json.asStrings? (field "group_by")
  let aggregators ← Json.withDefault [] (Json.asList? Aggregator.ofJson?) (field "aggregators")
  return ⟨name, tags, groupBy, aggregators⟩

end Metric

structure Query where
  range : TimeRange
  metrics : List Metric

namespace Query

/-- Appends an aggregator to every metric. -/
def withAggregator (query : Query) (aggregator : Aggregator) : Query :=
  { query with
    metrics := query.metrics.map fun metric =>
      { metric with aggregators := metric.aggregators ++ [aggregator] } }

def ofJson? (json : Json) : Option Query := do
  let field ← json.record? ["range", "metrics"]
  let range ← Json.required TimeRange.ofJson? (field "range")
  let metrics ← Json.required (Json.asList? Metric.ofJson?) (field "metrics")
  return ⟨range, metrics⟩

end Query

/-- What a store found, with the errors that did not keep it from answering. -/
structure Response where
  queries : List QueryResult
  errors : List String
deriving Inhabited

namespace Response

def toResult (response : Response) : Result :=
  (Result.ofQueries response.queries).withErrors response.errors

def ofJson? (json : Json) : Option Response := do
  let field ← json.record? ["queries", "errors"]
  let queries ← Json.required (Json.asList? QueryResult.ofJson?) (field "queries")
  let errors ← Json.withDefault [] Json.asStrings? (field "errors")
  return ⟨queries, errors⟩

end Response

inductive StoreError where
  | unavailable (reason : String)
  | invalidQuery (reason : String)
  | backend (reason : String)
deriving DecidableEq

def StoreError.message : StoreError → String
  | .unavailable reason => "store unavailable: " ++ reason
  | .invalidQuery reason => "invalid query: " ++ reason
  | .backend reason => "backend failure: " ++ reason

end MetricEngine
