import MetricEngine.Series.Basic

/-!
What a program answers: for each query the series it found and how many samples were read, and
beside the queries the warnings of the build and the errors of the store.
-/
namespace MetricEngine

structure QueryResult where
  sampleSize : Nat
  series : List Series
deriving Inhabited

namespace QueryResult

/-- The sample size is the number of samples in the series. -/
def ofSeries (series : List Series) : QueryResult :=
  ⟨(series.flatMap (·.values)).length, series⟩

def mapSeries (f : Series → Series) (query : QueryResult) : QueryResult :=
  { query with series := query.series.map f }

def toJson (query : QueryResult) : Json :=
  .obj [("sample_size", .int query.sampleSize),
    ("results", .arr (query.series.map Series.toJson))]

def ofJson? (json : Json) : Option QueryResult := do
  let field ← json.record? ["sample_size", "results"]
  let sampleSize ← Json.withDefault 0 Json.asUInt64? (field "sample_size")
  let series ← Json.withDefault [] (Json.asList? Series.ofJson?) (field "results")
  return ⟨sampleSize, series⟩

end QueryResult

structure Result where
  queries : List QueryResult
  warnings : List String
  errors : List String
deriving Inhabited

namespace Result

def ofQueries (queries : List QueryResult) : Result :=
  ⟨queries, [], []⟩

def withWarnings (result : Result) (warnings : List String) : Result :=
  { result with warnings := result.warnings ++ warnings }

def withErrors (result : Result) (errors : List String) : Result :=
  { result with errors := result.errors ++ errors }

def series (result : Result) : List Series :=
  result.queries.flatMap (·.series)

def alerts (result : Result) : List Trigger :=
  result.series.flatMap (·.alerts)

def alertCount (result : Result) : Nat :=
  result.alerts.length

/-- The triggers that started more than `freshness` before `now`; late samples may still change the
others. -/
def activeAlerts (result : Result) (now : Instant) (freshness : Span) : List Trigger :=
  result.alerts.filter fun trigger => freshness < now.since trigger.time

/-- An empty list of texts is left out. -/
def textsField (key : String) (texts : List String) : List (String × Json) :=
  if texts.isEmpty then [] else [(key, .ofStrings texts)]

def toJson (result : Result) : Json :=
  .obj (("queries", .arr (result.queries.map QueryResult.toJson)) ::
    textsField "warnings" result.warnings ++ textsField "errors" result.errors)

def ofJson? (json : Json) : Option Result := do
  let field ← json.record? ["queries", "warnings", "errors"]
  let queries ← Json.withDefault [] (Json.asList? QueryResult.ofJson?) (field "queries")
  let warnings ← Json.withDefault [] Json.asStrings? (field "warnings")
  let errors ← Json.withDefault [] Json.asStrings? (field "errors")
  return ⟨queries, warnings, errors⟩

end Result
end MetricEngine
