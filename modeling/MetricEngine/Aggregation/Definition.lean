import MetricEngine.Aggregation.Bucket
import MetricEngine.Program.Arguments
import MetricEngine.Store.Query

/-!
Aggregations from the arguments of a stage, and their form in store queries. Decoding that form
gives the aggregation back.
-/
namespace MetricEngine

namespace Aggregation
open ArgumentReader

/-- The function of a liftable kind; a percentile must lie between 0 and 100. -/
def readFunction : AggregatorKind → ArgumentReader AggregationFunction
  | .min => return .min
  | .max => return .max
  | .merge => return .merge
  | .count => return .count
  | .avg => return .avg
  | .sum => return .sum
  | .diff => return .diff
  | .percentile => do
    let target ← requiredNumber "percentile"
    if Binary64.le 0 target && Binary64.le target .hundred then return .percentile target
    else refuse "percentile" (.notAPercentage target)
  | kind => throw (.unknownAggregator kind.name)

/-- A function with buckets takes its period or the default one, which must be positive. -/
def read (kind : AggregatorKind) (defaultPeriod : Span) : ArgumentReader Aggregation := do
  let function ← readFunction kind
  if kind.hasSampling then
    let period := (← period? "period").getD defaultPeriod
    if period ≤ .zero then refuse "period" .notPositive
    return ⟨function, some period⟩
  else return ⟨function, none⟩

def toAggregator (aggregation : Aggregation) : Aggregator where
  name := aggregation.function.name
  sampling := aggregation.period.map Sampling.ofSpan
  extra :=
    match aggregation.function with
    | .percentile target => Table.empty.insert "percentile" (.double target)
    | _ => .empty

inductive AggregatorError where
  | unsupported (name : String)
  | percentileMissing
  | periodNotPositive (name : String)
  /-- The bucket length is too large for a span. -/
  | periodOverflow

def AggregatorError.message : AggregatorError → String
  | .unsupported name => "unsupported aggregator '" ++ name ++ "'"
  | .percentileMissing => "percentile aggregator requires 'percentile'"
  | .periodNotPositive name => "aggregator '" ++ name ++ "' requires a positive sampling period"
  | .periodOverflow => "sampling period out of range"

def decodeFunction (aggregator : Aggregator) : Except AggregatorError AggregationFunction :=
  match AggregatorKind.ofName? aggregator.name with
  | some .min => .ok .min
  | some .max => .ok .max
  | some .merge => .ok .merge
  | some .count => .ok .count
  | some .avg => .ok .avg
  | some .sum => .ok .sum
  | some .diff => .ok .diff
  | some .percentile =>
    match (aggregator.extra.get? "percentile").bind Json.number? with
    | some target => .ok (.percentile target)
    | none => .error .percentileMissing
  | _ => .error (.unsupported aggregator.name)

def ofAggregator (aggregator : Aggregator) : Except AggregatorError Aggregation := do
  let function ← decodeFunction aggregator
  if function.kind.hasSampling then
    match aggregator.sampling with
    | none => throw (.periodNotPositive aggregator.name)
    | some sampling =>
      match sampling.span? with
      | none => throw .periodOverflow
      | some period =>
        if period ≤ .zero then throw (.periodNotPositive aggregator.name)
        return ⟨function, some period⟩
  else return ⟨function, none⟩

end Aggregation
end MetricEngine
