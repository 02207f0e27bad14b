import MetricEngine.Aggregation.Definition
import MetricEngine.Alert.Absence
import MetricEngine.Alert.Threshold
import MetricEngine.Heap

/-!
The operations of aggregate stages: how each is read from arguments, and what it makes of the
results of its inputs.
-/
namespace MetricEngine

/-- How many series to keep, and from which end of the ranking. -/
structure Ranking where
  count : Nat
  lowest : Bool
deriving DecidableEq

inductive Operation where
  | aggregate (aggregation : Aggregation)
  | diff
  | threshold (rule : ThresholdRule)
  | dataAbsent (rule : AbsenceRule)
  | union
  | rank (ranking : Ranking)

namespace Ranking

/-- One series is kept at least. -/
def make (count : Nat) (lowest : Bool) : Ranking := ⟨max count 1, lowest⟩

/-- The bottom is always ranked from the lowest; the top may be turned around. -/
def read (kind : AggregatorKind) : ArgumentReader Ranking := do
  let count := (← ArgumentReader.count? "count").getD 1
  if count < 1 then ArgumentReader.refuse "count" .lessThanOne
  if kind = .bottom then return ⟨count, true⟩
  return ⟨count, (← ArgumentReader.boolean? "invert").getD false⟩

/-- Orders scores from the best one on, which is the greatest, or the least if the lowest are wanted. -/
def place (ranking : Ranking) (score : Binary64) : Int :=
  if ranking.lowest then score.totalKey else -score.totalKey

/-- In a heap of series the worst one is in front. -/
def weight (ranking : Ranking) (series : Series) : Int :=
  ranking.place series.sum

/-- Takes one more series into the heap. If these are more than the count, a worst one goes. -/
def consider (ranking : Ranking) (heap : Array Series) (series : Series) : Array Series :=
  let heap := Heap.push ranking.weight heap series
  if ranking.count < heap.size then ((Heap.pop? ranking.weight true heap).map (·.2)).getD heap
  else heap

/-- The best series by the sum of their values, best first. Series with the same sum stand as the heap has
them, or, if the lowest are wanted, as they leave it. -/
def select (ranking : Ranking) (series : List Series) : List Series :=
  let heap := series.foldl ranking.consider #[]
  if ranking.lowest then Heap.drain ranking.weight heap []
  else heap.toList.mergeSort fun a b => ranking.weight a ≤ ranking.weight b

end Ranking

namespace Operation

def name : Operation → String
  | aggregate aggregation => aggregation.function.name
  | diff => "diff"
  | threshold _ => "threshold"
  | dataAbsent _ => "dataabsent"
  | union => "union"
  | rank ranking => if ranking.lowest then "bottom" else "top"

/-- The operation of a stage of its own for each kind of aggregator. -/
def read (kind : AggregatorKind) (defaults : PlanDefaults) : ArgumentReader Operation :=
  match kind with
  | .min | .max | .merge | .percentile | .count | .avg | .sum =>
    aggregate <$> Aggregation.read kind defaults.sampling
  | .diff => return diff
  | .threshold => threshold <$> ThresholdRule.read defaults
  | .dataAbsent => dataAbsent <$> AbsenceRule.read defaults
  | .union => return union
  | .top | .bottom => rank <$> Ranking.read kind

/-- What an operation does to each series by itself, if that is how it works. -/
def seriesMap? (operation : Operation) (now : Instant) : Option (Series → Series) :=
  match operation with
  | aggregate aggregation => some fun series => series.withValues (aggregation.apply series.values)
  | diff => some fun series => series.withValues (Sample.differences series.values)
  | threshold rule => some fun series => series.withWindows (rule.windows series.values)
  | dataAbsent rule => some fun series => series.withWindows (rule.windows now series.values)
  | union | rank _ => none

/-- Puts all series into one query, whose sample size is the sum of all; there is none if the sum does
not fit 64 bits. -/
def unite? (queries : List QueryResult) : Option QueryResult :=
  let sampleSize := (queries.map (·.sampleSize)).foldl (· + ·) 0
  if sampleSize ≤ Text.uint64Max then some ⟨sampleSize, queries.flatMap (·.series)⟩ else none

/-- The queries in the result of an operation, from the queries of all its inputs. -/
def queries? (operation : Operation) (now : Instant) (queries : List QueryResult) :
    Option (List QueryResult) :=
  match operation.seriesMap? now, operation with
  | some f, _ => some (queries.map (·.mapSeries f))
  | none, rank ranking => some [.ofSeries (ranking.select (queries.flatMap (·.series)))]
  | none, _ => (unite? queries).map fun query => [query]

/-- The result of an operation on the results of its inputs; only a union may have none. Warnings and
errors of the inputs are not handed on. -/
def result? (operation : Operation) (now : Instant) (inputs : List Result) : Option Result :=
  (operation.queries? now (inputs.flatMap (·.queries))).map Result.ofQueries

/-- How many triggers an operation adds to those that its inputs have. -/
def newTriggers (operation : Operation) (now : Instant) (inputs : List Result) : Nat :=
  let series := inputs.flatMap (·.series)
  match operation with
  | threshold rule => (series.flatMap fun s => rule.windows s.values).length
  | dataAbsent rule => (series.flatMap fun s => rule.windows now s.values).length
  | _ => 0

end Operation
end MetricEngine
