import MetricEngine.Accumulator
import MetricEngine.Program.Kind
import MetricEngine.Series.Sample

/-!
Aggregation of samples. Functions other than merging and differences work on buckets that are
aligned to the epoch; a bucket is answered by one sample at its start.
-/
namespace MetricEngine

inductive AggregationFunction where
  | min
  | max
  | merge
  | percentile (target : Binary64)
  | count
  | avg
  | sum
  | diff
deriving DecidableEq

namespace AggregationFunction

def kind : AggregationFunction → AggregatorKind
  | min => .min
  | max => .max
  | merge => .merge
  | percentile _ => .percentile
  | count => .count
  | avg => .avg
  | sum => .sum
  | diff => .diff

def name (function : AggregationFunction) : String :=
  function.kind.name

/-- The element whose place in the total order is the target share of the last place, rounded. -/
def percentileOf? (target : Binary64) (values : List Binary64) : Option Binary64 :=
  let last := values.length - 1
  let place := (target / Binary64.hundred * Binary64.ofNat last).roundToNat
  (values.mergeSort fun a b => a.totalKey ≤ b.totalKey)[Nat.min place last]?

/-- Combines the first value with the others from left to right. -/
def fold? (f : Binary64 → Binary64 → Binary64) : List Binary64 → Option Binary64
  | [] => none
  | first :: rest => some (rest.foldl f first)

/-- The value of a bucket. Counts take every sample; the other functions take the numeric values that
are not NaN, and have no value without one. -/
def bucketValue? (function : AggregationFunction) (samples : List Sample) : Option Binary64 :=
  let values := (Sample.numbers samples).filter fun x => !x.isNaN
  match function with
  | count => some (.ofNat samples.length)
  | min => fold? .min values
  | max => fold? .max values
  | sum => if values.isEmpty then none else some (CompensatedSum.ofList values).sum
  | avg => (RunningMean.ofList values).value?
  | percentile target => percentileOf? target values
  | merge | diff => none

end AggregationFunction

namespace Sample

/-- The start of the bucket that an instant falls into, in milliseconds. -/
def bucketStart (periodMillis : Int) (sample : Sample) : Int :=
  sample.time.millis / periodMillis * periodMillis

/-- Neighbours with one key form a run. -/
def runs {κ : Type} [DecidableEq κ] (key : Sample → κ) : List Sample → List (κ × List Sample)
  | [] => []
  | sample :: rest =>
    match runs key rest with
    | (k, run) :: more =>
      if key sample = k then (k, sample :: run) :: more else (key sample, [sample]) :: (k, run) :: more
    | [] => [(key sample, [sample])]

/-- Whether the bucket of `a` does not start after that of `b`. -/
def bucketNotLater (periodMillis : Int) (a b : Sample) : Bool :=
  a.bucketStart periodMillis ≤ b.bucketStart periodMillis

/-- The buckets of samples in ascending order, each with its samples in time order. The milliseconds
of a leap second are also those of the next second, so a later sample may fall into an earlier
bucket. -/
def buckets (periodMillis : Int) (samples : List Sample) : List (Int × List Sample) :=
  runs (bucketStart periodMillis) ((sort samples).mergeSort (bucketNotLater periodMillis))

/-- Each value less the one before it, at the later instant; a pair with a value that is not numeric
gives nothing. -/
def differences : List Sample → List Sample
  | a :: b :: rest =>
    match a.number?, b.number? with
    | some x, some y => ⟨b.time, .number (y - x)⟩ :: differences (b :: rest)
    | _, _ => differences (b :: rest)
  | _ => []

end Sample

/-- A function with the length of its buckets; only functions without buckets have none. -/
structure Aggregation where
  function : AggregationFunction
  period : Option Span
deriving DecidableEq

namespace Aggregation

/-- Buckets are a millisecond long at least. -/
def bucketMillis (period : Span) : Int :=
  max period.millis 1

/-- Buckets whose start is no instant are dropped. -/
def bucketed (function : AggregationFunction) (period : Span) (samples : List Sample) :
    List Sample :=
  (Sample.buckets (bucketMillis period) samples).filterMap fun (start, bucket) => do
    let time ← Instant.ofMillis? start
    let value ← function.bucketValue? bucket
    return ⟨time, .number value⟩

/-- Samples may come in any order and share instants; the answer is ascending by time. -/
def apply (aggregation : Aggregation) (samples : List Sample) : List Sample :=
  match aggregation.function, aggregation.period with
  | .merge, _ => Sample.sort samples
  | .diff, _ => Sample.differences (Sample.sort samples)
  | function, some period => bucketed function period samples
  | _, none => Sample.sort samples

end Aggregation
end MetricEngine
