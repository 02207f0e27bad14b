import MetricEngine.Time.Range
import MetricEngine.Json.Printer

/-!
Samples: a value at an instant. A store may answer with values that are not numbers; those are
carried along, and only a JSON number among them has a numeric view.
-/
namespace MetricEngine

inductive SampleValue where
  | number (value : Binary64)
  | payload (value : Json)
deriving Inhabited

namespace SampleValue

def number? : SampleValue → Option Binary64
  | number x => some x
  | payload json => json.number?

def display : SampleValue → String
  | number x => x.display
  | payload json => json.render

def toJson : SampleValue → Json
  | number x => .double x
  | payload json => json

/-- Every JSON number is read as a double. -/
def ofJson (json : Json) : SampleValue :=
  match json.number? with
  | some x => number x
  | none => payload json

end SampleValue

structure Sample where
  time : Instant
  value : SampleValue
deriving Inhabited

namespace Sample

def number? (sample : Sample) : Option Binary64 :=
  sample.value.number?

/-- Whether `a` is not later than `b`. -/
def notLater (a b : Sample) : Bool :=
  a.time ≤ b.time

/-- Ascending by time; samples of one instant keep their order. -/
def sort (samples : List Sample) : List Sample :=
  samples.mergeSort notLater

/-- Of neighbours at one instant the last stays. -/
def keepLast : List Sample → List Sample
  | a :: b :: rest => if a.time = b.time then keepLast (b :: rest) else a :: keepLast (b :: rest)
  | samples => samples

/-- Strictly ascending by time; of the samples of one instant the last given stays. -/
def normalize (samples : List Sample) : List Sample :=
  keepLast (sort samples)

/-- The numeric values of samples. -/
def numbers (samples : List Sample) : List Binary64 :=
  samples.filterMap number?

def toJson (sample : Sample) : Json :=
  .obj [("time", sample.time.toJson), ("value", sample.value.toJson)]

def ofJson? (json : Json) : Option Sample := do
  let field ← json.record? ["time", "value"]
  let time ← Json.required Instant.ofJson? (field "time")
  let value ← field "value"
  return ⟨time, .ofJson value⟩

end Sample
end MetricEngine
