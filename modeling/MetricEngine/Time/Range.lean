import MetricEngine.Time.Rfc3339
import MetricEngine.Json.Record

/-!
Time ranges that contain both ends. A range that is put together from two instants must not start
after its end; one that is decoded is taken as it stands.
-/
namespace MetricEngine

structure TimeRange where
  start : Instant
  finish : Instant
deriving DecidableEq, Inhabited

namespace TimeRange

/-- The ends of a range that starts after its end. -/
structure Reversed where
  start : Instant
  finish : Instant

def Reversed.message (fault : Reversed) : String :=
  "start " ++ Rfc3339.render .numeric fault.start ++ " is after end " ++
    Rfc3339.render .numeric fault.finish

def make (start finish : Instant) : Except Reversed TimeRange :=
  if finish < start then .error ⟨start, finish⟩ else .ok ⟨start, finish⟩

/-- The range of a given length that ends at `now`, cut off at the earliest instant. -/
def endingAt (now : Instant) (lookback : Span) : TimeRange :=
  ⟨(now.sub? lookback).getD .earliest, now⟩

def contains (range : TimeRange) (t : Instant) : Bool :=
  range.start ≤ t && t ≤ range.finish

def length (range : TimeRange) : Span :=
  range.finish.since range.start

def text (range : TimeRange) : String :=
  "[" ++ Rfc3339.render .numeric range.start ++ ", " ++
    Rfc3339.render .numeric range.finish ++ "]"

end TimeRange

namespace Instant

def toJson (t : Instant) : Json :=
  .str (Rfc3339.render .zulu t)

def ofJson? (json : Json) : Option Instant :=
  json.asString?.bind Rfc3339.read?

end Instant

namespace TimeRange

def toJson (range : TimeRange) : Json :=
  .obj [("start", range.start.toJson), ("end", range.finish.toJson)]

def ofJson? (json : Json) : Option TimeRange := do
  let field ← json.record? ["start", "end"]
  let start ← Json.required Instant.ofJson? (field "start")
  let finish ← Json.required Instant.ofJson? (field "end")
  return ⟨start, finish⟩

end TimeRange
end MetricEngine
