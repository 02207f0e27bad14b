import MetricEngine.Aggregation.Definition

/-!
A store that holds its series in memory. A query picks the series that match a metric, puts those
with equal grouping tags together and runs the metric's aggregators over the samples of each group.
-/
namespace MetricEngine

structure StoredSeries where
  name : String
  tags : Table String
  samples : List Sample

namespace StoredSeries

/-- The name agrees, and each filtered tag has one of the wanted values. -/
def matchesMetric (stored : StoredSeries) (metric : Metric) : Bool :=
  stored.name = metric.name && metric.tags.entries.all fun (tag, wanted) =>
    match stored.tags.get? tag with
    | some value => wanted.contains value
    | none => false

/-- The values of grouping tags; a series that lacks one belongs to no group. -/
def groupKey? (stored : StoredSeries) (tags : List String) : Option (List String) :=
  tags.mapM stored.tags.get?

def samplesIn (stored : StoredSeries) (range : TimeRange) : List Sample :=
  stored.samples.filter fun sample => range.contains sample.time

end StoredSeries

namespace Metric

/-- The stored series of one group, in the order in which they were first inserted. -/
structure Group where
  key : List String
  members : List StoredSeries

/-- Adds a series to the group with its key, keeping groups in ascending key order. -/
def joinGroup (key : List String) (stored : StoredSeries) : List Group → List Group
  | [] => [⟨key, [stored]⟩]
  | group :: rest =>
    if key < group.key then ⟨key, [stored]⟩ :: group :: rest
    else if key = group.key then { group with members := group.members ++ [stored] } :: rest
    else group :: joinGroup key stored rest

def groups (metric : Metric) (stored : List StoredSeries) : List Group :=
  (stored.filter (·.matchesMetric metric)).foldl
    (fun groups series =>
      match series.groupKey? metric.groupBy with
      | some key => joinGroup key series groups
      | none => groups)
    []

namespace Group

def tags (group : Group) : Table (List String) :=
  (group.members.flatMap (·.tags.entries)).foldl
    (fun tags (key, value) =>
      let values := (tags.get? key).getD []
      tags.insert key (if value ∈ values then values else values ++ [value]))
    .empty

def samplesIn (group : Group) (range : TimeRange) : List Sample :=
  group.members.flatMap (·.samplesIn range)

end Group

/-- The series that answers for one group. -/
def answerGroup (metric : Metric) (aggregations : List Aggregation) (range : TimeRange)
    (group : Group) : Series :=
  let samples := aggregations.foldl (fun samples a => a.apply samples) (group.samplesIn range)
  let series := { Series.named metric.name with tags := group.tags }.withValues samples
  if metric.groupBy.isEmpty then series
  else { series with groupBy := [.tag metric.groupBy (.ofList (metric.groupBy.zip group.key))] }

/-- The sample size counts the samples in range before any aggregation. -/
def answer (metric : Metric) (stored : List StoredSeries) (range : TimeRange) :
    Except Aggregation.AggregatorError QueryResult := do
  let aggregations ← metric.aggregators.mapM Aggregation.ofAggregator
  let groups := metric.groups stored
  return ⟨(groups.flatMap (·.samplesIn range)).length,
    groups.map (metric.answerGroup aggregations range)⟩

end Metric

structure MemoryStore where
  series : List StoredSeries
  /-- Set while every query is to fail. -/
  failure : Option StoreError
  latencyMillis : Nat

namespace MemoryStore

def empty : MemoryStore := ⟨[], none, 0⟩

/-- Appends samples to the series of a name and tags, which is added at the end if it is new. -/
def insertSeries (name : String) (tags : Table String) (samples : List Sample) :
    List StoredSeries → List StoredSeries
  | [] => [⟨name, tags, samples⟩]
  | stored :: rest =>
    if stored.name = name ∧ stored.tags = tags then
      { stored with samples := stored.samples ++ samples } :: rest
    else stored :: insertSeries name tags samples rest

def insert (store : MemoryStore) (name : String) (tags : Table String) (samples : List Sample) :
    MemoryStore :=
  { store with series := insertSeries name tags samples store.series }

end MemoryStore
end MetricEngine
