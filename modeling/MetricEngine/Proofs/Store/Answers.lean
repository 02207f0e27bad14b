import MetricEngine.Proofs.Series.NormalForm
import MetricEngine.Proofs.Store.Batches
import MetricEngine.Proofs.Store.Groups
import MetricEngine.Store.Backend

/-!
What a store in memory answers to queries without aggregators. The answer has one series for each tuple of
grouping values; it combines the samples and the tags of all stored series that carry the tuple.
-/
namespace MetricEngine

namespace Metric

/-- The values of a tag in the order in which the series bring them in, each once. -/
def valuesOf (tag : String) (series : List StoredSeries) : List String :=
  (series.filterMap (·.tags.get? tag)).eraseDups

/-- The values of a tag in a table; no value stands for no entry. -/
def listed? : List String → Option (List String)
  | [] => none
  | first :: others => some (first :: others)

theorem listed?_getD (values : List String) : (listed? values).getD [] = values := by
  cases values <;> rfl

theorem listed?_eq_some_iff {values given : List String} :
    listed? values = some given ↔ given ≠ [] ∧ given = values := by
  cases values with
  | nil => simp [listed?]
  | cons first others =>
    rw [listed?, Option.some.injEq]
    constructor
    · rintro rfl
      exact ⟨by simp, rfl⟩
    · rintro ⟨_, rfl⟩
      rfl

namespace Group

/-- Collecting entries keeps the distinct values of each tag. -/
theorem foldl_tags_get? (entries : List (String × String)) (tag : String) :
    (entries.foldl
      (fun (tags : Table (List String)) (key, value) =>
        let values := (tags.get? key).getD []
        tags.insert key (if value ∈ values then values else values ++ [value]))
      .empty).get? tag =
    listed? (entries.filterMap fun entry => if entry.1 = tag then some entry.2 else none).eraseDups := by
  induction entries using List.reverseRecOn with
  | nil => rfl
  | append_singleton entries last ih =>
    obtain ⟨key, value⟩ := last
    rw [List.foldl_append, List.foldl_cons, List.foldl_nil, Table.get?_insert, List.filterMap_append]
    by_cases here : tag = key
    · subst here
      have values : (entries ++ [(tag, value)]).filterMap
          (fun entry => if entry.1 = tag then some entry.2 else none) =
          entries.filterMap (fun entry => if entry.1 = tag then some entry.2 else none) ++ [value] := by
        simp
      rw [List.filterMap_append] at values
      rw [if_pos rfl, ih, listed?_getD, values, ListFacts.eraseDups_concat]
      refine (listed?_eq_some_iff.mpr ⟨?_, by simp only [List.mem_eraseDups]⟩).symm
      split
      next known => exact List.ne_nil_of_mem known
      next => simp
    · have other : ¬key = tag := fun same => here same.symm
      rw [if_neg here, ih]
      simp [other]

theorem tags_get? (group : Group) (tag : String) :
    group.tags.get? tag = listed? (valuesOf tag group.members) := by
  rw [tags, foldl_tags_get?, List.filterMap_flatMap, valuesOf, List.filterMap_eq_flatMap_toList]
  simp only [Table.filterMap_entries]

end Group

/-- The samples of series in a range that has both its ends. -/
def inRange (range : TimeRange) (series : List StoredSeries) : List Sample :=
  series.flatMap fun stored => stored.samples.filter fun sample =>
    range.start ≤ sample.time && sample.time ≤ range.finish

/-- What a series says of the stored series that contribute to it. -/
structure Combines (metric : Metric) (range : TimeRange) (contributors : List StoredSeries)
    (series : Series) : Prop where
  name : series.name = metric.name
  alerts : series.alerts = []
  ungrouped : metric.groupBy = [] → series.groupBy = []
  grouped : metric.groupBy ≠ [] → ∃ group, series.groupBy = [.tag metric.groupBy group] ∧
    ∀ stored ∈ contributors, ∀ tag,
      group.get? tag = if tag ∈ metric.groupBy then stored.tags.get? tag else none
  tags : ∀ tag values, series.tags.get? tag = some values ↔
    values ≠ [] ∧ values = valuesOf tag contributors
  ascending : Sample.Ascending series.values
  /-- Of the samples of one instant the last one stays. -/
  latest : ∀ sample, sample ∈ series.values ↔
    ((inRange range contributors).filter (·.time = sample.time)).getLast? = some sample

/-- An answer with one series for each tuple of grouping values that some held series contribute to. -/
structure GroupedBy (metric : Metric) (range : TimeRange) (held : List StoredSeries)
    (tuples : List (List String)) (answer : QueryResult) : Prop where
  ascending : tuples.Pairwise (· < ·)
  mem_iff : ∀ tuple, tuple ∈ tuples ↔ ∃ stored ∈ held, stored.Contributes metric tuple
  together : ∀ stored ∈ held, ∀ other ∈ held, ∀ tuple tuple',
    stored.Contributes metric tuple → other.Contributes metric tuple' →
    (tuple = tuple' ↔ ∀ tag ∈ metric.groupBy, stored.tags.get? tag = other.tags.get? tag)
  series : List.Forall₂ (fun tuple => metric.Combines range (metric.contributors held tuple)) tuples
    answer.series
  sampleSize : answer.sampleSize =
    (tuples.flatMap fun tuple => inRange range (metric.contributors held tuple)).length

variable {metric : Metric} {held : List StoredSeries} {group : Group}

theorem groupBy_table {stored : StoredSeries}
    (contributes : stored ∈ metric.contributors held group.key) (tag : String) :
    (Table.ofList (metric.groupBy.zip group.key)).get? tag =
      if tag ∈ metric.groupBy then stored.tags.get? tag else none := by
  have given : stored.Contributes metric group.key := by
    simpa using (List.mem_filter.mp contributes).2
  have paired : List.Forall₂ (fun tag value => stored.tags.get? tag = some value) metric.groupBy
      group.key := by
    have same : List.Forall₂ Eq (metric.groupBy.map stored.tags.get?) (group.key.map some) := by
      rw [List.forall₂_eq_eq_eq]
      exact given.carries
    rwa [List.forall₂_map_left_iff, List.forall₂_map_right_iff] at same
  have agree : ∀ entry ∈ metric.groupBy.zip group.key, stored.tags.get? entry.1 = some entry.2 :=
    fun entry listed => (List.forall₂_iff_zip.mp paired).2 listed
  rw [Table.get?_ofList agree, List.map_fst_zip (Nat.le_of_eq paired.length_eq)]

theorem answerGroup_combines (member : group ∈ metric.groups held) (range : TimeRange) :
    metric.Combines range (metric.contributors held group.key) (metric.answerGroup [] range group) := by
  have members := members_of_mem_groups member
  have values : (metric.answerGroup [] range group).values =
      Sample.normalize (inRange range (metric.contributors held group.key)) := by
    rw [← members, answerGroup]
    split <;> rfl
  have tags : (metric.answerGroup [] range group).tags = group.tags := by
    rw [answerGroup]
    split <;> rfl
  constructor
  case name =>
    rw [answerGroup]
    split <;> rfl
  case alerts =>
    rw [answerGroup]
    split <;> rfl
  case ungrouped =>
    intro none
    rw [answerGroup, if_pos (List.isEmpty_iff.mpr none)]
    rfl
  case grouped =>
    intro grouped
    refine ⟨_, ?_, fun stored contributes tag => groupBy_table contributes tag⟩
    rw [answerGroup, if_neg (by simpa using grouped)]
  case tags =>
    intro tag given
    rw [tags, Group.tags_get?, members, listed?_eq_some_iff]
  case ascending =>
    rw [values]
    exact Sample.normalize_ascending _
  case latest =>
    intro sample
    rw [values]
    exact Sample.mem_normalize_iff

/-- The answer to a metric whose aggregators play no part. -/
def groupedAnswer (metric : Metric) (held : List StoredSeries) (range : TimeRange) : QueryResult :=
  ⟨((metric.groups held).flatMap (·.samplesIn range)).length,
    (metric.groups held).map (metric.answerGroup [] range)⟩

theorem answer_of_plain (plain : metric.aggregators = []) (held : List StoredSeries)
    (range : TimeRange) : metric.answer held range = .ok (metric.groupedAnswer held range) := by
  rw [answer, plain]
  rfl

theorem groupedAnswer_groupedBy (metric : Metric) (held : List StoredSeries) (range : TimeRange) :
    metric.GroupedBy range held ((metric.groups held).map (·.key))
      (metric.groupedAnswer held range) where
  ascending := List.pairwise_map.mpr (groups_gather metric held).ascending
  mem_iff _ := mem_groups_keys_iff
  together _ _ _ _ _ _ first second := first.same_iff second
  series := by
    rw [groupedAnswer, List.forall₂_map_left_iff, List.forall₂_map_right_iff, List.forall₂_same]
    intro group member
    exact answerGroup_combines member range
  sampleSize := by
    rw [groupedAnswer, List.flatMap_map]
    refine congrArg List.length (List.flatMap_congr fun group member => ?_)
    rw [← members_of_mem_groups member]
    rfl

end Metric

/-- A store to which batches of samples were inserted answers each metric without aggregators by the
groups of the series that have been gathered from the batches. -/
theorem MemoryStore.answers_groups (batches : List SampleBatch) (query : Query)
    (plain : ∀ metric ∈ query.metrics, metric.aggregators = []) :
    ∃ answers, (ofBatches batches).reply query = ⟨0, .answered ⟨answers, []⟩⟩ ∧
      List.Forall₂ (fun metric answer => ∃ tuples,
        metric.GroupedBy query.range (SampleBatch.gathered batches) tuples answer) query.metrics answers := by
  obtain ⟨up, no_latency⟩ := ofBatches_up batches
  have answered : (query.metrics.mapM fun metric =>
      metric.answer (SampleBatch.gathered batches) query.range) =
      .ok (query.metrics.map fun metric =>
        metric.groupedAnswer (SampleBatch.gathered batches) query.range) :=
    ListFacts.mapM_except_ok fun metric member => Metric.answer_of_plain (plain metric member) _ _
  refine ⟨query.metrics.map fun metric =>
    metric.groupedAnswer (SampleBatch.gathered batches) query.range, ?_, ?_⟩
  · rw [reply, outcome, up, no_latency, series_ofBatches]
    dsimp only
    rw [answered]
  · rw [List.forall₂_map_right_iff, List.forall₂_same]
    intro metric _
    exact ⟨_, Metric.groupedAnswer_groupedBy metric _ _⟩

/-- Two hosts, of which the first comes up twice, and a series without a host. -/
def hostBatches : List SampleBatch :=
  [(["b"], 1), (["a"], 2), ([], 3), (["a"], 4)].map fun (hosts, load) =>
    ⟨"cpu", .ofList (hosts.map fun host => ("host", host)), [⟨.epoch, .number (.ofNat load)⟩]⟩

def cpuByHost : Metric := ⟨"cpu", .empty, ["host"], []⟩

theorem hostBatches_answered : ∃ answer,
    (MemoryStore.ofBatches hostBatches).reply ⟨⟨.epoch, .epoch⟩, [cpuByHost]⟩ =
      ⟨0, .answered ⟨[answer], []⟩⟩ ∧
    ∃ tuples, cpuByHost.GroupedBy ⟨.epoch, .epoch⟩ (SampleBatch.gathered hostBatches) tuples answer ∧
      ["a"] ∈ tuples ∧ ["b"] ∈ tuples := by
  obtain ⟨answers, answered, grouped⟩ :=
    MemoryStore.answers_groups hostBatches ⟨⟨.epoch, .epoch⟩, [cpuByHost]⟩ (by decide)
  cases grouped with
  | cons first rest =>
    cases rest
    obtain ⟨tuples, groups⟩ := first
    exact ⟨_, answered, tuples, groups, (groups.mem_iff _).mpr (by decide),
      (groups.mem_iff _).mpr (by decide)⟩

end MetricEngine
