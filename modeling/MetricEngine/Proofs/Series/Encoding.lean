import MetricEngine.Series.Result
import MetricEngine.Proofs.Json.Records
import MetricEngine.Proofs.Time.Rfc3339

/-!
Results in JSON. What is written for a result is read back as that result, as long as no payload of a sample
nests deeper than the reader of the whole text goes.
-/
namespace MetricEngine
open Json

theorem Instant.decodes (t : Instant) : Decodes ofJson? toJson t := by
  rw [Decodes, toJson, ordered_str, ofJson?, asString?, Option.bind_some, Rfc3339.read?_render]

/-- A finite number, or a value that stands for a text and is not a number. -/
inductive SampleValue.Storable : SampleValue → Prop where
  | number {x : Binary64} : x.isFinite → Storable (.number x)
  | payload {json : Json} : json.Valid → json.number? = none → Storable (.payload json)

namespace Sample
variable {sample : Sample}

theorem decodes (storable : sample.value.Storable) : Decodes ofJson? toJson sample := by
  have value : SampleValue.ofJson (ordered sample.value.toJson) = sample.value := by
    generalize sample.value = value at storable ⊢
    cases storable with
    | number => rfl
    | payload valid opaque_value =>
      rw [SampleValue.toJson, valid.ordered_eq, SampleValue.ofJson, opaque_value]
  have time : Instant.ofJson? (ordered sample.time.toJson) = some sample.time := sample.time.decodes
  rw [Decodes, toJson, ofJson?, record?_ordered (by simp)]
  simp [find?, required, time, value]

theorem nestsWithin_toJson (depth : Nat) (sample : Sample) :
    nestsWithin (depth + 1) sample.toJson = nestsWithin depth sample.value.toJson := by
  rw [toJson, Instant.toJson, nestsWithin_obj]
  simp

end Sample

theorem Trigger.decodes (trigger : Trigger) : Decodes ofJson? toJson trigger := by
  obtain ⟨time, finish, message, args, groupBy⟩ := trigger
  have instant : ∀ t : Instant, Instant.ofJson? (ordered t.toJson) = some t := Instant.decodes
  have strings : ∀ table, asTable? asString? (ordered (ofTable str table)) = some table := fun table =>
    asTable?_ordered fun entry _ => asString?_ordered entry.2
  rw [Decodes, toJson, ofJson?, record?_ordered (by cases finish <;> simp)]
  cases finish with
  | none => simp [find?, required, Json.optional, instant, strings, ordered_str, asString?]
  | some finish =>
    have present : Json.optional Instant.ofJson? (some (ordered finish.toJson)) = some (some finish) := by
      have decoded := instant finish
      rw [Instant.toJson, ordered_str] at decoded ⊢
      simp [Json.optional, decoded]
    simp [find?, required, present, instant, strings, ordered_str, asString?]

theorem GroupBy.decodes (groupBy : GroupBy) : Decodes ofJson? toJson groupBy := by
  cases groupBy with
  | tag tags group =>
    obtain ⟨sorted, same, field⟩ := exists_ordered_obj
      [("kind", str "tag"), ("tags", ofStrings tags), ("group", ofTable str group)] (by simp)
    have kind : Json.find? "kind" sorted = some (str "tag") := by
      rw [field]
      exact congrArg some (ordered_str "tag")
    have tags_read : required asStrings? (Json.find? "tags" sorted) = some tags := by
      rw [field]
      exact asStrings?_ordered tags
    have group_read : required (asTable? asString?) (Json.find? "group" sorted) = some group := by
      rw [field]
      exact asTable?_ordered fun entry _ => asString?_ordered entry.2
    rw [Decodes, toJson, same]
    unfold ofJson?
    simp [record?, kind, tags_read, group_read, asString?]
  | type dataType =>
    obtain ⟨sorted, same, field⟩ := exists_ordered_obj
      [("kind", str "type"), ("type", str dataType)] (by simp)
    have kind : Json.find? "kind" sorted = some (str "type") := by
      rw [field]
      exact congrArg some (ordered_str "type")
    have type_read : required asString? (Json.find? "type" sorted) = some dataType := by
      rw [field]
      exact asString?_ordered dataType
    rw [Decodes, toJson, same]
    unfold ofJson?
    simp [record?, kind, type_read, asString?]

theorem Series.decodes {series : Series} (storable : ∀ sample ∈ series.values, sample.value.Storable) :
    Decodes ofJson? toJson series := by
  have name : asString? (ordered (str series.name)) = some series.name := asString?_ordered series.name
  have tags : asTable? asStrings? (ordered (ofTable ofStrings series.tags)) = some series.tags :=
    asTable?_ordered fun entry _ => asStrings?_ordered entry.2
  have values : asList? Sample.ofJson? (ordered (arr (series.values.map Sample.toJson))) =
      some series.values := asList?_ordered fun sample member => Sample.decodes (storable sample member)
  have alerts : asList? Trigger.ofJson? (ordered (arr (series.alerts.map Trigger.toJson))) =
      some series.alerts := asList?_ordered fun trigger _ => trigger.decodes
  have groupBy : asList? GroupBy.ofJson? (ordered (arr (series.groupBy.map GroupBy.toJson))) =
      some series.groupBy := asList?_ordered fun groupBy _ => groupBy.decodes
  rw [Decodes, toJson, ofJson?, record?_ordered (by simp)]
  simp [find?, required, withDefault, name, tags, values, alerts, groupBy]

/-- Every sample in the series of a query. -/
def QueryResult.samples (query : QueryResult) : List Sample :=
  query.series.flatMap (·.values)

theorem QueryResult.decodes {query : QueryResult} (storable : ∀ sample ∈ query.samples, sample.value.Storable) :
    Decodes ofJson? toJson query := by
  have size : asUInt64? (ordered (int query.sampleSize)) = some query.sampleSize := by
    simp [ordered, asUInt64?]
  have series : asList? Series.ofJson? (ordered (arr (query.series.map Series.toJson))) =
      some query.series := asList?_ordered fun series member =>
    Series.decodes fun sample there => storable sample (List.mem_flatMap.mpr ⟨series, member, there⟩)
  rw [Decodes, toJson, ofJson?, record?_ordered (by simp)]
  simp [find?, withDefault, size, series]

/-- Every sample in the series of a result. -/
def Result.samples (result : Result) : List Sample :=
  result.queries.flatMap (·.samples)

theorem Result.decodes {result : Result} (storable : ∀ sample ∈ result.samples, sample.value.Storable) :
    Decodes ofJson? toJson result := by
  obtain ⟨queries, warnings, errors⟩ := result
  have queries_read : asList? QueryResult.ofJson? (ordered (arr (queries.map QueryResult.toJson))) =
      some queries := asList?_ordered fun query member =>
    QueryResult.decodes fun sample there => storable sample (List.mem_flatMap.mpr ⟨query, member, there⟩)
  have texts : ∀ texts, asStrings? (ordered (ofStrings texts)) = some texts := asStrings?_ordered
  rw [Decodes, toJson, ofJson?, record?_ordered]
  · cases warnings <;> cases errors <;>
      simp [find?, textsField, withDefault, queries_read, texts]
  · cases warnings <;> cases errors <;> simp [textsField]

/-! How deep the text of a result nests. -/

theorem Trigger.nestsWithin_toJson (depth : Nat) (trigger : Trigger) :
    nestsWithin (depth + 2) trigger.toJson := by
  obtain ⟨time, finish, message, args, groupBy⟩ := trigger
  cases finish <;> simp [toJson, Instant.toJson, ofTable, nestsWithin_obj]

theorem GroupBy.nestsWithin_toJson (depth : Nat) (groupBy : GroupBy) :
    nestsWithin (depth + 2) groupBy.toJson := by
  cases groupBy <;> simp [toJson, ofTable, ofStrings, nestsWithin_obj, nestsWithin_arr]

theorem Series.nestsWithin_toJson (depth : Nat) (series : Series) :
    nestsWithin (depth + 4) series.toJson ↔
      ∀ sample ∈ series.values, nestsWithin (depth + 1) sample.value.toJson := by
  simp [toJson, ofTable, ofStrings, nestsWithin_obj, nestsWithin_arr, Sample.nestsWithin_toJson,
    Trigger.nestsWithin_toJson, GroupBy.nestsWithin_toJson]

theorem QueryResult.nestsWithin_toJson (depth : Nat) (query : QueryResult) :
    nestsWithin (depth + 6) query.toJson ↔
      ∀ sample ∈ query.samples, nestsWithin (depth + 1) sample.value.toJson := by
  rw [samples, List.forall_mem_flatMap]
  simp [toJson, nestsWithin_obj, nestsWithin_arr, Series.nestsWithin_toJson]

theorem Result.nestsWithin_textsField (depth : Nat) (key : String) (texts : List String) :
    (textsField key texts).all fun field => nestsWithin (depth + 1) field.2 := by
  unfold textsField
  split <;> simp [ofStrings, nestsWithin_arr]

theorem Result.nestsWithin_toJson (depth : Nat) (result : Result) :
    nestsWithin (depth + 8) result.toJson ↔
      ∀ sample ∈ result.samples, nestsWithin (depth + 1) sample.value.toJson := by
  rw [samples, List.forall_mem_flatMap, toJson, nestsWithin_obj, List.cons_append, List.all_cons,
    List.all_append, nestsWithin_textsField, nestsWithin_textsField, nestsWithin_arr]
  simp [QueryResult.nestsWithin_toJson]

/-! What is written for a result can be read. -/

theorem SampleValue.Storable.readable {value : SampleValue} (storable : value.Storable)
    (faithful : ∀ x, Mentions x value.toJson → x.isFinite → x.ReadsBack) : Readable value.toJson := by
  cases storable with
  | number finite => exact .double (faithful _ .double finite)
  | payload valid => exact valid.readable faithful

theorem Trigger.readable_toJson (trigger : Trigger) : Readable trigger.toJson := by
  obtain ⟨time, finish, message, args, groupBy⟩ := trigger
  cases finish <;> simp [toJson, Instant.toJson, readable_obj, readable_ofTable]

theorem GroupBy.readable_toJson (groupBy : GroupBy) : Readable groupBy.toJson := by
  cases groupBy <;> simp [toJson, ofStrings, readable_obj, readable_arr, readable_ofTable]

theorem Series.readable_toJson {series : Series}
    (values : ∀ sample ∈ series.values, Readable sample.value.toJson) : Readable series.toJson := by
  have samples : ∀ sample ∈ series.values, Readable sample.toJson := by
    intro sample member
    simp [Sample.toJson, Instant.toJson, readable_obj, values sample member]
  simpa [toJson, ofStrings, readable_obj, readable_arr, readable_ofTable, Trigger.readable_toJson,
    GroupBy.readable_toJson] using samples

theorem QueryResult.readable_toJson {query : QueryResult} (size : query.sampleSize ≤ Text.uint64Max)
    (values : ∀ sample ∈ query.samples, Readable sample.value.toJson) : Readable query.toJson := by
  have size_read : Readable (int query.sampleSize) :=
    .int (Int.le_trans (by decide) (Int.natCast_nonneg _)) (Int.ofNat_le.mpr size)
  rw [samples, List.forall_mem_flatMap] at values
  have series : ∀ series ∈ query.series, Readable series.toJson := fun series member =>
    series.readable_toJson (values series member)
  simpa [toJson, readable_obj, readable_arr, size_read] using series

theorem Result.readable_toJson {result : Result}
    (sizes : ∀ query ∈ result.queries, query.sampleSize ≤ Text.uint64Max)
    (values : ∀ sample ∈ result.samples, Readable sample.value.toJson) : Readable result.toJson := by
  rw [samples, List.forall_mem_flatMap] at values
  have queries : ∀ query ∈ result.queries, Readable query.toJson := fun query member =>
    query.readable_toJson (sizes query member) (values query member)
  have texts : ∀ key texts, ∀ field ∈ textsField key texts, Readable field.2 := by
    intro key texts
    unfold textsField
    split <;> simp [ofStrings, readable_arr]
  rw [toJson, readable_obj, List.cons_append, List.forall_mem_cons, List.forall_mem_append, readable_arr,
    List.forall_mem_map]
  exact ⟨queries, texts "warnings" result.warnings, texts "errors" result.errors⟩

end MetricEngine
