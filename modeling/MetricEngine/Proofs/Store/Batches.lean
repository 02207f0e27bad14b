import Mathlib.Data.List.Induction
import MetricEngine.Proofs.ListFacts
import MetricEngine.Store.Memory

/-!
What a store in memory holds. All batches of samples for one name and one table of tags are gathered in one
series; the series stand in the order of their first batches.
-/
namespace MetricEngine

/-- Samples that are inserted at once for a name and tags. -/
structure SampleBatch where
  name : String
  tags : Table String
  samples : List Sample

/-- The name and the tags by which a series is told apart from the others. -/
def StoredSeries.key (stored : StoredSeries) : String × Table String :=
  (stored.name, stored.tags)

namespace SampleBatch

/-- The key of the series that the samples belong to. -/
def key (batch : SampleBatch) : String × Table String :=
  (batch.name, batch.tags)

/-- The keys of all batches in the order in which they come up. -/
def keys (batches : List SampleBatch) : List (String × Table String) :=
  (batches.map key).eraseDups

/-- One series for each key, with the samples of all its batches. -/
def gathered (batches : List SampleBatch) : List StoredSeries :=
  (keys batches).map fun key =>
    ⟨key.1, key.2, (batches.filter (·.key = key)).flatMap (·.samples)⟩

end SampleBatch

namespace MemoryStore
open SampleBatch

/-- The store after batches were inserted one after the other. -/
def ofBatches (batches : List SampleBatch) : MemoryStore :=
  batches.foldl (fun store batch => store.insert batch.name batch.tags batch.samples)
    .empty

variable {stored : List StoredSeries} (key : String × Table String) {samples : List Sample}

theorem insertSeries_of_new (new : ∀ series ∈ stored, series.key ≠ key) :
    insertSeries key.1 key.2 samples stored = stored ++ [⟨key.1, key.2, samples⟩] := by
  induction stored with
  | nil => rfl
  | cons first rest ih =>
    obtain ⟨other, others⟩ := List.forall_mem_cons.mp new
    rw [insertSeries, if_neg fun same => other (Prod.ext same.1 same.2), ih others]
    rfl

/-- If no two series have one key, the samples go to the only one that has it. -/
theorem insertSeries_of_known (distinct : (stored.map (·.key)).Nodup)
    (known : key ∈ stored.map (·.key)) :
    insertSeries key.1 key.2 samples stored = stored.map fun series =>
      if series.key = key then { series with samples := series.samples ++ samples } else series := by
  induction stored with
  | nil => simp at known
  | cons first rest ih =>
    rw [List.map_cons, List.nodup_cons] at distinct
    rw [List.map_cons] at known ⊢
    by_cases here : first.key = key
    · have others : ∀ series ∈ rest, series.key ≠ key := by
        intro series member same
        exact distinct.1 (List.mem_map.mpr ⟨series, member, same.trans here.symm⟩)
      have same : rest.map (fun series => if series.key = key then
          { series with samples := series.samples ++ samples } else series) = rest.map id :=
        List.map_congr_left fun series member => if_neg (others series member)
      rw [insertSeries, if_pos (Prod.mk.inj here), if_pos here, same, List.map_id]
    · have elsewhere := (List.mem_cons.mp known).resolve_left fun same => here same.symm
      rw [insertSeries, if_neg fun same => here (Prod.ext same.1 same.2), if_neg here,
        ih distinct.2 elsewhere]

theorem gathered_keys (batches : List SampleBatch) :
    (gathered batches).map (·.key) = keys batches := by
  rw [gathered, List.map_map]
  exact List.map_id _

theorem keys_concat (batches : List SampleBatch) (last : SampleBatch) :
    keys (batches ++ [last]) =
      if last.key ∈ batches.map (·.key) then keys batches else keys batches ++ [last.key] := by
  rw [keys, List.map_append]
  exact ListFacts.eraseDups_concat (batches.map (·.key)) last.key

theorem gathered_concat (batches : List SampleBatch) (last : SampleBatch) :
    gathered (batches ++ [last]) = (keys (batches ++ [last])).map fun key =>
      ⟨key.1, key.2, (batches.filter (·.key = key)).flatMap (·.samples) ++
        if last.key = key then last.samples else []⟩ := by
  refine List.map_congr_left fun key _ => congrArg _ ?_
  rw [List.filter_append, List.flatMap_append]
  by_cases same : last.key = key <;> simp [same]

theorem gathered_concat_of_new {batches : List SampleBatch} {last : SampleBatch}
    (new : last.key ∉ batches.map (·.key)) :
    gathered (batches ++ [last]) = gathered batches ++ [⟨last.name, last.tags, last.samples⟩] := by
  have none : batches.filter (·.key = last.key) = [] := by
    apply List.filter_eq_nil_iff.mpr
    intro batch member
    simpa using fun same => new (List.mem_map.mpr ⟨batch, member, same⟩)
  have others : ∀ key ∈ keys batches, ¬last.key = key := by
    intro key member same
    exact new (List.mem_eraseDups.mp (same ▸ member))
  rw [gathered_concat, keys_concat, if_neg new, List.map_append]
  apply congrArg₂
  · refine List.map_congr_left fun key member => ?_
    simp [others key member]
  · simp only [List.map_cons, List.map_nil, none, List.flatMap_nil, List.nil_append, if_true]
    rfl

theorem gathered_concat_of_known {batches : List SampleBatch} {last : SampleBatch}
    (known : last.key ∈ batches.map (·.key)) :
    gathered (batches ++ [last]) = (gathered batches).map fun series =>
      if series.key = last.key then { series with samples := series.samples ++ last.samples }
      else series := by
  rw [gathered_concat, keys_concat, if_pos known, gathered, List.map_map]
  refine List.map_congr_left fun key _ => ?_
  by_cases same : last.key = key
  · simp [StoredSeries.key, same]
  · simp [StoredSeries.key, same, Ne.symm same]

/-- Inserting one more batch is the same as gathering it with the others. -/
theorem insertSeries_gathered (batches : List SampleBatch) (last : SampleBatch) :
    insertSeries last.name last.tags last.samples (gathered batches) =
      gathered (batches ++ [last]) := by
  have listed_iff : last.key ∈ (gathered batches).map (·.key) ↔ last.key ∈ batches.map (·.key) := by
    rw [gathered_keys]
    exact List.mem_eraseDups
  by_cases known : last.key ∈ batches.map (·.key)
  · rw [gathered_concat_of_known known]
    have distinct : ((gathered batches).map (·.key)).Nodup := by
      rw [gathered_keys]
      exact ListFacts.nodup_eraseDups _
    exact insertSeries_of_known last.key distinct (listed_iff.mpr known)
  · rw [gathered_concat_of_new known]
    have new : ∀ series ∈ gathered batches, series.key ≠ last.key := by
      intro series member same
      exact known (listed_iff.mp (same ▸ List.mem_map_of_mem member))
    exact insertSeries_of_new last.key new

/-- The store holds what has been gathered from the batches. -/
theorem series_ofBatches (batches : List SampleBatch) :
    (ofBatches batches).series = gathered batches := by
  induction batches using List.reverseRecOn with
  | nil => rfl
  | append_singleton batches last ih =>
    rw [ofBatches, List.foldl_append]
    exact (congrArg _ ih).trans (insertSeries_gathered batches last)

/-- The store stays up and answers without latency. -/
theorem ofBatches_up (batches : List SampleBatch) :
    (ofBatches batches).failure = none ∧ (ofBatches batches).latencyMillis = 0 := by
  induction batches using List.reverseRecOn with
  | nil => exact ⟨rfl, rfl⟩
  | append_singleton batches last ih =>
    rw [ofBatches, List.foldl_append]
    exact ih

end MemoryStore
end MetricEngine
