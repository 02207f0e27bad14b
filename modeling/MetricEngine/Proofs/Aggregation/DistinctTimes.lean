import Mathlib.Data.List.Sort
import MetricEngine.Aggregation.Bucket
import MetricEngine.Proofs.ListFacts
import MetricEngine.Proofs.Time.Order

/-!
Samples with distinct instants. Their normal form only sorts them, aggregations do not depend on their
order, and what an aggregation makes of them has distinct instants again.
-/
namespace MetricEngine

namespace Sample

def Distinct (samples : List Sample) : Prop :=
  (samples.map (·.time)).Nodup

def Ascending (samples : List Sample) : Prop :=
  samples.Pairwise fun a b => a.time < b.time

instance (samples : List Sample) : Decidable (Ascending samples) :=
  inferInstanceAs (Decidable (List.Pairwise _ samples))

variable {samples : List Sample}

theorem sort_perm (samples : List Sample) : (sort samples).Perm samples :=
  List.mergeSort_perm _ _

theorem Distinct.sort (distinct : Distinct samples) : Distinct (sort samples) :=
  ((sort_perm samples).map _).nodup_iff.mpr distinct

theorem notLater_iff (a b : Sample) : notLater a b ↔ a.time ≤ b.time := by
  simp [notLater]

theorem sort_pairwise (samples : List Sample) :
    (sort samples).Pairwise fun a b => a.time ≤ b.time :=
  ListFacts.pairwise_mergeSort_of_key notLater_iff samples

theorem Distinct.sort_ascending (distinct : Distinct samples) : Ascending (Sample.sort samples) :=
  (sort_pairwise samples).imp₂ (fun _ _ => lt_of_le_of_ne) (List.pairwise_map.mp distinct.sort)

/-- Ascending samples are given by which samples they are. -/
theorem Ascending.eq_of_mem_iff {other : List Sample} (first : Ascending samples) (second : Ascending other)
    (same : ∀ sample, sample ∈ samples ↔ sample ∈ other) : samples = other := by
  have : Std.Irrefl fun a b : Sample => a.time < b.time := ⟨fun a => lt_irrefl a.time⟩
  have : Std.Antisymm fun a b : Sample => a.time < b.time :=
    ⟨fun a b before after => absurd before (lt_asymm after)⟩
  exact List.Pairwise.eq_of_mem_iff first second same

theorem sort_sort (samples : List Sample) : sort (sort samples) = sort samples :=
  List.mergeSort_of_pairwise ((sort_pairwise samples).imp fun le => by simpa [notLater] using le)

theorem Ascending.keepLast_eq (ascending : Ascending samples) : keepLast samples = samples := by
  induction ascending with
  | nil => rfl
  | @cons a rest above _ ih =>
    cases rest with
    | nil => rfl
    | cons b rest =>
      have different : a.time ≠ b.time := ne_of_lt (above b List.mem_cons_self)
      rw [keepLast, if_neg different, ih]

/-- The normal form of samples with distinct instants only sorts them. -/
theorem Distinct.normalize_eq (distinct : Distinct samples) :
    Sample.normalize samples = Sample.sort samples :=
  distinct.sort_ascending.keepLast_eq

/-! Runs of neighbours with one key. -/

section Runs
variable {key : Sample → Int}

theorem runs_head (key : Sample → Int) (samples : List Sample) :
    (runs key samples).head?.map (·.1) = samples.head?.map key := by
  cases samples with
  | nil => rfl
  | cons sample rest =>
    rw [runs]
    split
    next k run more _ =>
      by_cases same : key sample = k <;> simp [same]
    next => rfl

/-- The keys of the runs of a list in key order are strictly ascending. -/
theorem runs_ascending (sorted : samples.Pairwise fun a b => key a ≤ key b) :
    (runs key samples).Pairwise fun a b => a.1 < b.1 := by
  induction sorted with
  | nil => exact .nil
  | @cons sample rest above _ ih =>
    have head := runs_head key rest
    rw [runs]
    split
    next k run more found =>
      rw [found] at ih head
      obtain ⟨least, tail⟩ := List.pairwise_cons.mp ih
      split
      next same => exact List.pairwise_cons.mpr ⟨least, tail⟩
      next different =>
        obtain ⟨first, member, same⟩ := Option.map_eq_some_iff.mp head.symm
        have less : key sample < k := by
          have := above first (List.mem_of_head? member)
          dsimp only at same
          omega
        refine List.pairwise_cons.mpr ⟨?_, ih⟩
        intro later member
        rcases List.mem_cons.mp member with rfl | member
        · exact less
        · exact Int.lt_trans less (least later member)
    next => exact List.pairwise_singleton _ _

end Runs

theorem bucketNotLater_iff (period : Int) (a b : Sample) :
    bucketNotLater period a b ↔ a.bucketStart period ≤ b.bucketStart period := by
  simp [bucketNotLater]

theorem buckets_ascending (period : Int) (samples : List Sample) :
    (buckets period samples).Pairwise fun a b => a.1 < b.1 :=
  runs_ascending (ListFacts.pairwise_mergeSort_of_key (bucketNotLater_iff period) (sort samples))

/-! Differences. -/

theorem differences_sublist (samples : List Sample) :
    ((differences samples).map (·.time)).Sublist (samples.tail.map (·.time)) := by
  induction samples with
  | nil => exact .slnil
  | cons a rest ih =>
    cases rest with
    | nil => exact .slnil
    | cons b rest =>
      rw [differences]
      split
      · exact ih.cons_cons b.time
      · exact ih.cons b.time

end Sample

namespace Aggregation
open Sample

theorem bucketed_ascending (function : AggregationFunction) (period : Span) (samples : List Sample) :
    Ascending (bucketed function period samples) := by
  unfold bucketed Ascending
  rw [List.pairwise_filterMap]
  refine (buckets_ascending _ _).imp ?_
  rintro ⟨start, bucket⟩ ⟨later, other⟩ less a first b second
  simp only [Option.bind_eq_bind, Option.bind_eq_some_iff] at first second
  obtain ⟨time, is_start, value, _, built⟩ := first
  obtain ⟨time', is_later, value', _, built'⟩ := second
  obtain rfl := Option.some.inj built
  obtain rfl := Option.some.inj built'
  exact Instant.lt_of_ofMillis? is_start is_later less

theorem bucketed_distinct (function : AggregationFunction) (period : Span) (samples : List Sample) :
    Distinct (bucketed function period samples) :=
  List.pairwise_map.mpr ((bucketed_ascending function period samples).imp ne_of_lt)

variable {samples : List Sample}

/-- Aggregations sort the samples that they are given. -/
theorem apply_sort (aggregation : Aggregation) (samples : List Sample) :
    aggregation.apply (sort samples) = aggregation.apply samples := by
  obtain ⟨function, period⟩ := aggregation
  cases function <;> cases period <;> simp only [apply, bucketed, buckets, sort_sort]

theorem apply_distinct (aggregation : Aggregation) (distinct : Distinct samples) :
    Distinct (aggregation.apply samples) := by
  have differences : Distinct (differences (sort samples)) :=
    (differences_sublist _).nodup ((List.tail_sublist _).map _ |>.nodup distinct.sort)
  obtain ⟨function, period⟩ := aggregation
  cases function <;> cases period <;>
    first
    | exact differences
    | exact distinct.sort
    | exact bucketed_distinct _ _ _

/-- Aggregations may be applied to the normal form. -/
theorem apply_normalize (aggregation : Aggregation) (distinct : Distinct samples) :
    aggregation.apply (normalize samples) = aggregation.apply samples := by
  rw [distinct.normalize_eq, apply_sort]

theorem foldl_apply_distinct (aggregations : List Aggregation) (distinct : Distinct samples) :
    Distinct (aggregations.foldl (fun samples a => a.apply samples) samples) := by
  induction aggregations generalizing samples with
  | nil => exact distinct
  | cons aggregation rest ih => exact ih (apply_distinct aggregation distinct)

end Aggregation
end MetricEngine
