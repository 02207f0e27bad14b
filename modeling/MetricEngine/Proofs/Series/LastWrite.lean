import Mathlib
import MetricEngine.Proofs.Series.NormalForm
import MetricEngine.Series.Basic

/-!
Samples as writes by time. The values of a series are what a map keyed by time holds after all samples were
written to it one after the other: the last sample of each instant, in the order of the instants. So only the
order among samples of one instant matters, and samples may be brought into normal form before others follow.
-/
namespace MetricEngine

namespace ListFacts
variable {α : Type}

theorem filter_eq_map_places (p : α → Bool) (xs : List α) :
    xs.filter p = ((List.finRange xs.length).filter fun i => p xs[i]).map fun i => xs[i] := by
  conv_lhs => rw [← List.map_get_finRange xs, List.filter_map]
  rfl

/-- The elements of a kind follow each other as before if they move to places that keep their order. -/
theorem filter_eq_of_places {xs ys : List α} {place : Fin ys.length ≃ Fin xs.length} {p : α → Bool}
    (same : ∀ i, ys[i] = xs[place i])
    (keeps : ∀ i j, p ys[i] → p ys[j] → i < j → place i < place j) : ys.filter p = xs.filter p := by
  have ascending : (((List.finRange ys.length).filter fun i => p ys[i]).map place).Pairwise (· < ·) := by
    refine List.pairwise_map.mpr (((List.pairwise_lt_finRange _).filter _).imp_of_mem ?_)
    intro i j i_kept j_kept before
    exact keeps i j (List.mem_filter.mp i_kept).2 (List.mem_filter.mp j_kept).2 before
  -- Both lists of places ascend, so they are equal once they have the same places.
  have places : ((List.finRange ys.length).filter fun i => p ys[i]).map place =
      (List.finRange xs.length).filter fun i => p xs[i] := by
    refine List.Pairwise.eq_of_mem_iff ascending ((List.pairwise_lt_finRange _).filter _) fun i => ?_
    constructor
    · intro member
      obtain ⟨j, kept, rfl⟩ := List.mem_map.mp member
      refine List.mem_filter.mpr ⟨List.mem_finRange _, ?_⟩
      rw [← same]
      exact (List.mem_filter.mp kept).2
    · intro member
      obtain ⟨j, rfl⟩ := place.surjective i
      refine List.mem_map.mpr ⟨j, List.mem_filter.mpr ⟨List.mem_finRange _, ?_⟩, rfl⟩
      rw [same]
      exact (List.mem_filter.mp member).2
  rw [filter_eq_map_places p ys, filter_eq_map_places p xs, ← places, List.map_map]
  exact List.map_congr_left fun i _ => same i

end ListFacts

namespace Sample
variable {samples other : List Sample} {sample : Sample} {time : Instant}

/-- None of the samples behind this one has its instant. -/
def LastIn (samples : List Sample) (sample : Sample) : Prop :=
  ∃ before after, samples = before ++ sample :: after ∧ ∀ later ∈ after, later.time ≠ sample.time

/-- The same samples at places that keep the order among samples of one instant. -/
def Rearranged (samples other : List Sample) : Prop :=
  ∃ place : Fin other.length ≃ Fin samples.length,
    (∀ i, other[i] = samples[place i]) ∧
    ∀ i j, other[i].time = other[j].time → i < j → place i < place j

/-- Writes samples one after the other to a map keyed by time. -/
def writeAll (samples : List Sample) : Std.TreeMap Instant SampleValue :=
  samples.foldl (fun written sample => written.insert sample.time sample.value) ∅

/-- The last of the samples at an instant. -/
def lastAt? (samples : List Sample) (time : Instant) : Option Sample :=
  (samples.filter (·.time = time)).getLast?

theorem lastAt?_eq_some_iff :
    lastAt? samples time = some sample ↔ LastIn samples sample ∧ sample.time = time := by
  rw [lastAt?, List.getLast?_filter, List.find?_eq_some_iff_append, decide_eq_true_eq]
  constructor
  · rintro ⟨rfl, after, before, split, others⟩
    refine ⟨⟨before.reverse, after.reverse, ?_, fun later member => ?_⟩, rfl⟩
    · simpa using congrArg List.reverse split
    · simpa using others later (List.mem_reverse.mp member)
  · rintro ⟨⟨before, after, rfl, others⟩, rfl⟩
    refine ⟨rfl, after.reverse, before.reverse, by simp, fun later member => ?_⟩
    simpa using others later (List.mem_reverse.mp member)

theorem exists_lastAt?_iff :
    (∃ sample, lastAt? samples time = some sample) ↔ ∃ sample ∈ samples, sample.time = time := by
  rw [← Option.isSome_iff_exists, lastAt?, List.getLast?_isSome, Ne, List.filter_eq_nil_iff]
  simp

theorem lastAt?_append (samples more : List Sample) (time : Instant) :
    lastAt? (samples ++ more) time = (lastAt? more time).or (lastAt? samples time) := by
  rw [lastAt?, List.filter_append, List.getLast?_append]
  rfl

/-! The normal form has the last sample of each instant and no other. -/

theorem mem_normalize_iff_lastIn : sample ∈ normalize samples ↔ LastIn samples sample := by
  rw [mem_normalize_iff]
  exact lastAt?_eq_some_iff.trans (and_iff_left rfl)

theorem lastAt?_normalize (samples : List Sample) (time : Instant) :
    lastAt? (normalize samples) time = lastAt? samples time := by
  refine Option.ext fun sample => ?_
  rw [lastAt?_eq_some_iff, lastAt?_eq_some_iff, ← mem_normalize_iff_lastIn, ← mem_normalize_iff_lastIn,
    normalize_normalize]

/-- The normal form depends only on the last samples. -/
theorem normalize_congr (same : ∀ time, lastAt? samples time = lastAt? other time) :
    normalize samples = normalize other := by
  refine (normalize_ascending samples).eq_of_mem_iff (normalize_ascending other) fun sample => ?_
  rw [mem_normalize_iff, mem_normalize_iff]
  exact iff_of_eq (congrArg (· = some sample) (same sample.time))

theorem normalize_normalize_append (samples more : List Sample) :
    normalize (normalize samples ++ more) = normalize (samples ++ more) :=
  normalize_congr fun time => by rw [lastAt?_append, lastAt?_append, lastAt?_normalize]

/-- At each instant rearranged samples are the same ones in the same order. -/
theorem Rearranged.filter_eq (rearranged : Rearranged samples other) (time : Instant) :
    other.filter (·.time = time) = samples.filter (·.time = time) := by
  obtain ⟨place, same, keeps⟩ := rearranged
  refine ListFacts.filter_eq_of_places same fun i j i_time j_time before => ?_
  rw [decide_eq_true_eq] at i_time j_time
  exact keeps i j (i_time.trans j_time.symm) before

theorem Rearranged.normalize_eq (rearranged : Rearranged samples other) :
    normalize other = normalize samples :=
  normalize_congr fun time => by rw [lastAt?, lastAt?, rearranged.filter_eq]

/-! The map keyed by time. -/

theorem writeAll_getElem? (samples : List Sample) (time : Instant) :
    (writeAll samples)[time]? = (lastAt? samples time).map (·.value) := by
  induction samples using List.reverseRecOn with
  | nil => rfl
  | append_singleton samples sample ih =>
    rw [writeAll] at ih ⊢
    rw [List.foldl_concat, Std.TreeMap.getElem?_insert, ih, lastAt?_append]
    by_cases here : sample.time = time <;> simp [lastAt?, here]

/-- The map lists the samples of the normal form. -/
theorem toList_writeAll (samples : List Sample) :
    (writeAll samples).toList.map (fun entry => ⟨entry.1, entry.2⟩) = normalize samples := by
  have ascending : Ascending ((writeAll samples).toList.map fun entry => ⟨entry.1, entry.2⟩) :=
    List.pairwise_map.mpr (Std.TreeMap.ordered_keys_toList.imp compare_lt_iff_lt.mp)
  refine ascending.eq_of_mem_iff (normalize_ascending samples) fun sample => ?_
  rw [mem_normalize_iff, ← lastAt?]
  constructor
  · intro member
    obtain ⟨⟨time, value⟩, listed, rfl⟩ := List.mem_map.mp member
    rw [Std.TreeMap.mem_toList_iff_getElem?_eq_some, writeAll_getElem?] at listed
    obtain ⟨last, found, rfl⟩ := Option.map_eq_some_iff.mp listed
    obtain ⟨_, rfl⟩ := lastAt?_eq_some_iff.mp found
    exact found
  · intro found
    refine List.mem_map.mpr ⟨(sample.time, sample.value), ?_, rfl⟩
    rw [Std.TreeMap.mem_toList_iff_getElem?_eq_some, writeAll_getElem?, found]
    rfl

end Sample

open Sample

/-- The values of a series are strictly ascending and have at each instant the last of the samples given for
it. So they are their own normal form and what a map keyed by time holds after all writes; other orders of the
samples that keep the order at each instant lead to the same series, and so does bringing the first samples
into normal form before others follow. -/
theorem Series.last_write_wins (series : Series) (samples : List Sample) :
    Ascending (series.withValues samples).values ∧
    (∀ time, (∃ sample ∈ (series.withValues samples).values, sample.time = time) ↔
      ∃ sample ∈ samples, sample.time = time) ∧
    (∀ sample, sample ∈ (series.withValues samples).values ↔ LastIn samples sample) ∧
    series.withValues (series.withValues samples).values = series.withValues samples ∧
    (series.withValues samples).values =
      (writeAll samples).toList.map (fun entry => ⟨entry.1, entry.2⟩) ∧
    (∀ other, Rearranged samples other → series.withValues other = series.withValues samples) ∧
    ∀ more, series.withValues (samples ++ more) =
      series.withValues ((series.withValues samples).values ++ more) := by
  refine ⟨normalize_ascending samples, fun time => ?_, fun sample => mem_normalize_iff_lastIn, ?_,
    (toList_writeAll samples).symm, fun other rearranged => ?_, fun more => ?_⟩
  · rw [← exists_lastAt?_iff, ← exists_lastAt?_iff]
    exact exists_congr fun sample => by rw [withValues, lastAt?_normalize]
  · simp only [withValues, normalize_normalize]
  · simp only [withValues, rearranged.normalize_eq]
  · simp only [withValues, normalize_normalize_append]

/-- Two samples at one instant among others. -/
def corrected : List Sample :=
  [⟨.latest, .payload .null⟩, ⟨.earliest, .payload .null⟩, ⟨.latest, .payload (.bool true)⟩,
    ⟨.epoch, .payload .null⟩]

/-- Their order matters wherever they stand. -/
theorem corrected_rearranged :
    let other : List Sample := [⟨.epoch, .payload .null⟩, ⟨.latest, .payload .null⟩,
      ⟨.latest, .payload (.bool true)⟩, ⟨.earliest, .payload .null⟩]
    Rearranged corrected other ∧
    (Series.named "m").withValues other = (Series.named "m").withValues corrected ∧
    ⟨.latest, .payload (.bool true)⟩ ∈ ((Series.named "m").withValues corrected).values ∧
    ⟨.latest, .payload .null⟩ ∉ ((Series.named "m").withValues corrected).values := by
  intro other
  have rearranged : Rearranged corrected other :=
    ⟨(⟨![3, 0, 2, 1], ![1, 3, 2, 0], by decide, by decide⟩ : Fin 4 ≃ Fin 4),
      fun i => by fin_cases i <;> rfl, by decide⟩
  obtain ⟨_, _, last, _, _, same, _⟩ := Series.last_write_wins (Series.named "m") corrected
  refine ⟨rearranged, same other rearranged, (last _).mpr ?_, fun member => ?_⟩
  · exact ⟨corrected.take 2, corrected.drop 3, rfl, by decide⟩
  · have found := lastAt?_eq_some_iff.mpr ⟨(last _).mp member, rfl⟩
    have written : lastAt? corrected .latest = some ⟨.latest, .payload (.bool true)⟩ := rfl
    simp [written] at found

end MetricEngine
