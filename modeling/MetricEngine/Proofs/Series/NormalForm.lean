import MetricEngine.Proofs.Aggregation.DistinctTimes
import MetricEngine.Proofs.ListFacts

/-!
The normal form of samples. Sorting by time keeps the samples of one instant in the order in which they were
given, so the normal form is strictly ascending and has the last sample of each instant. It is its own normal
form.
-/
namespace MetricEngine.Sample
variable {samples : List Sample}

theorem sort_filter (p : Sample → Bool) (samples : List Sample) :
    (sort samples).filter p = sort (samples.filter p) :=
  ListFacts.filter_mergeSort notLater_iff p samples

/-- Samples of one instant keep their order. -/
theorem sort_at (samples : List Sample) (time : Instant) :
    (sort samples).filter (·.time = time) = samples.filter (·.time = time) := by
  rw [sort_filter]
  apply ListFacts.mergeSort_of_same_key notLater_iff
  intro sample member
  simpa using List.of_mem_filter member

theorem keepLast_sublist (samples : List Sample) : (keepLast samples).Sublist samples := by
  induction samples using keepLast.induct with
  | case1 a b rest same ih =>
    rw [keepLast, if_pos same]
    exact ih.cons a
  | case2 a b rest different ih =>
    rw [keepLast, if_neg different]
    exact ih.cons_cons a
  | case3 samples short =>
    rw [keepLast]
    exact short

/-- In sorted samples all others are later than the first one if the second is. -/
theorem later_of_ne {a b : Sample} {rest : List Sample}
    (sorted : (a :: b :: rest).Pairwise fun a b => a.time ≤ b.time) (different : a.time ≠ b.time) :
    ∀ later ∈ b :: rest, a.time < later.time := by
  obtain ⟨above, tail⟩ := List.pairwise_cons.mp sorted
  have first : a.time < b.time := lt_of_le_of_ne (above b List.mem_cons_self) different
  intro later member
  rcases List.mem_cons.mp member with rfl | member
  · exact first
  · exact lt_of_lt_of_le first ((List.pairwise_cons.mp tail).1 later member)

theorem keepLast_ascending (sorted : samples.Pairwise fun a b => a.time ≤ b.time) :
    Ascending (keepLast samples) := by
  induction samples using keepLast.induct with
  | case1 a b rest same ih =>
    rw [keepLast, if_pos same]
    exact ih sorted.tail
  | case2 a b rest different ih =>
    rw [keepLast, if_neg different]
    refine List.pairwise_cons.mpr ⟨fun later member => ?_, ih sorted.tail⟩
    exact later_of_ne sorted different later ((keepLast_sublist _).subset member)
  | case3 samples short =>
    cases samples with
    | nil => exact .nil
    | cons a rest =>
      cases rest with
      | nil => exact List.pairwise_singleton _ _
      | cons b rest => exact absurd rfl (short a b rest)

/-- Of sorted samples the last one of each instant is kept. -/
theorem mem_keepLast_iff (sorted : samples.Pairwise fun a b => a.time ≤ b.time) {sample : Sample} :
    sample ∈ keepLast samples ↔ (samples.filter (·.time = sample.time)).getLast? = some sample := by
  induction samples using keepLast.induct with
  | case1 a b rest same ih =>
    rw [keepLast, if_pos same, ih sorted.tail]
    by_cases here : a.time = sample.time
    · have there : b.time = sample.time := same ▸ here
      simp only [List.filter_cons, here, there, decide_true, if_true, List.getLast?_cons_cons]
    · rw [List.filter_cons_of_neg (a := a) (by simpa using here)]
  | case2 a b rest different ih =>
    rw [keepLast, if_neg different, List.mem_cons, ih sorted.tail]
    by_cases here : a.time = sample.time
    · have none : (b :: rest).filter (·.time = sample.time) = [] := by
        apply List.filter_eq_nil_iff.mpr
        intro later member
        simpa [← here] using ne_of_gt (later_of_ne sorted different later member)
      rw [List.filter_cons_of_pos (a := a) (by simpa using here), none]
      simp [eq_comm]
    · have other : sample ≠ a := fun same => here (same ▸ rfl)
      rw [List.filter_cons_of_neg (a := a) (by simpa using here)]
      simp [other]
  | case3 samples short =>
    cases samples with
    | nil => simp [keepLast]
    | cons a rest =>
      cases rest with
      | nil =>
        by_cases here : a.time = sample.time
        · simp [keepLast, here, eq_comm]
        · have other : sample ≠ a := fun same => here (same ▸ rfl)
          simp [keepLast, here, other]
      | cons b rest => exact absurd rfl (short a b rest)

/-- The normal form of any samples is strictly ascending. -/
theorem normalize_ascending (samples : List Sample) : Ascending (normalize samples) :=
  keepLast_ascending (sort_pairwise samples)

theorem Ascending.normalize_eq (ascending : Ascending samples) : normalize samples = samples := by
  have sorted : sort samples = samples :=
    List.mergeSort_of_pairwise (ascending.imp fun before => by simpa [notLater] using before.le)
  rw [normalize, sorted, ascending.keepLast_eq]

theorem normalize_normalize (samples : List Sample) : normalize (normalize samples) = normalize samples :=
  (normalize_ascending samples).normalize_eq

/-- The normal form has the last sample of each instant. -/
theorem mem_normalize_iff {sample : Sample} :
    sample ∈ normalize samples ↔
      (samples.filter (·.time = sample.time)).getLast? = some sample := by
  rw [normalize, mem_keepLast_iff (sort_pairwise samples), sort_at]

end MetricEngine.Sample
