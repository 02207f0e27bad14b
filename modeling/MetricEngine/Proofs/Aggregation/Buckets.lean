import MetricEngine.Proofs.Aggregation.Summaries
import MetricEngine.Proofs.Series.NormalForm
import MetricEngine.Time.Period

/-!
Aggregation in buckets. A bucket has the samples whose milliseconds have one start when they are rounded down
to a multiple of the length; the answer has one sample for each bucket that has a value and starts at an
instant.
-/
namespace MetricEngine

namespace Sample

/-- The samples of a bucket in time order, those of one instant in the order given. -/
def inBucket (length start : Int) (samples : List Sample) : List Sample :=
  sort (samples.filter fun sample => sample.time.millis / length * length = start)

theorem mem_inBucket_iff {length start : Int} {samples : List Sample} {sample : Sample} :
    sample ∈ inBucket length start samples ↔
      sample ∈ samples ∧ sample.time.millis / length * length = start := by
  rw [inBucket, (sort_perm _).mem_iff, List.mem_filter, decide_eq_true_eq]

section Runs
variable {key : Sample → Int} {samples : List Sample}

theorem runs_flatten (key : Sample → Int) (samples : List Sample) :
    (runs key samples).flatMap (·.2) = samples := by
  induction samples with
  | nil => rfl
  | cons sample rest ih =>
    rw [runs]
    split
    next k run more found =>
      rw [found] at ih
      split <;> simpa using ih
    next found =>
      rw [found] at ih
      simpa using ih

theorem runs_keys (key : Sample → Int) (samples : List Sample) :
    ∀ run ∈ runs key samples, run.2 ≠ [] ∧ ∀ sample ∈ run.2, key sample = run.1 := by
  induction samples with
  | nil => simp [runs]
  | cons sample rest ih =>
    rw [runs]
    split
    next k run more found =>
      rw [found] at ih
      obtain ⟨first, others⟩ := List.forall_mem_cons.mp ih
      split
      next same =>
        refine List.forall_mem_cons.mpr ⟨⟨by simp, ?_⟩, others⟩
        exact List.forall_mem_cons.mpr ⟨same, first.2⟩
      next => exact List.forall_mem_cons.mpr ⟨⟨by simp, by simp⟩, ih⟩
    next => simp

theorem runs_length_le (key : Sample → Int) (samples : List Sample) :
    (runs key samples).length ≤ samples.length := by
  induction samples with
  | nil => exact Nat.le_refl _
  | cons sample rest ih =>
    rw [runs]
    split
    next k run more found =>
      rw [found, List.length_cons] at ih
      split <;> simp only [List.length_cons] <;> omega
    next => simp

theorem filter_other_runs {others : List (Int × List Sample)} {k : Int}
    (keys : ∀ run ∈ others, ∀ sample ∈ run.2, key sample = run.1) (apart : ∀ run ∈ others, run.1 ≠ k) :
    (others.flatMap (·.2)).filter (key · = k) = [] := by
  apply List.filter_eq_nil_iff.mpr
  intro sample found
  obtain ⟨run, listed, inside⟩ := List.mem_flatMap.mp found
  simpa [keys run listed sample inside] using apart run listed

/-- In a list in key order a run has all samples of its key. -/
theorem run_eq_filter (sorted : samples.Pairwise fun a b => key a ≤ key b) {k : Int}
    {run : List Sample} (member : (k, run) ∈ runs key samples) : run = samples.filter (key · = k) := by
  have keys := fun run member => (runs_keys key samples run member).2
  have ascending := runs_ascending sorted
  obtain ⟨before, after, split⟩ := List.append_of_mem member
  rw [split] at ascending keys
  obtain ⟨_, behind, across⟩ := List.pairwise_append.mp ascending
  have front : (before.flatMap (·.2)).filter (key · = k) = [] := by
    apply filter_other_runs fun other listed => keys other (List.mem_append_left _ listed)
    intro other listed
    exact Int.ne_of_lt (across other listed _ List.mem_cons_self)
  have back : (after.flatMap (·.2)).filter (key · = k) = [] := by
    apply filter_other_runs fun other listed =>
      keys other (List.mem_append_right _ (List.mem_cons_of_mem _ listed))
    intro other listed
    exact Int.ne_of_gt ((List.pairwise_cons.mp behind).1 other listed)
  have all : run.filter (key · = k) = run := by
    apply List.filter_eq_self.mpr
    intro sample inside
    simpa using keys (k, run) (by simp) sample inside
  calc run
    _ = ((before ++ (k, run) :: after).flatMap (·.2)).filter (key · = k) := by
      rw [List.flatMap_append, List.flatMap_cons, List.filter_append, List.filter_append, front, all,
        back, List.nil_append, List.append_nil]
    _ = samples.filter (key · = k) := by rw [← split, runs_flatten]

theorem mem_runs_iff (sorted : samples.Pairwise fun a b => key a ≤ key b) {k : Int}
    {run : List Sample} :
    (k, run) ∈ runs key samples ↔ run ≠ [] ∧ run = samples.filter (key · = k) := by
  constructor
  · intro member
    exact ⟨(runs_keys key samples _ member).1, run_eq_filter sorted member⟩
  · rintro ⟨given, rfl⟩
    obtain ⟨sample, member⟩ := List.exists_mem_of_ne_nil _ given
    obtain ⟨listed, same⟩ := List.mem_filter.mp member
    rw [← runs_flatten key samples] at listed
    obtain ⟨⟨k', run⟩, found, inside⟩ := List.mem_flatMap.mp listed
    have run_key : key sample = k' := (runs_keys key samples _ found).2 sample inside
    obtain rfl : k' = k := by simpa [run_key] using same
    rw [← run_eq_filter sorted found]
    exact found

end Runs

/-- The buckets of samples are the classes of the samples by the start of their milliseconds. -/
theorem mem_buckets_iff {length start : Int} {samples bucket : List Sample} :
    (start, bucket) ∈ buckets length samples ↔
      bucket ≠ [] ∧ bucket = inBucket length start samples := by
  have at_start : ((sort samples).mergeSort (bucketNotLater length)).filter
      (·.bucketStart length = start) = inBucket length start samples := by
    rw [ListFacts.filter_mergeSort (bucketNotLater_iff length), sort_filter]
    apply ListFacts.mergeSort_of_same_key (bucketNotLater_iff length)
    intro sample member
    exact (mem_inBucket_iff.mp member).2
  have sorted := ListFacts.pairwise_mergeSort_of_key (bucketNotLater_iff length) (sort samples)
  rw [buckets, mem_runs_iff sorted, at_start]

end Sample

namespace Aggregation
open Sample AggregationFunction

variable {function : AggregationFunction} {period : Span} {samples : List Sample}

/-- What is made of samples in buckets of so many milliseconds. -/
structure AnswersBuckets (function : AggregationFunction) (length : Int)
    (samples answer : List Sample) : Prop where
  ascending : Ascending answer
  length_le : answer.length ≤ samples.length
  mem_iff : ∀ sample, sample ∈ answer ↔
    ∃ start value, Instant.ofMillis? start = some sample.time ∧ sample.value = .number value ∧
      inBucket length start samples ≠ [] ∧
      function.Summarizes (inBucket length start samples) value
  /-- An instant is answered if a bucket starts there that has a number, or whose samples are counted. -/
  time_iff : ∀ time, (∃ sample ∈ answer, sample.time = time) ↔
    ∃ start, Instant.ofMillis? start = some time ∧
      (∃ input ∈ samples, start = input.time.millis / length * length) ∧
      (function ≠ .count → ∃ input ∈ samples, start = input.time.millis / length * length ∧
        ∃ x, input.number? = some x ∧ x.isNaN = false)
  /-- A sample lies between the start and the end of its bucket. Only for a sample in a leap second may the
  start be the later instant, and then it lies in a later second; the time since the epoch counts no leap
  seconds and has the bounds there too. -/
  within : ∀ sample ∈ answer, ∀ start, Instant.ofMillis? start = some sample.time →
    ∀ input ∈ inBucket length start samples,
      start ≤ input.time.millis ∧ input.time.millis < start + length ∧
      sample.time.sinceEpoch ≤ input.time.sinceEpoch ∧
      input.time.sinceEpoch < sample.time.sinceEpoch + (Span.ofMillis length).nanos ∧
      (sample.time ≤ input.time ∨ input.time.isLeap ∧ input.time.second < sample.time.second) ∧
      input.time.since sample.time < .ofMillis length

theorem bucketMillis_pos (period : Span) : 0 < bucketMillis period := by
  simp only [bucketMillis]
  omega

theorem mem_bucketed_iff {sample : Sample} : sample ∈ bucketed function period samples ↔
    ∃ start value, Instant.ofMillis? start = some sample.time ∧ sample.value = .number value ∧
      inBucket (bucketMillis period) start samples ≠ [] ∧
      function.Summarizes (inBucket (bucketMillis period) start samples) value := by
  obtain ⟨time, sampleValue⟩ := sample
  simp only [bucketed, List.mem_filterMap, Prod.exists, mem_buckets_iff, Option.bind_eq_bind,
    Option.bind_eq_some_iff, Option.pure_def, Option.some.injEq, bucketValue?_eq_some_iff,
    Sample.mk.injEq]
  constructor
  · rintro ⟨start, _, ⟨given, rfl⟩, _, starts, value, summary, rfl, rfl⟩
    exact ⟨start, value, starts, rfl, given, summary⟩
  · rintro ⟨start, value, starts, rfl, given, summary⟩
    exact ⟨start, _, ⟨given, rfl⟩, time, starts, value, summary, rfl, rfl⟩

theorem inBucket_ne_nil_iff {length start : Int} : inBucket length start samples ≠ [] ↔
    ∃ input ∈ samples, start = input.time.millis / length * length := by
  constructor
  · intro given
    obtain ⟨input, member⟩ := List.exists_mem_of_ne_nil _ given
    obtain ⟨listed, same⟩ := mem_inBucket_iff.mp member
    exact ⟨input, listed, same.symm⟩
  · rintro ⟨input, listed, same⟩
    exact List.ne_nil_of_mem (mem_inBucket_iff.mpr ⟨listed, same.symm⟩)

theorem measured_inBucket_ne_nil_iff {length start : Int} :
    measured (inBucket length start samples) ≠ [] ↔
      ∃ input ∈ samples, start = input.time.millis / length * length ∧
        ∃ x, input.number? = some x ∧ x.isNaN = false := by
  constructor
  · intro given
    obtain ⟨x, member⟩ := List.exists_mem_of_ne_nil _ given
    obtain ⟨listed, number⟩ := List.mem_filter.mp member
    obtain ⟨input, inside, reads⟩ := List.mem_filterMap.mp listed
    obtain ⟨there, same⟩ := mem_inBucket_iff.mp inside
    exact ⟨input, there, same.symm, x, reads, by simpa using number⟩
  · rintro ⟨input, there, same, x, reads, number⟩
    have inside : input ∈ inBucket length start samples := mem_inBucket_iff.mpr ⟨there, same.symm⟩
    apply List.ne_nil_of_mem (a := x)
    exact List.mem_filter.mpr ⟨List.mem_filterMap.mpr ⟨input, inside, reads⟩, by simpa using number⟩

theorem inBucket_bounds {length start : Int} (positive : 0 < length) {input : Sample}
    (member : input ∈ inBucket length start samples) :
    start ≤ input.time.millis ∧ input.time.millis < start + length := by
  obtain ⟨_, rfl⟩ := mem_inBucket_iff.mp member
  have low := Int.ediv_mul_le input.time.millis (Int.ne_of_gt positive)
  have high := Int.lt_ediv_add_one_mul_self input.time.millis positive
  rw [Int.add_mul, Int.one_mul] at high
  exact ⟨low, high⟩

theorem bucketed_times (in_buckets : function ≠ .merge ∧ function ≠ .diff) (time : Instant) :
    (∃ sample ∈ bucketed function period samples, sample.time = time) ↔
    ∃ start, Instant.ofMillis? start = some time ∧
      (∃ input ∈ samples, start = input.time.millis / bucketMillis period * bucketMillis period) ∧
      (function ≠ .count → ∃ input ∈ samples,
        start = input.time.millis / bucketMillis period * bucketMillis period ∧
        ∃ x, input.number? = some x ∧ x.isNaN = false) := by
  constructor
  · rintro ⟨sample, member, rfl⟩
    obtain ⟨start, value, starts, _, given, summary⟩ := mem_bucketed_iff.mp member
    refine ⟨start, starts, inBucket_ne_nil_iff.mp given, fun not_count => ?_⟩
    apply measured_inBucket_ne_nil_iff.mp
    exact ((exists_summarizes_iff in_buckets).mp ⟨value, summary⟩).resolve_left not_count
  · rintro ⟨start, starts, given, numeric⟩
    have valued : function = .count ∨ measured (inBucket (bucketMillis period) start samples) ≠ [] := by
      by_cases counts : function = .count
      · exact .inl counts
      · exact .inr (measured_inBucket_ne_nil_iff.mpr (numeric counts))
    obtain ⟨value, summary⟩ := (exists_summarizes_iff in_buckets).mpr valued
    refine ⟨⟨time, .number value⟩, mem_bucketed_iff.mpr ?_, rfl⟩
    exact ⟨start, value, starts, rfl, inBucket_ne_nil_iff.mpr given, summary⟩

theorem bucketed_answers (in_buckets : function ≠ .merge ∧ function ≠ .diff) :
    AnswersBuckets function (bucketMillis period) samples (bucketed function period samples) where
  ascending := bucketed_ascending function period samples
  length_le := by
    refine Nat.le_trans (List.length_filterMap_le _ _) (Nat.le_trans (runs_length_le _ _) ?_)
    exact Nat.le_of_eq ((List.length_mergeSort _).trans (sort_perm samples).length_eq)
  mem_iff _ := mem_bucketed_iff
  time_iff := bucketed_times in_buckets
  within sample _ start starts input member := by
    obtain ⟨regular, epoch⟩ := Instant.ofMillis?_eq_some starts
    obtain ⟨low, high⟩ := inBucket_bounds (bucketMillis_pos period) member
    obtain ⟨above, below⟩ := input.time.millis_bounds
    have from_start : sample.time.sinceEpoch ≤ input.time.sinceEpoch := by
      simp only [Span.nanosPerMilli] at above epoch
      omega
    have to_end : input.time.sinceEpoch <
        sample.time.sinceEpoch + (Span.ofMillis (bucketMillis period)).nanos := by
      simp only [Span.ofMillis, Span.nanosPerMilli] at below epoch ⊢
      omega
    refine ⟨low, high, from_start, to_end, Instant.le_of_sinceEpoch regular from_start, ?_⟩
    have span := Instant.since_le regular (t := input.time)
    change (input.time.since sample.time).nanos < _
    omega

theorem bucket_fits (short : period.millis ≤ Period.longestMillis) (t : Instant) :
    Text.fitsInt64 (bucketMillis period) ∧ Text.fitsInt64 t.millis ∧
    Text.fitsInt64 (t.millis / bucketMillis period) ∧
    Text.fitsInt64 (t.millis / bucketMillis period * bucketMillis period) := by
  have positive : 1 ≤ bucketMillis period := by
    rw [bucketMillis]
    omega
  have bounded : bucketMillis period ≤ 3153600000000 := by
    rw [Period.longestMillis] at short
    rw [bucketMillis]
    omega
  -- The milliseconds of an instant lie between ten quadrillions below and above zero.
  have earliest : -10000000000000000 ≤ t.millis := by
    have := t.earliest_le
    rw [Instant.millis]
    omega
  have latest : t.millis ≤ 10000000000000000 := by
    have := t.le_latest
    have := t.nanos_lt
    rw [Instant.millis]
    omega
  have quotient_low : -10000000000000000 ≤ t.millis / bucketMillis period :=
    Int.le_ediv_of_mul_le (by omega) (by omega)
  have quotient_high : t.millis / bucketMillis period ≤ 10000000000000000 :=
    Int.ediv_le_of_le_mul (by omega) (by omega)
  have start_le := Int.ediv_mul_le t.millis (b := bucketMillis period) (by omega)
  have lt_end := Int.lt_ediv_add_one_mul_self t.millis (b := bucketMillis period) (by omega)
  rw [Int.add_mul, Int.one_mul] at lt_end
  have fits : ∀ {n : Int}, -20000000000000000 ≤ n → n ≤ 20000000000000000 → Text.fitsInt64 n := by
    intro n low high
    rw [Text.fitsInt64, Text.int64Min, Text.int64Max, Bool.and_eq_true, decide_eq_true_eq, decide_eq_true_eq]
    omega
  refine ⟨fits ?_ ?_, fits ?_ ?_, fits ?_ ?_, fits ?_ ?_⟩ <;>
  omega

/-- Aggregation in buckets is the grouping of the samples by the starts of their buckets. For a period of
36500 days at most all numbers on the way to a start fit 64 bits. -/
theorem apply_answers_buckets (function : AggregationFunction)
    (in_buckets : function ≠ .merge ∧ function ≠ .diff) (period : Span) (samples : List Sample) :
    AnswersBuckets function (bucketMillis period) samples
      (apply ⟨function, some period⟩ samples) ∧
    (period.millis ≤ Period.longestMillis → ∀ input ∈ samples,
      Text.fitsInt64 (bucketMillis period) ∧ Text.fitsInt64 input.time.millis ∧
      Text.fitsInt64 (input.time.millis / bucketMillis period) ∧
      Text.fitsInt64 (input.time.millis / bucketMillis period * bucketMillis period)) := by
  have applied : apply ⟨function, some period⟩ samples = bucketed function period samples := by
    cases function with
    | merge => exact absurd rfl in_buckets.1
    | diff => exact absurd rfl in_buckets.2
    | _ => rfl
  rw [applied]
  exact ⟨bucketed_answers in_buckets, fun short input _ => bucket_fits short input.time⟩

/-- Half a second into the leap second at the end of 2016. -/
def inLeapSecond : Sample :=
  ⟨(Instant.make? 1483228799 1500000000).getD .epoch, .number (.ofInt 5)⟩

/-- Its milliseconds are those of half a second past midnight, so its bucket of a second starts at midnight,
after the leap second. -/
theorem leapSecond_before_bucket :
    inLeapSecond ∈ inBucket 1000 1483228800000 [inLeapSecond] ∧
    ∃ sample ∈ apply ⟨.max, some (.ofMillis 1000)⟩ [inLeapSecond],
      Instant.ofMillis? 1483228800000 = some sample.time ∧ ¬sample.time ≤ inLeapSecond.time := by
  have listed : inLeapSecond ∈ [inLeapSecond] := List.mem_singleton_self _
  have start : 1483228800000 = inLeapSecond.time.millis / 1000 * 1000 := rfl
  refine ⟨mem_inBucket_iff.mpr ⟨listed, start.symm⟩, ?_⟩
  obtain ⟨midnight, starts, later⟩ :
      ∃ time, Instant.ofMillis? 1483228800000 = some time ∧ ¬time ≤ inLeapSecond.time :=
    ⟨_, rfl, by decide⟩
  have answered : ∃ sample ∈ bucketed .max (.ofMillis 1000) [inLeapSecond], sample.time = midnight :=
    (bucketed_times (by decide) midnight).mpr ⟨1483228800000, starts, ⟨inLeapSecond, listed, start⟩,
      fun _ => ⟨inLeapSecond, listed, start, .ofInt 5, rfl, by decide⟩⟩
  obtain ⟨sample, member, rfl⟩ := answered
  exact ⟨sample, member, starts, later⟩

/-- Samples before and after the epoch, out of order; one is no number and one is NaN. -/
def aroundTheEpoch : List Sample :=
  [(0, .number (.ofInt 2)), (-1, .number (.ofInt 3)), (-1500, .number .nan), (-1, .number (.ofInt 5)),
    (999, .payload (.str "down"))].filterMap fun (millis, value) =>
    (Instant.ofMillis? millis).map (⟨·, value⟩)

theorem aroundTheEpoch_in_buckets :
    AnswersBuckets .max (bucketMillis (.ofMillis 1000)) aroundTheEpoch
      (apply ⟨.max, some (.ofMillis 1000)⟩ aroundTheEpoch) ∧
    (∃ sample ∈ apply ⟨.max, some (.ofMillis 1000)⟩ aroundTheEpoch,
      Instant.ofMillis? (-1000) = some sample.time) ∧
    ∀ input ∈ aroundTheEpoch, Text.fitsInt64 (input.time.millis / 1000 * 1000) := by
  obtain ⟨answers, fits⟩ := apply_answers_buckets .max (by decide) (.ofMillis 1000) aroundTheEpoch
  refine ⟨answers, ?_, fun input member => (fits (by decide) input member).2.2.2⟩
  obtain ⟨time, starts⟩ : ∃ time, Instant.ofMillis? (-1000) = some time :=
    Option.isSome_iff_exists.mp (by decide)
  have before_epoch : ∃ input ∈ aroundTheEpoch,
      -1000 = input.time.millis / bucketMillis (.ofMillis 1000) * bucketMillis (.ofMillis 1000) ∧
      input.number? = some (.ofInt 3) := by
    decide
  obtain ⟨input, listed, start, reads⟩ := before_epoch
  obtain ⟨sample, member, rfl⟩ := (answers.time_iff time).mpr
    ⟨-1000, starts, ⟨input, listed, start⟩, fun _ => ⟨input, listed, start, _, reads, by decide⟩⟩
  exact ⟨sample, member, starts⟩

end Aggregation
end MetricEngine
