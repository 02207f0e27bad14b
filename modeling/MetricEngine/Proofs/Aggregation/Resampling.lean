import MetricEngine.Proofs.Aggregation.ArrivalOrder

/-!
Aggregation of what an aggregation has answered. Buckets of a multiple of a length are unions of buckets of
that length, so the least value of a long bucket is the least one among those of the short buckets in it;
values of short buckets that start at no instant are missing. A bucket of answers has one sample at most.
-/
namespace MetricEngine

namespace Instant

theorem ofMillis?_isSome_iff {millis : Int} :
    (ofMillis? millis).isSome ↔ -8334601228800000 ≤ millis ∧ millis ≤ 8210266876799999 := by
  rw [ofMillis?, ofNanos?, make?, Option.isSome_dite, Span.nanosPerMilli, Span.nanosPerSecond]
  omega

theorem millis_of_ofMillis? {millis : Int} {t : Instant} (found : ofMillis? millis = some t) :
    t.millis = millis := by
  have bounds := t.millis_bounds
  have epoch := (ofMillis?_eq_some found).2
  simp only [Span.nanosPerMilli] at bounds epoch
  omega

theorem millis_le_of_le_latest {t : Instant} (early : t ≤ latest) : t.millis ≤ 8210266876799999 := by
  have early : t.place ≤ latest.place := early
  have nanos_lt := t.nanos_lt
  simp only [place, latest, millis] at early ⊢
  omega

end Instant

namespace Sample

/-- The samples whose buckets start at instants. -/
def startable (length : Int) (samples : List Sample) : List Sample :=
  samples.filter fun sample => (Instant.ofMillis? (sample.bucketStart length)).isSome

/-- A bucket of a length starts in the bucket of a multiple of that length. -/
theorem bucketStart_mul {length multiple : Int} (positive : 0 < length) (sample : Sample) :
    sample.bucketStart length / (multiple * length) * (multiple * length) =
      sample.bucketStart (multiple * length) := by
  have in_multiple : sample.time.millis / length * length / (multiple * length) =
      sample.time.millis / (multiple * length) := by
    rw [Int.mul_ediv_mul_of_pos_left _ _ positive, Int.mul_comm multiple length,
      Int.ediv_ediv_of_nonneg (Int.le_of_lt positive)]
  rw [bucketStart, in_multiple, bucketStart]

/-- Up to the latest instant outside leap seconds a bucket starts at an instant if a longer one around it
does. -/
theorem startable_of_le_latest {length multiple : Int} (positive : 0 < length)
    (multiplied : 0 < multiple) {sample : Sample} (early : sample.time ≤ .latest)
    (starts : (Instant.ofMillis? (sample.bucketStart (multiple * length))).isSome) :
    (Instant.ofMillis? (sample.bucketStart length)).isSome := by
  have longer : 0 < multiple * length := Int.mul_pos multiplied positive
  have around := Int.ediv_mul_le (sample.bucketStart length) (Int.ne_of_gt longer)
  rw [bucketStart_mul positive] at around
  have start_le : sample.bucketStart length ≤ sample.time.millis :=
    Int.ediv_mul_le _ (Int.ne_of_gt positive)
  have early := Instant.millis_le_of_le_latest early
  have starts := Instant.ofMillis?_isSome_iff.mp starts
  exact Instant.ofMillis?_isSome_iff.mpr ⟨by omega, by omega⟩

end Sample

namespace AggregationFunction
open Sample
variable {function : AggregationFunction} {bucket : List Sample} {value other : Binary64}

theorem Summarizes.unique (first : function.Summarizes bucket value)
    (second : function.Summarizes bucket other) : value = other :=
  Option.some.inj ((bucketValue?_eq_some_iff.mpr first).symm.trans (bucketValue?_eq_some_iff.mpr second))

/-- Minimum, maximum and percentiles take a value of the bucket. -/
def Selects (function : AggregationFunction) : Prop :=
  function = .min ∨ function = .max ∨ ∃ target, function = .percentile target

theorem Extreme.selects {key : Binary64 → Int} (extreme : function.Extreme key) : function.Selects := by
  cases extreme with
  | min => exact .inl rfl
  | max => exact .inr (.inl rfl)

theorem Summarizes.mem_measured (selects : function.Selects) (summary : function.Summarizes bucket value) :
    value ∈ measured bucket := by
  obtain rfl | rfl | ⟨target, rfl⟩ := selects
  · exact FirstLeast.mem summary
  · exact FirstLeast.mem summary
  · exact StandsAt.mem summary

theorem Selects.exists_summarizes (selects : function.Selects) (member : value ∈ measured bucket) :
    ∃ value, function.Summarizes bucket value := by
  have in_buckets : function ≠ .merge ∧ function ≠ .diff := by
    obtain rfl | rfl | ⟨target, rfl⟩ := selects <;> simp
  exact (exists_summarizes_iff in_buckets).mpr (.inr (List.ne_nil_of_mem member))

theorem mem_measured_inBucket_iff {length start : Int} {samples : List Sample} :
    value ∈ measured (inBucket length start samples) ↔
      value.isNaN = false ∧
        ∃ sample ∈ samples, sample.bucketStart length = start ∧ sample.number? = some value := by
  simp only [measured, numbers, List.mem_filter, List.mem_filterMap, mem_inBucket_iff, bucketStart,
    Bool.not_eq_true', and_assoc, and_comm (b := value.isNaN = false)]

end AggregationFunction

namespace Aggregation
open Sample AggregationFunction
variable {function : AggregationFunction} {period : Span} {samples : List Sample} {value : Binary64}

theorem bucketMillis_ofMillis {length : Int} (positive : 1 ≤ length) :
    bucketMillis (.ofMillis length) = length := by
  have whole : (Span.ofMillis length).millis = length := Int.mul_tdiv_cancel length (by decide)
  rw [bucketMillis, whole]
  omega

theorem answersAt_of_summarizes (selects : function.Selects) {length start : Int}
    (summary : function.Summarizes (inBucket length start samples) value) :
    AnswersAt function length start samples value := by
  refine ⟨fun empty => ?_, summary⟩
  have member := summary.mem_measured selects
  rw [empty] at member
  exact absurd member List.not_mem_nil

/-- The numbers in a bucket of answers are those of the buckets that start in it. -/
theorem mem_measured_bucketed_iff {length start : Int} :
    value ∈ measured (inBucket length start (bucketed function period samples)) ↔
      value.isNaN = false ∧ ∃ inner, (Instant.ofMillis? inner).isSome ∧
        inner / length * length = start ∧ AnswersAt function (bucketMillis period) inner samples value := by
  rw [mem_measured_inBucket_iff]
  refine and_congr_right fun _ => ?_
  constructor
  · rintro ⟨⟨time, _⟩, listed, in_bucket, reads⟩
    obtain ⟨inner, value', starts, rfl, answer⟩ := mem_bucketed_iff.mp listed
    obtain rfl : value' = value := Option.some.inj reads
    rw [bucketStart, Instant.millis_of_ofMillis? starts] at in_bucket
    exact ⟨inner, by rw [starts]; rfl, in_bucket, answer⟩
  · rintro ⟨inner, starts, in_bucket, answer⟩
    obtain ⟨time, starts⟩ := Option.isSome_iff_exists.mp starts
    refine ⟨⟨time, .number value⟩, mem_bucketed_iff.mpr ⟨inner, value, starts, rfl, answer⟩, ?_, rfl⟩
    rw [bucketStart, Instant.millis_of_ofMillis? starts]
    exact in_bucket

section Chain
variable {key : Binary64 → Int} {length multiple start : Int}

/-- Values of short buckets are numbers of the long bucket around them. -/
theorem mem_long_of_mem_short (selects : function.Selects) (positive : 1 ≤ length)
    (member : value ∈ measured
      (inBucket (multiple * length) start (bucketed function (.ofMillis length) samples))) :
    value ∈ measured (inBucket (multiple * length) start (startable length samples)) := by
  obtain ⟨number, inner, starts, in_bucket, _, summary⟩ := mem_measured_bucketed_iff.mp member
  rw [bucketMillis_ofMillis positive] at summary
  obtain ⟨_, sample, listed, rfl, reads⟩ := mem_measured_inBucket_iff.mp (summary.mem_measured selects)
  rw [bucketStart_mul positive] at in_bucket
  have kept : sample ∈ startable length samples := List.mem_filter.mpr ⟨listed, starts⟩
  exact mem_measured_inBucket_iff.mpr ⟨number, sample, kept, in_bucket, reads⟩

/-- Each number of a long bucket has the value of its short bucket at it or beyond. -/
theorem exists_short_le (extreme : function.Extreme key) (positive : 1 ≤ length)
    (member : value ∈ measured (inBucket (multiple * length) start (startable length samples))) :
    ∃ least ∈ measured
      (inBucket (multiple * length) start (bucketed function (.ofMillis length) samples)),
      key least ≤ key value := by
  obtain ⟨number, sample, kept, in_bucket, reads⟩ := mem_measured_inBucket_iff.mp member
  obtain ⟨listed, starts⟩ := List.mem_filter.mp kept
  have in_short : value ∈ measured (inBucket length (sample.bucketStart length) samples) :=
    mem_measured_inBucket_iff.mpr ⟨number, sample, listed, rfl, reads⟩
  obtain ⟨least, summary⟩ := extreme.selects.exists_summarizes in_short
  have least_number := (mem_measured_inBucket_iff.mp (summary.mem_measured extreme.selects)).1
  refine ⟨least, mem_measured_bucketed_iff.mpr ⟨least_number, _, starts, ?_, ?_⟩, ?_⟩
  · rw [bucketStart_mul positive, in_bucket]
  · rw [bucketMillis_ofMillis positive]
    exact answersAt_of_summarizes extreme.selects summary
  · exact (extreme.summarizes_iff.mp summary).le in_short

/-- Extremes of long buckets may be taken from those of short ones that start at instants. -/
theorem bucketed_chain (samples : List Sample) (extreme : function.Extreme key) (positive : 1 ≤ length)
    (multiplied : 1 ≤ multiple) :
    List.Forall₂ Alike
      (bucketed function (.ofMillis (multiple * length)) (bucketed function (.ofMillis length) samples))
      (bucketed function (.ofMillis (multiple * length)) (startable length samples)) := by
  have longer : 1 ≤ multiple * length := Int.mul_pos multiplied positive
  have forth : ∀ start, ∀ a ∈ measured (inBucket (multiple * length) start
      (bucketed function (.ofMillis length) samples)), ∃ b ∈ measured
      (inBucket (multiple * length) start (startable length samples)), key b ≤ key a :=
    fun _ a member => ⟨a, mem_long_of_mem_short extreme.selects positive member, Int.le_refl _⟩
  have back : ∀ start, ∀ b ∈ measured (inBucket (multiple * length) start (startable length samples)),
      ∃ a ∈ measured (inBucket (multiple * length) start
        (bucketed function (.ofMillis length) samples)), key a ≤ key b :=
    fun _ b member => exists_short_le extreme positive member
  apply bucketed_alike <;> rw [bucketMillis_ofMillis longer]
  · rintro start value ⟨_, summary⟩
    obtain ⟨other, same, other_summary⟩ := extreme.summarizes_alike (forth start) (back start) summary
    exact ⟨other, same, answersAt_of_summarizes extreme.selects other_summary⟩
  · rintro start other ⟨_, summary⟩
    obtain ⟨value, same, value_summary⟩ := extreme.summarizes_alike (back start) (forth start) summary
    exact ⟨value, same.symm, answersAt_of_summarizes extreme.selects value_summary⟩

/-- Samples without a short bucket that starts at an instant matter only if a long one around it does. -/
theorem bucketed_startable (function : AggregationFunction) (longer : 1 ≤ multiple * length)
    (kept : ∀ sample ∈ samples, (Instant.ofMillis? (sample.bucketStart (multiple * length))).isSome →
      (Instant.ofMillis? (sample.bucketStart length)).isSome) :
    bucketed function (.ofMillis (multiple * length)) (startable length samples) =
      bucketed function (.ofMillis (multiple * length)) samples := by
  have same : ∀ start, (Instant.ofMillis? start).isSome →
      inBucket (multiple * length) start (startable length samples) =
        inBucket (multiple * length) start samples := by
    intro start starts
    rw [inBucket, inBucket, startable, List.filter_filter]
    congr 1
    apply List.filter_congr
    intro sample listed
    by_cases in_bucket : sample.bucketStart (multiple * length) = start
    · simpa [bucketStart] using fun _ => kept sample listed (in_bucket ▸ starts)
    · have elsewhere : ¬sample.time.millis / (multiple * length) * (multiple * length) = start := in_bucket
      simp [elsewhere]
  apply (bucketed_ascending _ _ _).eq_of_mem_iff (bucketed_ascending _ _ _)
  intro sample
  rw [mem_bucketed_iff, mem_bucketed_iff, bucketMillis_ofMillis longer]
  refine exists_congr fun start => exists_congr fun value => and_congr_right fun starts => ?_
  rw [same start (by rw [starts]; rfl)]

end Chain

/-- Each bucket of answers has one number, which is its value again. -/
theorem bucketed_bucketed (selects : function.Selects) (period : Span) (samples : List Sample) :
    bucketed function period (bucketed function period samples) = bucketed function period samples := by
  have answered : ∀ {start value}, (Instant.ofMillis? start).isSome →
      (value ∈ measured (inBucket (bucketMillis period) start (bucketed function period samples)) ↔
        AnswersAt function (bucketMillis period) start samples value) := by
    intro start value starts
    have on_grid : ∀ inner, inBucket (bucketMillis period) inner samples ≠ [] →
        inner / bucketMillis period * bucketMillis period = inner := by
      intro inner filled
      obtain ⟨_, _, rfl⟩ := inBucket_ne_nil_iff.mp filled
      rw [Int.mul_ediv_cancel _ (Int.ne_of_gt (bucketMillis_pos period))]
    rw [mem_measured_bucketed_iff]
    constructor
    · rintro ⟨_, inner, _, in_bucket, answer⟩
      rwa [← in_bucket, on_grid inner answer.1]
    · intro answer
      have number := (mem_measured_inBucket_iff.mp (answer.2.mem_measured selects)).1
      exact ⟨number, start, starts, on_grid start answer.1, answer⟩
  apply (bucketed_ascending _ _ _).eq_of_mem_iff (bucketed_ascending _ _ _)
  intro sample
  rw [mem_bucketed_iff, mem_bucketed_iff]
  refine exists_congr fun start => exists_congr fun value => and_congr_right fun starts => ?_
  refine and_congr_right fun _ => ?_
  have starts : (Instant.ofMillis? start).isSome := by rw [starts]; rfl
  constructor
  · rintro ⟨_, summary⟩
    exact (answered starts).mp (summary.mem_measured selects)
  · intro answer
    obtain ⟨again, summary⟩ := selects.exists_summarizes ((answered starts).mpr answer)
    have again_answers := (answered starts).mp (summary.mem_measured selects)
    obtain rfl : again = value := again_answers.2.unique answer.2
    exact answersAt_of_summarizes selects summary

/-- An aggregation in buckets of so many milliseconds. -/
def every (function : AggregationFunction) (length : Int) : Aggregation :=
  ⟨function, some (.ofMillis length)⟩

/-- Extremes in buckets of a length and then of a multiple of it are those in buckets of the multiple alone,
of the samples whose short buckets start at instants; all others matter only behind the latest instant
outside leap seconds. Minima, maxima and percentiles stay as they are when they are taken once more. -/
theorem resampling_composes (samples : List Sample) :
    (∀ function : AggregationFunction, function = .min ∨ function = .max →
      ∀ length multiple : Int, 1 ≤ length → 1 ≤ multiple →
      List.Forall₂ Alike
        ((every function (multiple * length)).apply ((every function length).apply samples))
        ((every function (multiple * length)).apply (startable length samples)) ∧
      ((∀ sample ∈ samples, sample.time ≤ .latest ∨
          ((Instant.ofMillis? (sample.bucketStart (multiple * length))).isSome →
            (Instant.ofMillis? (sample.bucketStart length)).isSome)) →
        List.Forall₂ Alike
          ((every function (multiple * length)).apply ((every function length).apply samples))
          ((every function (multiple * length)).apply samples))) ∧
    ∀ function : AggregationFunction, function.Selects → ∀ period : Span,
      apply ⟨function, some period⟩ (apply ⟨function, some period⟩ samples) =
        apply ⟨function, some period⟩ samples := by
  have applied : ∀ {function : AggregationFunction}, function.Selects → ∀ period samples,
      apply ⟨function, some period⟩ samples = bucketed function period samples := by
    rintro function (rfl | rfl | ⟨target, rfl⟩) period samples <;> rfl
  constructor
  · intro function minOrMax length multiple positive multiplied
    obtain ⟨key, extreme⟩ : ∃ key, function.Extreme key := by
      rcases minOrMax with rfl | rfl
      · exact ⟨_, .min⟩
      · exact ⟨_, .max⟩
    have chain := bucketed_chain samples extreme positive multiplied
    simp only [every, applied extreme.selects]
    refine ⟨chain, fun kept => ?_⟩
    have longer : 1 ≤ multiple * length := Int.mul_pos multiplied positive
    have unchanged : bucketed function (.ofMillis (multiple * length)) (startable length samples) =
        bucketed function (.ofMillis (multiple * length)) samples := by
      apply bucketed_startable function longer
      intro sample listed starts
      rcases kept sample listed with early | kept
      · exact startable_of_le_latest positive multiplied early starts
      · exact kept starts
    exact unchanged ▸ chain
  · intro function selects period
    simp only [applied selects]
    exact bucketed_bucketed selects period samples

/-- Two samples around the epoch and one without a number. -/
def aroundMidnight : List Sample :=
  [(-1, .number (.ofInt 3)), (0, .payload (.str "down")), (6999, .number (.ofInt 2))].filterMap
    fun (millis, value) => (Instant.ofMillis? millis).map (⟨·, value⟩)

theorem aroundMidnight_resampled :
    (∀ sample ∈ aroundMidnight, sample.time ≤ .latest) ∧
    List.Forall₂ Alike ((every .max (7 * 1000)).apply ((every .max 1000).apply aroundMidnight))
      ((every .max (7 * 1000)).apply aroundMidnight) ∧
    apply ⟨.percentile .hundred, some (.ofMillis 1000)⟩
        (apply ⟨.percentile .hundred, some (.ofMillis 1000)⟩ aroundMidnight) =
      apply ⟨.percentile .hundred, some (.ofMillis 1000)⟩ aroundMidnight := by
  obtain ⟨chains, once_more⟩ := resampling_composes aroundMidnight
  have early : ∀ sample ∈ aroundMidnight, sample.time ≤ .latest := by decide
  refine ⟨early, ?_, once_more _ (.inr (.inr ⟨_, rfl⟩)) _⟩
  exact (chains .max (.inr rfl) 1000 7 (by decide) (by decide)).2 fun sample member =>
    .inl (early sample member)

/-- Within the leap second behind the last second of all. -/
def behindLatest : Instant :=
  { Instant.latest with nanos := 1500000000, nanos_lt := by decide, leap_ends_minute := fun _ => rfl }

/-- A bucket of one millisecond starts at no instant there, but one of seven seconds does. -/
def lastLeapSecond : List Sample :=
  [⟨behindLatest, .number (.ofInt 5)⟩]

theorem lastLeapSecond_not_resampled :
    ¬List.Forall₂ Alike ((every .min (7000 * 1)).apply ((every .min 1).apply lastLeapSecond))
      ((every .min (7000 * 1)).apply lastLeapSecond) := by
  have at_once : ∀ sample ∈ lastLeapSecond, sample.time = behindLatest := by decide
  have dropped : (every .min 1).apply lastLeapSecond = [] := by
    change bucketed .min (.ofMillis 1) lastLeapSecond = []
    rw [bucketed, buckets_of_one_instant _ at_once]
    decide
  have answered : ((every .min (7000 * 1)).apply lastLeapSecond).length = 1 := by
    change (bucketed .min (.ofMillis (7000 * 1)) lastLeapSecond).length = 1
    rw [bucketed, buckets_of_one_instant _ at_once]
    decide
  have nothing : (every .min (7000 * 1)).apply [] = [] := by
    change bucketed .min (.ofMillis (7000 * 1)) [] = []
    simp [bucketed, buckets, sort, runs]
  intro alike
  have same_length := alike.length_eq
  rw [dropped, nothing, answered] at same_length
  exact absurd same_length (by decide)

end Aggregation
end MetricEngine
