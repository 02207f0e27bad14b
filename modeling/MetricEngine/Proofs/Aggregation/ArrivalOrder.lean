import Mathlib.Data.List.Forall2
import MetricEngine.Proofs.Aggregation.Buckets

/-!
Aggregations do not depend on the order in which samples arrive. Counts and percentiles take each bucket as
it is, whatever the order in it; of the least values of a bucket the minimum takes the first one, so that it
may become the other zero. All other functions see samples in time order, which is one and the same if no
two samples share an instant.
-/
namespace MetricEngine

namespace Binary64

/-- Two numbers are one number, or both are zeros. -/
def SameUpToZero (x y : Binary64) : Prop :=
  x = y ∨ x.magnitude = 0 ∧ y.magnitude = 0

theorem SameUpToZero.symm {x y : Binary64} (same : x.SameUpToZero y) : y.SameUpToZero x :=
  same.imp Eq.symm And.symm

theorem sameUpToZero_of_rank {x y : Binary64} (same : x.rank = y.rank) : x.SameUpToZero y := by
  have x_small : x.bits.toNat < 18446744073709551616 := x.bits.toNat_lt
  have y_small : y.bits.toNat < 18446744073709551616 := y.bits.toNat_lt
  simp only [rank, isNegative, magnitude, decide_eq_true_eq] at same
  by_cases bits : x.bits.toNat = y.bits.toNat
  · left
    cases x
    cases y
    exact congrArg _ (UInt64.toNat_inj.mp bits)
  · right
    simp only [magnitude]
    split at same <;> split at same <;> omega

end Binary64

namespace Sample
variable {xs ys : List Sample}

/-- Numeric samples at one instant that differ in the sign of a zero at most. -/
def Alike (a b : Sample) : Prop :=
  a.time = b.time ∧ ∃ x y, a.value = .number x ∧ b.value = .number y ∧ x.SameUpToZero y

/-- Ascending samples stand one beside the other if each has a partner at its instant. -/
theorem forall₂_of_ascending {relation : Sample → Sample → Prop}
    (at_once : ∀ a b, relation a b → a.time = b.time) (xs_ascend : Ascending xs)
    (ys_ascend : Ascending ys) (forth : ∀ x ∈ xs, ∃ y ∈ ys, relation x y)
    (back : ∀ y ∈ ys, ∃ x ∈ xs, relation x y) : List.Forall₂ relation xs ys := by
  induction xs_ascend generalizing ys with
  | nil =>
    cases ys with
    | nil => exact .nil
    | cons y _ =>
      obtain ⟨_, member, _⟩ := back y List.mem_cons_self
      simp at member
  | @cons x xs x_first _ ih =>
    cases ys_ascend with
    | nil =>
      obtain ⟨_, member, _⟩ := forth x List.mem_cons_self
      simp at member
    | @cons y ys y_first ys_ascend =>
      have y_le : ∀ other ∈ y :: ys, y.time ≤ other.time := by
        intro other member
        rcases List.mem_cons.mp member with rfl | behind
        · exact le_refl _
        · exact le_of_lt (y_first other behind)
      have x_le : ∀ other ∈ x :: xs, x.time ≤ other.time := by
        intro other member
        rcases List.mem_cons.mp member with rfl | behind
        · exact le_refl _
        · exact le_of_lt (x_first other behind)
      obtain ⟨partner, listed, heads⟩ := forth x List.mem_cons_self
      obtain ⟨earlier, earlier_listed, beside_y⟩ := back y List.mem_cons_self
      have same_time : x.time = y.time := by
        apply le_antisymm
        · exact at_once _ _ beside_y ▸ x_le earlier earlier_listed
        · exact at_once _ _ heads ▸ y_le partner listed
      have partner_first : partner = y := by
        rcases List.mem_cons.mp listed with same | behind
        · exact same
        · exact absurd (same_time.symm.trans (at_once _ _ heads)) (ne_of_lt (y_first partner behind))
      refine .cons (partner_first ▸ heads) (ih ys_ascend ?_ ?_)
      · intro later member
        obtain ⟨other, listed, beside⟩ := forth later (List.mem_cons_of_mem _ member)
        refine ⟨other, (List.mem_cons.mp listed).resolve_left ?_, beside⟩
        rintro rfl
        exact absurd (same_time.trans (at_once _ _ beside).symm) (ne_of_lt (x_first later member))
      · intro later member
        obtain ⟨other, listed, beside⟩ := back later (List.mem_cons_of_mem _ member)
        refine ⟨other, (List.mem_cons.mp listed).resolve_left ?_, beside⟩
        rintro rfl
        exact absurd (same_time.symm.trans (at_once _ _ beside)) (ne_of_lt (y_first later member))

/-- Samples with distinct instants have one time order. -/
theorem Distinct.sort_eq_of_perm (distinct : Distinct xs) (rearranged : xs.Perm ys) :
    Sample.sort xs = Sample.sort ys := by
  have ys_distinct : Distinct ys := (rearranged.map _).nodup_iff.mp distinct
  refine distinct.sort_ascending.eq_of_mem_iff ys_distinct.sort_ascending fun sample => ?_
  exact ((sort_perm xs).trans (rearranged.trans (sort_perm ys).symm)).mem_iff

theorem inBucket_perm (rearranged : xs.Perm ys) (length start : Int) :
    (inBucket length start xs).Perm (inBucket length start ys) :=
  (sort_perm _).trans ((rearranged.filter _).trans (sort_perm _).symm)

theorem buckets_of_one_instant {time : Instant} (length : Int) (at_once : ∀ sample ∈ xs, sample.time = time) :
    buckets length xs = runs (bucketStart length) xs := by
  have in_one_bucket : ∀ sample ∈ xs, sample.bucketStart length = time.millis / length * length := by
    intro sample member
    rw [bucketStart, at_once sample member]
  rw [buckets, sort, ListFacts.mergeSort_of_same_key notLater_iff at_once,
    ListFacts.mergeSort_of_same_key (bucketNotLater_iff length) in_one_bucket]

end Sample

section Keys
variable {α : Type} {key : α → Int} {xs ys : List α} {x y : α}

theorem FirstLeast.mem (least : FirstLeast key xs x) : x ∈ xs := by
  obtain ⟨before, after, rfl, _⟩ := least
  simp

/-- Two lists each of which has an element below every element of the other one have one least key. -/
theorem FirstLeast.key_eq (first : FirstLeast key xs x) (second : FirstLeast key ys y)
    (forth : ∀ a ∈ xs, ∃ b ∈ ys, key b ≤ key a) (back : ∀ b ∈ ys, ∃ a ∈ xs, key a ≤ key b) :
    key x = key y := by
  obtain ⟨b, b_listed, b_le⟩ := forth x first.mem
  obtain ⟨a, a_listed, a_le⟩ := back y second.mem
  apply Int.le_antisymm
  · exact Int.le_trans (first.le a_listed) a_le
  · exact Int.le_trans (second.le b_listed) b_le

end Keys

namespace AggregationFunction
variable {function : AggregationFunction} {bucket other : List Sample} {value : Binary64}

theorem measured_perm (rearranged : bucket.Perm other) : (measured bucket).Perm (measured other) :=
  (rearranged.filterMap _).filter _

/-- Counts and percentiles have the same value for the samples of a bucket in any order. -/
theorem Summarizes.of_perm (unordered : function = .count ∨ ∃ target, function = .percentile target)
    (rearranged : bucket.Perm other) (summary : function.Summarizes bucket value) :
    function.Summarizes other value := by
  obtain rfl | ⟨target, rfl⟩ := unordered
  · rw [Summarizes, ← rearranged.length_eq]
    exact summary
  · have numbers := measured_perm rearranged
    obtain ⟨mem, below, upTo⟩ : StandsAt _ _ _ _ := summary
    rw [numbers.length_eq] at below upTo
    exact ⟨numbers.mem_iff.mp mem, numbers.countP_eq _ ▸ below, numbers.countP_eq _ ▸ upTo⟩

/-- Minimum and maximum take a value of least key. -/
inductive Extreme : AggregationFunction → (Binary64 → Int) → Prop where
  | min : Extreme .min (·.rank)
  | max : Extreme .max (-·.rank)

namespace Extreme
variable {key : Binary64 → Int}

theorem summarizes_iff (extreme : function.Extreme key) :
    function.Summarizes bucket value ↔ FirstLeast key (measured bucket) value := by
  cases extreme <;> rfl

theorem sameUpToZero (extreme : function.Extreme key) {x y : Binary64} (same : key x = key y) :
    x.SameUpToZero y := by
  cases extreme with
  | min => exact Binary64.sameUpToZero_of_rank same
  | max => exact Binary64.sameUpToZero_of_rank (Int.neg_inj.mp same)

/-- Each of two buckets has a number at or beyond every number of the other one, so both have one extreme
value, up to the sign of zero. -/
theorem summarizes_alike (extreme : function.Extreme key)
    (forth : ∀ a ∈ measured bucket, ∃ b ∈ measured other, key b ≤ key a)
    (back : ∀ b ∈ measured other, ∃ a ∈ measured bucket, key a ≤ key b)
    (summary : function.Summarizes bucket value) :
    ∃ value', value.SameUpToZero value' ∧ function.Summarizes other value' := by
  have least := extreme.summarizes_iff.mp summary
  obtain ⟨b, listed, _⟩ := forth value least.mem
  obtain ⟨value', other_least⟩ := exists_firstLeast_iff.mpr (List.ne_nil_of_mem listed)
  exact ⟨value', extreme.sameUpToZero (least.key_eq other_least forth back),
    extreme.summarizes_iff.mpr other_least⟩

end Extreme
end AggregationFunction

namespace Aggregation
open Sample AggregationFunction
variable {function : AggregationFunction} {period : Span} {given arrived : List Sample}

/-- The bucket at a start has samples, and a value that they are summarised by. -/
def AnswersAt (function : AggregationFunction) (length start : Int) (samples : List Sample)
    (value : Binary64) : Prop :=
  inBucket length start samples ≠ [] ∧ function.Summarizes (inBucket length start samples) value

/-- Samples that are answered alike at each start of a bucket are answered alike in all. -/
theorem bucketed_alike
    (forth : ∀ start value, AnswersAt function (bucketMillis period) start given value →
      ∃ other, value.SameUpToZero other ∧ AnswersAt function (bucketMillis period) start arrived other)
    (back : ∀ start other, AnswersAt function (bucketMillis period) start arrived other →
      ∃ value, value.SameUpToZero other ∧ AnswersAt function (bucketMillis period) start given value) :
    List.Forall₂ Alike (bucketed function period given) (bucketed function period arrived) := by
  apply forall₂_of_ascending (fun _ _ => And.left) (bucketed_ascending _ _ _) (bucketed_ascending _ _ _)
  · intro sample member
    obtain ⟨start, value, starts, is_value, answer⟩ := mem_bucketed_iff.mp member
    obtain ⟨other, same, other_answer⟩ := forth start value answer
    refine ⟨⟨sample.time, .number other⟩, mem_bucketed_iff.mpr ?_, rfl, value, other, is_value, rfl, same⟩
    exact ⟨start, other, starts, rfl, other_answer⟩
  · intro sample member
    obtain ⟨start, other, starts, is_value, answer⟩ := mem_bucketed_iff.mp member
    obtain ⟨value, same, value_answer⟩ := back start other answer
    refine ⟨⟨sample.time, .number value⟩, mem_bucketed_iff.mpr ?_, rfl, value, other, rfl, is_value, same⟩
    exact ⟨start, value, starts, rfl, value_answer⟩

theorem inBucket_ne_nil_of_perm (rearranged : given.Perm arrived) {length start : Int}
    (filled : inBucket length start given ≠ []) : inBucket length start arrived ≠ [] := by
  intro empty
  apply filled
  exact (empty ▸ inBucket_perm rearranged length start).eq_nil

/-- Counts and percentiles are the same for samples in any order. -/
theorem bucketed_eq_of_perm (unordered : function = .count ∨ ∃ target, function = .percentile target)
    (rearranged : given.Perm arrived) :
    bucketed function period given = bucketed function period arrived := by
  have answered : ∀ {xs ys : List Sample}, xs.Perm ys → ∀ start value,
      AnswersAt function (bucketMillis period) start xs value →
      AnswersAt function (bucketMillis period) start ys value := by
    rintro xs ys rearranged start value ⟨filled, summary⟩
    exact ⟨inBucket_ne_nil_of_perm rearranged filled,
      summary.of_perm unordered (inBucket_perm rearranged _ _)⟩
  refine (bucketed_ascending _ _ _).eq_of_mem_iff (bucketed_ascending _ _ _) fun sample => ?_
  rw [mem_bucketed_iff, mem_bucketed_iff]
  constructor
  · rintro ⟨start, value, starts, is_value, answer⟩
    exact ⟨start, value, starts, is_value, answered rearranged start value answer⟩
  · rintro ⟨start, value, starts, is_value, answer⟩
    exact ⟨start, value, starts, is_value, answered rearranged.symm start value answer⟩

/-- Minima and maxima are alike for samples in any order. -/
theorem bucketed_alike_of_perm {key : Binary64 → Int} (extreme : function.Extreme key)
    (rearranged : given.Perm arrived) :
    List.Forall₂ Alike (bucketed function period given) (bucketed function period arrived) := by
  have answered : ∀ {xs ys : List Sample}, xs.Perm ys → ∀ start value,
      AnswersAt function (bucketMillis period) start xs value →
      ∃ other, value.SameUpToZero other ∧ AnswersAt function (bucketMillis period) start ys other := by
    rintro xs ys rearranged start value ⟨filled, summary⟩
    have numbers := measured_perm (inBucket_perm rearranged (bucketMillis period) start)
    obtain ⟨other, same, other_summary⟩ := extreme.summarizes_alike
      (fun a listed => ⟨a, numbers.mem_iff.mp listed, Int.le_refl _⟩)
      (fun b listed => ⟨b, numbers.mem_iff.mpr listed, Int.le_refl _⟩) summary
    exact ⟨other, same, inBucket_ne_nil_of_perm rearranged filled, other_summary⟩
  apply bucketed_alike
  · exact answered rearranged
  · intro start other answer
    obtain ⟨value, same, value_answer⟩ := answered rearranged.symm start other answer
    exact ⟨value, same.symm, value_answer⟩

/-- The order in which samples arrive does not matter: counts and percentiles are the same, minima and maxima
the same up to the sign of zero, and if no two samples share an instant every aggregation is the same. -/
theorem arrival_order_is_immaterial (rearranged : given.Perm arrived) :
    (∀ period : Span,
      apply ⟨.count, some period⟩ given = apply ⟨.count, some period⟩ arrived ∧
      (∀ target, apply ⟨.percentile target, some period⟩ given =
        apply ⟨.percentile target, some period⟩ arrived) ∧
      List.Forall₂ Alike (apply ⟨.min, some period⟩ given) (apply ⟨.min, some period⟩ arrived) ∧
      List.Forall₂ Alike (apply ⟨.max, some period⟩ given) (apply ⟨.max, some period⟩ arrived)) ∧
    (Distinct given → ∀ aggregation : Aggregation,
      aggregation.apply given = aggregation.apply arrived) := by
  refine ⟨fun period => ⟨?_, fun target => ?_, ?_, ?_⟩, fun distinct aggregation => ?_⟩
  · exact bucketed_eq_of_perm (.inl rfl) rearranged
  · exact bucketed_eq_of_perm (.inr ⟨target, rfl⟩) rearranged
  · exact bucketed_alike_of_perm .min rearranged
  · exact bucketed_alike_of_perm .max rearranged
  · rw [← apply_sort aggregation given, distinct.sort_eq_of_perm rearranged, apply_sort]

/-- The two zeros and a sample without a number at one instant. -/
def bothZeros : List Sample :=
  [⟨.epoch, .number .zero⟩, ⟨.epoch, .payload (.str "down")⟩, ⟨.epoch, .number .negativeZero⟩]

/-- A sample before the epoch that arrives behind one after it. -/
def lateSample : List Sample :=
  [(1500, .ofInt 2), (-500, .ofInt 3)].filterMap fun (millis, value) =>
    (Instant.ofMillis? millis).map (⟨·, .number value⟩)

theorem bothZeros_in_any_order :
    apply ⟨.count, some (.ofMillis 1000)⟩ bothZeros =
      apply ⟨.count, some (.ofMillis 1000)⟩ bothZeros.reverse ∧
    List.Forall₂ Alike (apply ⟨.min, some (.ofMillis 1000)⟩ bothZeros)
      (apply ⟨.min, some (.ofMillis 1000)⟩ bothZeros.reverse) ∧
    (apply ⟨.min, some (.ofMillis 1000)⟩ bothZeros).map (·.number?) = [some .zero] ∧
    (apply ⟨.min, some (.ofMillis 1000)⟩ bothZeros.reverse).map (·.number?) = [some .negativeZero] ∧
    Distinct lateSample ∧
    apply ⟨.sum, some (.ofMillis 1000)⟩ lateSample =
      apply ⟨.sum, some (.ofMillis 1000)⟩ lateSample.reverse := by
  obtain ⟨in_buckets, _⟩ := arrival_order_is_immaterial (List.reverse_perm bothZeros).symm
  obtain ⟨count, _, min, _⟩ := in_buckets (.ofMillis 1000)
  obtain ⟨_, in_time⟩ := arrival_order_is_immaterial (List.reverse_perm lateSample).symm
  have distinct : Distinct lateSample := by
    rw [Distinct]
    decide
  have zeros_at_epoch : ∀ sample ∈ bothZeros, sample.time = .epoch := by decide
  have reversed_at_epoch : ∀ sample ∈ bothZeros.reverse, sample.time = .epoch := by decide
  refine ⟨count, min, ?_, ?_, distinct, in_time distinct _⟩
  · change (bucketed .min (.ofMillis 1000) bothZeros).map _ = _
    rw [bucketed, buckets_of_one_instant _ zeros_at_epoch]
    decide
  · change (bucketed .min (.ofMillis 1000) bothZeros.reverse).map _ = _
    rw [bucketed, buckets_of_one_instant _ reversed_at_epoch]
    decide

end Aggregation
end MetricEngine
