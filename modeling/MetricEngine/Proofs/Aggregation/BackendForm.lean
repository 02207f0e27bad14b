import MetricEngine.Aggregation.Definition
import MetricEngine.Config.Defaults
import MetricEngine.Program.Operation
import MetricEngine.Proofs.ListFacts
import MetricEngine.Proofs.Program.Reading

/-!
The form that aggregations have in store queries. A store that decodes it gets back the aggregation that
was read from the arguments of a stage, and so does a stage of its own.
-/
namespace MetricEngine

theorem AggregatorKind.ofName?_name (kind : AggregatorKind) : ofName? kind.name = some kind := by
  cases kind <;> decide

theorem SamplingUnit.millis_pos (unit : SamplingUnit) : 0 < unit.millis := by
  cases unit <;> decide

namespace Sampling

/-- A sampling states a number of milliseconds exactly, in a unit than which no larger one divides it. -/
structure States (sampling : Sampling) (millis : Int) : Prop where
  exact : sampling.value * sampling.unit.millis = millis
  nonnegative : 0 ≤ sampling.value
  short : sampling.value ≤ millis
  largest : millis ≠ 0 → ∀ unit : SamplingUnit, unit.millis ∣ millis → unit.millis ≤ sampling.unit.millis

theorem ofSpan_states {millis : Int} (nonnegative : 0 ≤ millis) :
    (ofSpan (.ofMillis millis)).States millis := by
  have whole : (Span.ofMillis millis).millis = millis := by
    simp only [Span.millis, Span.ofMillis, Span.nanosPerMilli]
    exact Int.mul_tdiv_cancel _ (by decide)
  have listed : ∀ unit : SamplingUnit, unit = .milliseconds ∨
      unit ∈ [SamplingUnit.days, .hours, .minutes, .seconds] := by
    intro unit
    cases unit <;> simp
  have descending : [SamplingUnit.days, .hours, .minutes, .seconds].Pairwise
      fun larger smaller => smaller.millis ≤ larger.millis := by decide
  simp only [ofSpan]
  rw [whole]
  split
  next unit found =>
    have holds := List.find?_some found
    simp only [ne_eq, Bool.decide_and, Bool.and_eq_true, decide_eq_true_eq] at holds
    refine ⟨Int.ediv_mul_cancel (Int.dvd_of_emod_eq_zero holds.2),
      Int.ediv_nonneg nonnegative (Int.le_of_lt unit.millis_pos), Int.ediv_le_self _ nonnegative, ?_⟩
    intro filled other divides
    -- The units are tried from the largest one on, so what divides as well comes later.
    rcases listed other with rfl | member
    · exact unit.millis_pos
    · have first := ListFacts.find?_first descending found member
        (decide_eq_true ⟨filled, Int.emod_eq_zero_of_dvd divides⟩)
      rcases first with rfl | larger
      · exact Int.le_refl _
      · exact larger
  next none =>
    refine ⟨Int.mul_one millis, nonnegative, Int.le_refl _, ?_⟩
    intro filled other divides
    rcases listed other with rfl | member
    · exact Int.le_refl _
    · have fails := List.find?_eq_none.mp none other member
      exact absurd (decide_eq_true ⟨filled, Int.emod_eq_zero_of_dvd divides⟩) fails

theorem ofSpan_span? {millis : Int} (nonnegative : 0 ≤ millis) (short : millis ≤ Period.longestMillis) :
    (ofSpan (.ofMillis millis)).span? = some (.ofMillis millis) := by
  have fits : -Span.maxMillis ≤ millis ∧ millis ≤ Span.maxMillis := by
    rw [Span.maxMillis]
    rw [Period.longestMillis] at short
    omega
  rw [span?, (ofSpan_states nonnegative).exact]
  simp [Span.ofMillis?, fits]

end Sampling

/-- Numbers from 0 to 100 are finite. -/
theorem Binary64.isFinite_of_percentage {x : Binary64} (nonnegative : le 0 x) (short : le x .hundred) :
    x.isFinite := by
  have zero : (0 : Binary64).rank = 0 := by decide
  have hundred : Binary64.hundred.rank = 0x4059000000000000 := by decide
  simp only [le, Bool.and_eq_true, decide_eq_true_eq, zero, hundred] at nonnegative short
  have bounds : 0 ≤ x.rank ∧ x.rank ≤ 0x4059000000000000 := ⟨nonnegative.2, short.2⟩
  have rank : x.rank = if x.isNegative then -(x.magnitude : Int) else x.magnitude := rfl
  rw [isFinite, decide_eq_true_eq]
  split at rank <;> omega

namespace Aggregation
open ArgumentReader

/-- Only functions with buckets have a period, which is positive and a period that can be stated. -/
def Statable (aggregation : Aggregation) : Prop :=
  if aggregation.function.kind.hasSampling then
    ∃ span, aggregation.period = some span ∧ Period.InBounds span ∧ .zero < span
  else aggregation.period = none

theorem decodeFunction_toAggregator (aggregation : Aggregation) :
    decodeFunction aggregation.toAggregator = .ok aggregation.function := by
  obtain ⟨function, period⟩ := aggregation
  have found : AggregatorKind.ofName? function.name = some function.kind :=
    AggregatorKind.ofName?_name function.kind
  unfold decodeFunction toAggregator
  dsimp only
  rw [found]
  cases function <;> rfl

/-- Decoding the form of an aggregation gives it back. -/
theorem ofAggregator_toAggregator {aggregation : Aggregation} (statable : aggregation.Statable) :
    ofAggregator aggregation.toAggregator = .ok aggregation := by
  obtain ⟨function, period⟩ := aggregation
  rw [Statable] at statable
  simp only [ofAggregator, decodeFunction_toAggregator, bind, Except.bind]
  split at statable
  next sampled =>
    obtain ⟨_, rfl, ⟨millis, short, rfl⟩, positive⟩ := statable
    have positive_millis : 0 < millis := by
      have : (0 : Int) < millis * 1000000 := positive
      omega
    have decoded := Sampling.ofSpan_span? (Int.le_of_lt positive_millis) short
    have not_zero : ¬Span.ofMillis millis ≤ .zero := Int.not_le.mpr positive
    simp only [toAggregator, Option.map_some, decoded, if_neg not_zero, if_pos sampled]
    rfl
  next plain =>
    obtain rfl := statable
    rw [if_neg plain]
    rfl

theorem readFunction_ensures (kind : AggregatorKind) :
    Ensures (readFunction kind) fun function => function.kind = kind := by
  cases kind with
  | percentile =>
    refine .bind .any fun target _ => ?_
    split
    · exact .pure rfl
    · exact .refuse
  | min => exact .pure rfl
  | max => exact .pure rfl
  | merge => exact .pure rfl
  | count => exact .pure rfl
  | avg => exact .pure rfl
  | sum => exact .pure rfl
  | diff => exact .pure rfl
  | threshold => exact .throw
  | dataAbsent => exact .throw
  | union => exact .throw
  | top => exact .throw
  | bottom => exact .throw

/-- A percentile that is read lies between 0 and 100, so it can be written as a JSON number. -/
theorem readFunction_percentage (kind : AggregatorKind) :
    Ensures (readFunction kind) fun function => ∀ target, function = .percentile target →
      Binary64.le 0 target ∧ Binary64.le target .hundred ∧ target.isFinite := by
  cases kind with
  | percentile =>
    refine .bind .any fun target _ => ?_
    split
    next inside =>
      apply Ensures.pure
      rintro other same
      obtain rfl := AggregationFunction.percentile.inj same
      obtain ⟨nonnegative, short⟩ := Bool.and_eq_true_iff.mp inside
      exact ⟨nonnegative, short, Binary64.isFinite_of_percentage nonnegative short⟩
    next => exact .refuse
  | threshold => exact .throw
  | dataAbsent => exact .throw
  | union => exact .throw
  | top => exact .throw
  | bottom => exact .throw
  | _ => exact .pure (by simp)

/-- What is read behind a function does not change it. -/
theorem read_function {kind : AggregatorKind} {standard : Span} {post : AggregationFunction → Prop}
    (ensures : Ensures (readFunction kind) post) :
    Ensures (read kind standard) fun aggregation => post aggregation.function := by
  refine .bind ensures fun function holds => ?_
  split
  · refine .bind .any fun given _ => ?_
    dsimp only
    split
    · exact .bind .refuse fun _ none => absurd none not_false
    · exact .pure holds
  · exact .pure holds

theorem read_ensures {kind : AggregatorKind} {standard : Span} (bounds : Period.InBounds standard) :
    Ensures (read kind standard) fun aggregation =>
      aggregation.function.kind = kind ∧ aggregation.Statable := by
  refine .bind (readFunction_ensures kind) fun function same => ?_
  subst same
  split
  next sampled =>
    refine .bind (.period? "period") fun given in_bounds => ?_
    dsimp only
    split
    next => exact .bind .refuse fun _ none => absurd none not_false
    next positive =>
      refine .pure ⟨rfl, ?_⟩
      rw [Statable, if_pos sampled]
      refine ⟨_, rfl, ?_, Int.not_le.mp positive⟩
      cases given with
      | none => exact bounds
      | some span => exact in_bounds span rfl
  next plain =>
    refine .pure ⟨rfl, ?_⟩
    rw [Statable, if_neg plain]

end Aggregation
end MetricEngine
