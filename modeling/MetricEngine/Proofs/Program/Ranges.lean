import Mathlib.Data.Int.Order.Basic
import MetricEngine.Proofs.Program.Lineage
import MetricEngine.Proofs.Time.Order

/-!
The ranges that the selects of a program ask for. A select without a range takes over the one that was stated
last, and if none was stated the default one; everything else in a program is without influence.
-/
namespace MetricEngine
open Relation

/-- The range that a select specification states. -/
def StageSpec.statedRange? (spec : StageSpec) : Option TimeRange :=
  if spec.kind = .select then spec.range else none

/-- The ranges that the selects among some specifications state, in their order. -/
def statedRanges (specs : List StageSpec) : List TimeRange :=
  specs.filterMap StageSpec.statedRange?

/-- The range that was stated last, or the default one if none was stated. -/
def rangeInForce (default : TimeRange) (specs : List StageSpec) : TimeRange :=
  (statedRanges specs).getLast?.getD default

/-- A stage is a select that asks for some range. -/
def Graph.AsksFor (graph : Graph) (id : Nat) (range : TimeRange) : Prop :=
  ∃ stage query, graph.stage? id = some stage ∧ stage.query? = some query ∧ query.range = range

theorem rangeInForce_concat (default : TimeRange) (specs : List StageSpec) (spec : StageSpec) :
    rangeInForce default (specs ++ [spec]) = spec.statedRange?.getD (rangeInForce default specs) := by
  rw [rangeInForce, statedRanges, List.filterMap_append, List.getLast?_append]
  cases stated : spec.statedRange? <;> simp [stated, rangeInForce, statedRanges]

/-! The default range. -/

/-- Going back from an instant is going back in the time since the epoch. It leads into a leap second only
from within that. -/
theorem Instant.sub?_eq_make? (now : Instant) {lookback : Span} (back : .zero ≤ lookback) :
    ∃ second nanos, now.sub? lookback = make? second nanos ∧
      second * Span.nanosPerSecond + nanos = now.sinceEpoch - lookback.nanos ∧
      second ≤ latest.second ∧ nanos < 2000000000 ∧
      (1000000000 ≤ nanos → second = now.second ∧ second % 60 = 59) := by
  have back : 0 ≤ lookback.nanos := back
  have nanos_lt := now.nanos_lt
  have le_latest := now.le_latest
  have last : latest.second = 8210266876799 := rfl
  have unit : Span.nanosPerSecond = 1000000000 := rfl
  have since : now.sinceEpoch = now.second * 1000000000 + now.nanos := rfl
  have leap : now.isLeap ↔ 1000000000 ≤ now.nanos := by simp [isLeap]
  rw [last, unit, since]
  by_cases within : now.isLeap ∧ 1000000000 ≤ (now.nanos : Int) - lookback.nanos
  · -- The instant lies in a leap second, and so does the earlier one.
    have stays : now.sub? lookback = make? now.second ((now.nanos : Int) - lookback.nanos).toNat := by
      have short : (now.nanos : Int) - lookback.nanos < 2000000000 := by omega
      simp [sub?, add?, unit, within, ← Int.sub_eq_add_neg, short]
    exact ⟨_, _, stays, by omega, le_latest, by omega,
      fun _ => ⟨rfl, now.leap_ends_minute (leap.mp within.1)⟩⟩
  · have leaves : now.sub? lookback = ofNanos? (now.sinceEpoch - lookback.nanos) := by
      simp [sub?, add?, unit, ← Int.sub_eq_add_neg, within]
    rw [leap] at within
    refine ⟨_, _, leaves, ?_, ?_, ?_, ?_⟩ <;> rw [since, unit] <;> omega

theorem TimeRange.endingAt_start {now : Instant} {lookback : Span} (back : .zero ≤ lookback) :
    (endingAt now lookback).start.sinceEpoch =
      max Instant.earliest.sinceEpoch (now.sinceEpoch - lookback.nanos) := by
  obtain ⟨second, nanos, sub, moved, le_latest, nanos_lt, leap⟩ :=
    now.sub?_eq_make? back
  have first : Instant.earliest.sinceEpoch = -8334601228800 * Span.nanosPerSecond := rfl
  rw [first, ← moved, Span.nanosPerSecond]
  by_cases in_range : Instant.earliest.second ≤ second
  · obtain ⟨start, made, rfl, rfl⟩ := Instant.make?_of_bounds second nanos in_range le_latest nanos_lt
      fun late => (leap late).2
    have same : (endingAt now lookback).start = start := by simp [endingAt, sub, made]
    have since : start.sinceEpoch = start.second * 1000000000 + start.nanos := rfl
    have earliest_le := start.earliest_le
    rw [same, since, max_eq_right (by omega)]
  · have none : Instant.make? second nanos = none := dif_neg fun bounds => in_range bounds.1.1
    have same : (endingAt now lookback).start = .earliest := by simp [endingAt, sub, none]
    have before : second < -8334601228800 := Int.not_le.mp in_range
    have earliest_le := now.earliest_le
    rw [same, max_eq_left (by omega)]
    rfl

/-! What planning does with ranges. -/

namespace Draft

/-- The selects built for a list of specifications ask for the ranges in force, and the next one will
take over the last of them. -/
structure Ranged (default : TimeRange) (specs : List StageSpec) (draft : Draft) : Prop where
  size : draft.stages.size = specs.length
  current : draft.range.getD default = rangeInForce default specs
  selected : ∀ {place spec}, specs[place]? = some spec → spec.kind = .select →
    ∃ stage query, draft.stage? (place + 1) = some stage ∧ stage.query? = some query ∧
      query.range = rangeInForce default (specs.take (place + 1))

namespace Ranged
variable {default : TimeRange} {specs : List StageSpec} {draft next : Draft} {spec : StageSpec}

theorem empty : Ranged default [] .empty :=
  ⟨rfl, rfl, by simp⟩

theorem push (ranged : Ranged default specs draft) {stage : Stage}
    (stages : next.stages = draft.stages.push stage)
    (current : next.range.getD default = rangeInForce default (specs ++ [spec]))
    (asks : spec.kind = .select →
      ∃ query, stage.query? = some query ∧ query.range = rangeInForce default (specs ++ [spec])) :
    Ranged default (specs ++ [spec]) next := by
  refine ⟨by simp [stages, ranged.size], current, ?_⟩
  intro place other at_place select
  by_cases before : place < specs.length
  · rw [List.getElem?_append_left before] at at_place
    obtain ⟨old, query, found, old_asks, range⟩ := ranged.selected at_place select
    rw [List.take_append_of_le_length before]
    exact ⟨old, query, (stage?_push_iff stages).mpr (.inr found), old_asks, range⟩
  · obtain rfl : place = specs.length := by
      have within := (List.getElem?_eq_some_iff.mp at_place).1
      rw [List.length_append, List.length_singleton] at within
      omega
    rw [List.getElem?_concat_length] at at_place
    obtain rfl := Option.some.inj at_place
    obtain ⟨query, new_asks, range⟩ := asks select
    refine ⟨stage, query, (stage?_push_iff stages).mpr (.inl ⟨by rw [ranged.size], rfl⟩), new_asks, ?_⟩
    rw [range, List.take_of_length_le (by simp)]

theorem same_stages (ranged : Ranged default specs draft) (stages : next.stages = draft.stages)
    (range : next.range = draft.range) : Ranged default specs next := by
  have same : next.stage? = draft.stage? := by
    funext id
    simp only [stage?, Graph.stage?, stages]
  exact ⟨stages ▸ ranged.size, range ▸ ranged.current, same ▸ ranged.selected⟩

end Ranged
end Draft

namespace Planner
open Draft
variable {planner : Planner} {now : Instant} {draft added : Draft} {spec : StageSpec}
  {specs : List StageSpec}

theorem addStage_ranged
    (ranged : Ranged (.endingAt now planner.defaults.lookback) specs draft)
    (step : planner.addStage now draft spec = .ok added) :
    Ranged (.endingAt now planner.defaults.lookback) (specs ++ [spec]) added := by
  rw [addStage] at step
  split at step
  next kind =>
    rw [addSelect_eq, selection] at step
    split at step
    · simp at step
    · obtain ⟨query, selected, rfl⟩ := except_map_eq_ok step
      obtain ⟨metric, _, rfl⟩ := except_map_eq_ok selected
      have range : (spec.range.or draft.range).getD (.endingAt now planner.defaults.lookback) =
          rangeInForce (.endingAt now planner.defaults.lookback) (specs ++ [spec]) := by
        rw [rangeInForce_concat, ← ranged.current, StageSpec.statedRange?, if_pos kind]
        cases spec.range <;> rfl
      exact ranged.push rfl range fun _ => ⟨_, rfl, range⟩
  next kind =>
    have current : draft.range.getD (.endingAt now planner.defaults.lookback) =
        rangeInForce (.endingAt now planner.defaults.lookback) (specs ++ [spec]) := by
      rw [rangeInForce_concat, ← ranged.current, StageSpec.statedRange?, if_neg (by simp [kind])]
      rfl
    have no_select : spec.kind ≠ .select := by simp [kind]
    obtain ⟨inputs, aggregator, _, _, own | ⟨_, select, query, _, lifts⟩⟩ := addAggregate_ok step
    · rw [addOwnStage_eq] at own
      obtain ⟨operation, _, rfl⟩ := except_map_eq_ok own
      exact ranged.push rfl current fun select => absurd select no_select
    · rw [lift_eq] at lifts
      obtain ⟨aggregation, _, rfl⟩ := except_map_eq_ok lifts
      exact ranged.push rfl current fun select => absurd select no_select

theorem build_ranged {program : List StageSpec} {graph : Graph}
    (built : planner.build now program = .ok graph) {place : Nat}
    (at_place : program[place]? = some spec) (select : spec.kind = .select) :
    graph.AsksFor (place + 1)
      (rangeInForce (.endingAt now planner.defaults.lookback) (program.take (place + 1))) := by
  obtain ⟨final, _, ranged, _, stages⟩ :=
    planFrom_keeps (Ranged (.endingAt now planner.defaults.lookback))
      (fun _ ranged step binding =>
        (addStage_ranged ranged step).same_stages (bind_keeps binding).1 (bind_range_lookup binding).1)
      [] built .empty .empty
  obtain ⟨stage, query, found, asks, range⟩ := ranged.selected at_place select
  exact ⟨stage, query, by rwa [stage?_of_all stages], asks, range⟩

end Planner

/-- Whatever is lifted from a select, directly or through others, asks for its range. -/
theorem Recorded.asksFor {graph : Graph} {program : List StageSpec} {defaultPeriod : Span}
    (recorded : Recorded defaultPeriod program graph.stage?) {id base : Nat} {range : TimeRange}
    (descends : ReflTransGen graph.Origin id base) (asks : graph.AsksFor base range) :
    graph.AsksFor id range := by
  induction descends using ReflTransGen.head_induction_on with
  | refl => exact asks
  | head lifted _ ih =>
    obtain ⟨stage, found, from_origin⟩ := lifted
    obtain ⟨_, _, built⟩ := recorded.built found
    cases built with
    | select => simp at from_origin
    | own => simp at from_origin
    | lifted is_base base_asks =>
      obtain rfl := Option.some.inj from_origin
      obtain ⟨other, query, other_found, other_asks, same⟩ := ih
      obtain rfl := Option.some.inj (is_base.symm.trans other_found)
      obtain rfl := Option.some.inj (base_asks.symm.trans other_asks)
      exact ⟨_, _, found, rfl, same⟩

theorem Graph.AsksFor.unique {graph : Graph} {id : Nat} {range other : TimeRange}
    (asks : graph.AsksFor id range) (asks_other : graph.AsksFor id other) : range = other := by
  obtain ⟨stage, query, found, asks, rfl⟩ := asks
  obtain ⟨stage', query', found', asks', rfl⟩ := asks_other
  obtain rfl := Option.some.inj (found.symm.trans found')
  obtain rfl := Option.some.inj (asks.symm.trans asks')
  rfl

/-- A select, and every select that is lifted from it, asks for the range that it states itself or, if it
states none, for that of the nearest select before it that states one; if there is none, for the time from
`now` back to the default lookback, as far as instants go. Selects of two programs with the same ranges
stated before them ask for the same range, whatever else the programs specify. -/
theorem selects_ask_for_range_in_force {planner : Planner} {now : Instant} {program : List StageSpec}
    {graph : Graph} (built : planner.build now program = .ok graph) :
    (∀ place spec, program[place]? = some spec → spec.kind = .select →
      ∀ id, ReflTransGen graph.Origin id (place + 1) →
        graph.AsksFor id
          (rangeInForce (.endingAt now planner.defaults.lookback) (program.take (place + 1)))) ∧
    (TimeRange.endingAt now planner.defaults.lookback).finish = now ∧
    (.zero ≤ planner.defaults.lookback →
      (TimeRange.endingAt now planner.defaults.lookback).start.sinceEpoch =
        max Instant.earliest.sinceEpoch (now.sinceEpoch - planner.defaults.lookback.nanos)) ∧
    ∀ (other : Planner) other_program other_graph, other.defaults.lookback = planner.defaults.lookback →
      other.build now other_program = .ok other_graph →
      ∀ place spec other_place other_spec, program[place]? = some spec → spec.kind = .select →
        other_program[other_place]? = some other_spec → other_spec.kind = .select →
        statedRanges (program.take (place + 1)) =
          statedRanges (other_program.take (other_place + 1)) →
        ∀ range, graph.AsksFor (place + 1) range → other_graph.AsksFor (other_place + 1) range := by
  refine ⟨?_, rfl, TimeRange.endingAt_start, ?_⟩
  · intro place spec at_place select id descends
    obtain ⟨_, recorded⟩ := Planner.build_recorded built
    exact recorded.asksFor descends (Planner.build_ranged built at_place select)
  · intro other other_program other_graph lookback other_built place spec other_place other_spec at_place
      select at_other_place other_select same range asks
    have in_force := Planner.build_ranged built at_place select
    have other_in_force := Planner.build_ranged other_built at_other_place other_select
    rw [rangeInForce, ← same, lookback] at other_in_force
    exact in_force.unique asks ▸ other_in_force

/-- Three selects of which the second one states a range, with aggregators lifted into the others. -/
def wholeTimeInBetween : List StageSpec :=
  [.ofKind .select "load", .ofKind .aggregate "sum",
    { StageSpec.ofKind .select "faults" with range := some ⟨.earliest, .latest⟩ },
    .ofKind .select "requests", .ofKind .aggregate "max"]

/-- What is lifted into the first select asks for the last hour, and what is lifted into the last one for all
time. -/
theorem wholeTimeInBetween_ranges : ∃ graph,
    Planner.build ⟨EngineConfig.standard.defaults, true⟩ .epoch wholeTimeInBetween = .ok graph ∧
    graph.AsksFor 2 (.endingAt .epoch (.ofMillis 3600000)) ∧ graph.AsksFor 5 ⟨.earliest, .latest⟩ := by
  have built : ∃ graph,
      Planner.build ⟨EngineConfig.standard.defaults, true⟩ .epoch wholeTimeInBetween = .ok graph ∧
      (graph.stage? 2).map (·.liftedFrom) = some (some 1) ∧
      (graph.stage? 5).map (·.liftedFrom) = some (some 4) := ⟨_, rfl, rfl, rfl⟩
  obtain ⟨graph, built, sum, maximum⟩ := built
  obtain ⟨sum, sum_found, sum_origin⟩ := Option.map_eq_some_iff.mp sum
  obtain ⟨maximum, maximum_found, maximum_origin⟩ := Option.map_eq_some_iff.mp maximum
  obtain ⟨ranges, _⟩ := selects_ask_for_range_in_force built
  exact ⟨graph, built, ranges 0 _ rfl rfl 2 (.single ⟨sum, sum_found, sum_origin⟩),
    ranges 3 _ rfl rfl 5 (.single ⟨maximum, maximum_found, maximum_origin⟩)⟩

end MetricEngine
