import Mathlib
import MetricEngine.Alert.Summary

/-!
What a summary of an alert evaluation tells. Only results of a certain shape have one: the rules for it are
checked in order, and the first one that is violated gives the error. A summary has one entry for each series
with triggers, so no trigger is lost.
-/
namespace MetricEngine

namespace Series
variable {series : Series} {tags : List String} {group : Table String}

def GroupedByTags (series : Series) : Prop :=
  ∃ tags group, GroupBy.tag tags group ∈ series.groupBy

/-- The first grouping by tags; only groupings by type stand before it. -/
def FirstTagGroup (series : Series) (tags : List String) (group : Table String) : Prop :=
  ∃ before after, series.groupBy = before ++ .tag tags group :: after ∧
    ∀ grouping ∈ before, ∃ dataType, grouping = .type dataType

theorem tagGroup?_eq_some_iff :
    series.tagGroup? = some (tags, group) ↔ series.FirstTagGroup tags group := by
  rw [tagGroup?, List.findSome?_eq_some_iff]
  constructor
  · rintro ⟨before, grouping, after, split, found, none_before⟩
    cases grouping with
    | type => simp at found
    | tag =>
      obtain ⟨rfl, rfl⟩ := Prod.mk.inj (Option.some.inj found)
      refine ⟨before, after, split, fun other member => ?_⟩
      cases other with
      | type dataType => exact ⟨dataType, rfl⟩
      | tag => simpa using none_before _ member
  · rintro ⟨before, after, split, types⟩
    refine ⟨before, _, after, split, rfl, fun other member => ?_⟩
    obtain ⟨dataType, rfl⟩ := types other member
    rfl

theorem tagGroup?_eq_none_iff : series.tagGroup? = none ↔ ¬series.GroupedByTags := by
  rw [tagGroup?, List.findSome?_eq_none_iff]
  constructor
  · rintro types ⟨tags, group, member⟩
    simpa using types _ member
  · intro ungrouped grouping member
    cases grouping with
    | type => rfl
    | tag tags group => exact absurd ⟨tags, group, member⟩ ungrouped

end Series

/-- What an entry of a summary tells of a series. -/
structure FiringGroup.Describes (entry : FiringGroup) (series : Series) : Prop where
  grouped : ∀ tags group, series.FirstTagGroup tags group → entry.group = group
  ungrouped : ¬series.GroupedByTags → entry.group = .empty
  triggers : entry.triggers = series.alerts.length
  ongoing : entry.ongoing ↔ ∃ trigger ∈ series.alerts, trigger.finish = none

/-- What a summary tells of a result. -/
structure AlertSummary.Digests (summary : AlertSummary) (result : Result) : Prop where
  name : ∀ series ∈ result.series, series.name = summary.seriesName
  firing : List.Forall₂ FiringGroup.Describes summary.firing
    (result.series.filter fun series => !series.alerts.isEmpty)
  grouped : ∀ before series after tags group, result.series = before ++ series :: after →
    (∀ other ∈ before, ¬other.GroupedByTags) → series.FirstTagGroup tags group →
    summary.groupBys = tags
  ungrouped : (∀ series ∈ result.series, ¬series.GroupedByTags) → summary.groupBys = []
  window : summary.window = none

/-- The rules for the shape of a result that can be summarised, each with its error, in the order in which
they are checked. -/
def Result.shapeRules (result : Result) : List (Prop × SummaryError) :=
  [(result.queries.length = 1, .queryCount result.queries.length),
    (result.series ≠ [], .noResults),
    (∀ a ∈ result.series, ∀ b ∈ result.series, a.name = b.name, .mixedSeriesNames),
    (1 < result.series.length → ∀ series ∈ result.series, series.GroupedByTags, .missingGroupBy)]

/-- The error of the first rule that does not hold. -/
inductive FirstViolated : List (Prop × SummaryError) → SummaryError → Prop
  | here {rule error rest} (fails : ¬rule) : FirstViolated ((rule, error) :: rest) error
  | later {rule other rest error} (holds : rule) (behind : FirstViolated rest error) :
    FirstViolated ((rule, other) :: rest) error

namespace FirstViolated
variable {rules : List (Prop × SummaryError)} {error other : SummaryError}

theorem not_all (violated : FirstViolated rules error) : ¬∀ rule ∈ rules, rule.1 := by
  intro all
  induction violated with
  | here fails => exact fails (all _ List.mem_cons_self)
  | later _ _ ih => exact ih fun rule member => all rule (List.mem_cons_of_mem _ member)

theorem unique (first : FirstViolated rules error) (second : FirstViolated rules other) : error = other := by
  induction first with
  | here fails =>
    cases second with
    | here => rfl
    | later holds => exact absurd holds fails
  | later holds _ ih =>
    cases second with
    | here fails => exact absurd holds fails
    | later _ behind => exact ih behind

end FirstViolated

namespace AlertSummary
variable {result : Result} {summary : AlertSummary} {all : List Series}

/-! The entries of a summary. -/

theorem firingGroup?_eq_none {series : Series} (quiet : series.alerts = []) :
    series.firingGroup? = none := by
  simp [Series.firingGroup?, quiet]

theorem firingGroup?_describes {series : Series} (fires : series.alerts ≠ []) :
    ∃ entry, series.firingGroup? = some entry ∧ entry.Describes series := by
  refine ⟨_, if_neg (by simpa using fires), ?_, ?_, rfl, ?_⟩
  · intro tags group first
    simp [Series.tagGroup?_eq_some_iff.mpr first]
  · intro ungrouped
    simp [Series.tagGroup?_eq_none_iff.mpr ungrouped]
  · simp [Trigger.isOngoing]

/-- Series without triggers are left out, and the others keep their order. -/
theorem firingGroups_describe (all : List Series) :
    List.Forall₂ FiringGroup.Describes (all.filterMap Series.firingGroup?)
      (all.filter fun series => !series.alerts.isEmpty) := by
  induction all with
  | nil => exact .nil
  | cons series rest ih =>
    by_cases quiet : series.alerts = []
    · rw [List.filterMap_cons_none (firingGroup?_eq_none quiet), List.filter_cons_of_neg (by simp [quiet])]
      exact ih
    · obtain ⟨entry, found, describes⟩ := firingGroup?_describes quiet
      rw [List.filterMap_cons_some found, List.filter_cons_of_pos (by simp [quiet])]
      exact .cons describes ih

theorem triggers_sum_of_describe {entries : List FiringGroup}
    (describe : List.Forall₂ FiringGroup.Describes entries all) :
    (entries.map (·.triggers)).sum = (all.map (·.alerts.length)).sum := by
  induction describe with
  | nil => rfl
  | cons describes _ ih =>
    rw [List.map_cons, List.map_cons, List.sum_cons, List.sum_cons, describes.triggers, ih]

theorem alerts_sum_filter (all : List Series) :
    ((all.filter fun series => !series.alerts.isEmpty).map (·.alerts.length)).sum =
      (all.map (·.alerts.length)).sum := by
  induction all with
  | nil => rfl
  | cons series rest ih =>
    by_cases quiet : series.alerts = [] <;> simp [quiet, ih]

namespace Digests

theorem triggers_sum (digests : summary.Digests result) :
    (summary.firing.map (·.triggers)).sum = result.alertCount := by
  rw [triggers_sum_of_describe digests.firing, alerts_sum_filter, Result.alertCount, Result.alerts,
    List.length_flatMap]

theorem isFiring_iff (digests : summary.Digests result) : summary.isFiring ↔ 0 < result.alertCount := by
  have lengths := digests.firing.length_eq
  have fires : summary.isFiring ↔ summary.firing ≠ [] := by simp [isFiring]
  rw [fires, ← List.length_pos_iff, lengths, List.length_pos_iff, Result.alertCount, List.length_pos_iff,
    Result.alerts]
  simp

end Digests

/-! Building a summary. -/

variable {first : Series}

theorem ofSeries_of_mixed (mixed : ∃ series ∈ all, series.name ≠ first.name) :
    ofSeries first all = .error .mixedSeriesNames := by
  rw [ofSeries, if_pos (by simpa using mixed)]
  rfl

theorem anyUngrouped_iff : (all.any fun series => series.tagGroup?.isNone) ↔
    ∃ series ∈ all, ¬series.GroupedByTags := by
  simp [Series.tagGroup?_eq_none_iff]

theorem ofSeries_of_ungrouped (same : ∀ series ∈ all, series.name = first.name) (several : 1 < all.length)
    (ungrouped : ∃ series ∈ all, ¬series.GroupedByTags) :
    ofSeries first all = .error .missingGroupBy := by
  rw [ofSeries, if_neg (by simpa using same), anyUngrouped_iff.mpr ungrouped, if_pos (by simpa using several)]
  rfl

/-- The summary of series that have the shape for it. -/
def digest (first : Series) (all : List Series) : AlertSummary where
  seriesName := first.name
  groupBys := ((all.findSome? Series.tagGroup?).map (·.1)).getD []
  firing := all.filterMap Series.firingGroup?
  window := none

theorem ofSeries_of_grouped (same : ∀ series ∈ all, series.name = first.name)
    (grouped : 1 < all.length → ∀ series ∈ all, series.GroupedByTags) :
    ofSeries first all = .ok (digest first all) := by
  have told_apart : ¬((1 < all.length && all.any fun series => series.tagGroup?.isNone) = true) := by
    rw [Bool.and_eq_true, decide_eq_true_eq, anyUngrouped_iff]
    rintro ⟨several, series, member, ungrouped⟩
    exact ungrouped (grouped several series member)
  rw [ofSeries, if_neg (by simpa using same), if_neg told_apart]
  rfl

theorem digest_digests (same : ∀ series ∈ result.series, series.name = first.name) :
    (digest first result.series).Digests result where
  name := same
  firing := firingGroups_describe _
  grouped before series after tags group split ungrouped grouped := by
    have found : result.series.findSome? Series.tagGroup? = some (tags, group) :=
      List.findSome?_eq_some_iff.mpr ⟨before, series, after, split,
        Series.tagGroup?_eq_some_iff.mpr grouped,
        fun other member => Series.tagGroup?_eq_none_iff.mpr (ungrouped other member)⟩
    simp only [digest, found, Option.map_some, Option.getD_some]
  ungrouped none_grouped := by
    have found : result.series.findSome? Series.tagGroup? = none :=
      List.findSome?_eq_none_iff.mpr fun series member =>
        Series.tagGroup?_eq_none_iff.mpr (none_grouped series member)
    simp only [digest, found, Option.map_none, Option.getD_none]
  window := rfl

/-- What building a summary comes to: a digest of a result that keeps the rules, or the error of the first
rule that is violated. -/
def Answers (result : Result) : Except SummaryError AlertSummary → Prop
  | .ok summary => (∀ rule ∈ result.shapeRules, rule.1) ∧ summary.Digests result
  | .error error => FirstViolated result.shapeRules error

theorem ofSeries_answers (one : result.queries.length = 1) (first_listed : first ∈ result.series) :
    Answers result (ofSeries first result.series) := by
  have some_series : result.series ≠ [] := List.ne_nil_of_mem first_listed
  by_cases same : ∀ series ∈ result.series, series.name = first.name
  · have one_name : ∀ a ∈ result.series, ∀ b ∈ result.series, a.name = b.name :=
      fun a a_listed b b_listed => (same a a_listed).trans (same b b_listed).symm
    by_cases told_apart : 1 < result.series.length → ∀ series ∈ result.series, series.GroupedByTags
    · rw [ofSeries_of_grouped same told_apart]
      refine ⟨?_, digest_digests same⟩
      simpa [Result.shapeRules] using ⟨one, some_series, one_name, told_apart⟩
    · have refused := told_apart
      push Not at refused
      rw [ofSeries_of_ungrouped same refused.1 refused.2]
      exact .later one (.later some_series (.later one_name (.here told_apart)))
  · have mixed : ∃ series ∈ result.series, series.name ≠ first.name := by simpa using same
    rw [ofSeries_of_mixed mixed]
    refine .later one (.later some_series (.here fun one_name => same fun series member => ?_))
    exact one_name series member first first_listed

theorem ofResult_answers (result : Result) : Answers result (ofResult result) := by
  unfold ofResult
  split
  next query only =>
    -- The series of the one query are all series of the result.
    have one : result.queries.length = 1 := by rw [only, List.length_singleton]
    have series : result.series = query.series := by simp [Result.series, only]
    split
    next none_listed => exact .later one (.here fun some_series => some_series (series.trans none_listed))
    next first rest listed =>
      rw [← series] at listed ⊢
      exact ofSeries_answers one (listed ▸ List.mem_cons_self)
  next queries other_count =>
    refine .here fun one => ?_
    obtain ⟨query, only⟩ := List.length_eq_one_iff.mp one
    exact other_count query only

end AlertSummary

open AlertSummary

/-- A result is summarised exactly if it keeps all rules for its shape; otherwise the error is that of the
first one that it violates. The entries of a summary are, in order, those of the series with triggers, and its
grouping keys are those of the first series that is grouped by tags. So it counts all triggers and fires
exactly if there is one. -/
theorem summaries_faithful (result : Result) :
    ((∃ summary, ofResult result = .ok summary) ↔ ∀ rule ∈ result.shapeRules, rule.1) ∧
    (∀ error, ofResult result = .error error ↔ FirstViolated result.shapeRules error) ∧
    ∀ summary, ofResult result = .ok summary →
      summary.Digests result ∧
      (summary.firing.map (·.triggers)).sum = result.alertCount ∧
      (summary.isFiring ↔ 0 < result.alertCount) := by
  have answers := ofResult_answers result
  cases outcome : ofResult result with
  | ok summary =>
    rw [outcome] at answers
    obtain ⟨kept, digests⟩ := answers
    refine ⟨iff_of_true ⟨summary, rfl⟩ kept, fun error => ?_, ?_⟩
    · exact iff_of_false (by simp) fun violated => violated.not_all kept
    · rintro _ ⟨⟩
      exact ⟨digests, digests.triggers_sum, digests.isFiring_iff⟩
  | error error =>
    rw [outcome] at answers
    refine ⟨iff_of_false (by simp) answers.not_all, fun other => ?_, by simp⟩
    constructor
    · rintro ⟨⟩
      exact answers
    · intro violated
      rw [answers.unique violated]

/-- The load of one of two hosts, as an evaluation leaves it. -/
def loadOf (host : String) (alerts : List Trigger) : Series :=
  { Series.named "load" with
    alerts := alerts
    groupBy := [.type "gauge", .tag ["host"] (.ofList [("host", host)])] }

/-- One host has had an alert and has another one that goes on; the other host is quiet. -/
def oneHostFires : Result :=
  .ofQueries [.ofSeries [
    loadOf "a" [⟨.earliest, some .epoch, "", .empty, .empty⟩, ⟨.latest, none, "", .empty, .empty⟩],
    loadOf "b" []]]

theorem oneHostFires_summarised :
    let summary : AlertSummary := ⟨"load", ["host"], [⟨.ofList [("host", "a")], 2, true⟩], none⟩
    ofResult oneHostFires = .ok summary ∧ (∀ rule ∈ oneHostFires.shapeRules, rule.1) ∧
    (summary.firing.map (·.triggers)).sum = oneHostFires.alertCount ∧ summary.isFiring := by
  intro summary
  have made : ofResult oneHostFires = .ok summary := by rfl
  obtain ⟨shape, _, digests⟩ := summaries_faithful oneHostFires
  obtain ⟨_, all, _⟩ := digests summary made
  exact ⟨made, shape.mp ⟨summary, made⟩, all, rfl⟩

end MetricEngine
