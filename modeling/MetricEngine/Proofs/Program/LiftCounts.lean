import MetricEngine.Proofs.Program.Lineage

/-!
The aggregators that a build counts as lifted. They are those of the specifications whose stages were lifted
from a select, each with the kind that its specification names.
-/
namespace MetricEngine

/-- Of the specifications of a program the number of those of a kind whose stages were lifted. -/
def liftedAmong (program : List StageSpec) (stages : List Stage) (kind : AggregatorKind) : Nat :=
  (program.zip stages).countP fun (spec, stage) =>
    stage.liftedFrom.isSome && AggregatorKind.ofName? spec.operation = some kind

theorem liftedAmong_concat {program : List StageSpec} {stages : List Stage}
    (one_for_one : program.length = stages.length) (spec : StageSpec) (stage : Stage)
    (kind : AggregatorKind) :
    liftedAmong (program ++ [spec]) (stages ++ [stage]) kind = liftedAmong program stages kind +
      if stage.liftedFrom.isSome ∧ AggregatorKind.ofName? spec.operation = some kind then 1 else 0 := by
  rw [liftedAmong, List.zip_append one_for_one, List.countP_append]
  simp [liftedAmong, List.countP_cons]

namespace Draft

/-- A draft has a stage for each specification, and its count of each kind is that of the lifted ones. -/
structure CountsLifts (program : List StageSpec) (draft : Draft) : Prop where
  size : draft.stages.size = program.length
  counts : ∀ kind, draft.lifted.count kind = liftedAmong program draft.stages.toList kind

theorem bind_lifted {draft next : Draft} {spec : StageSpec} (bound : draft.bind spec = .ok next) :
    next.lifted = draft.lifted := by
  rw [Draft.bind] at bound
  split at bound
  · exact Except.ok.inj bound ▸ rfl
  · split at bound
    · simp at bound
    · exact Except.ok.inj bound ▸ rfl

end Draft

namespace Planner
variable {planner : Planner} {now : Instant} {draft next : Draft} {spec : StageSpec}

/-- A lifted stage is counted under the kind of its specification, and no other stage is counted. -/
theorem addStage_lifted (added : planner.addStage now draft spec = .ok next) :
    ∃ stage : Stage, next.stages = draft.stages.push stage ∧
      (stage.liftedFrom = none ∧ next.lifted = draft.lifted ∨
        ∃ kind origin, AggregatorKind.ofName? spec.operation = some kind ∧
          stage.liftedFrom = some origin ∧ next.lifted = draft.lifted ++ [kind]) := by
  rw [addStage] at added
  split at added
  next =>
    rw [addSelect_eq] at added
    split at added
    · simp at added
    · obtain ⟨query, _, rfl⟩ := except_map_eq_ok added
      exact ⟨_, rfl, .inl ⟨rfl, rfl⟩⟩
  next =>
    obtain ⟨inputs, kind, _, named, own | ⟨_, select, query, _, lifts⟩⟩ := addAggregate_ok added
    · rw [addOwnStage_eq] at own
      obtain ⟨operation, _, rfl⟩ := except_map_eq_ok own
      exact ⟨_, rfl, .inl ⟨rfl, rfl⟩⟩
    · rw [lift_eq] at lifts
      obtain ⟨aggregation, _, rfl⟩ := except_map_eq_ok lifts
      exact ⟨_, rfl, .inr ⟨kind, select, named, rfl, rfl⟩⟩

theorem addStage_countsLifts {program : List StageSpec} (counts : draft.CountsLifts program)
    (added : planner.addStage now draft spec = .ok next) : next.CountsLifts (program ++ [spec]) := by
  obtain ⟨stage, stages, lifted⟩ := addStage_lifted added
  constructor
  · rw [stages, Array.size_push, counts.size, List.length_append, List.length_singleton]
  · intro kind
    have one_for_one : program.length = draft.stages.toList.length :=
      counts.size.symm.trans Array.length_toList.symm
    rw [stages, Array.toList_push, liftedAmong_concat one_for_one, ← counts.counts]
    obtain ⟨own, lifted⟩ | ⟨_, _, named, from_select, lifted⟩ := lifted
    · simp [own, lifted]
    · simp [named, from_select, lifted, List.count_append, List.count_singleton]

/-- A build counts the aggregators that it lifted. -/
theorem plan_lifted {graph : Graph} {program : List StageSpec}
    (built : (planner.plan now program).outcome = .ok graph) (kind : AggregatorKind) :
    (planner.plan now program).lifted.count kind = liftedAmong program graph.all.toList kind := by
  -- To plan what is left from the draft that was reached is to plan the whole program.
  obtain ⟨final, _, ⟨counts, reached⟩, last, stages⟩ :=
    planFrom_keeps
      (fun before draft => draft.CountsLifts before ∧
        ∀ rest, planner.plan now (before ++ rest) = planner.planFrom now draft rest)
      (by
        rintro before draft spec added bound _ ⟨counts, reached⟩ step binding
        obtain ⟨size, counts⟩ := addStage_countsLifts counts step
        obtain ⟨stages, _⟩ := Draft.bind_keeps binding
        refine ⟨⟨stages ▸ size, ?_⟩, fun rest => ?_⟩
        · simpa only [stages, Draft.bind_lifted binding] using counts
        · rw [List.append_assoc, List.singleton_append, reached, planFrom]
          simp only [step, binding])
      [] built .empty ⟨⟨rfl, fun _ => rfl⟩, fun _ => rfl⟩
  have ended := reached []
  rw [List.append_nil, List.nil_append, planFrom, last] at ended
  rw [ended, stages, counts.counts, List.nil_append]

end Planner
end MetricEngine
