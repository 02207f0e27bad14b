import MetricEngine.Config.Defaults
import MetricEngine.Proofs.Execution.Schedule
import MetricEngine.Proofs.Program.Planner

/-!
The errors that a store reports beside its answers. A select hands them on and every other operation
drops those of its inputs, so a run reports them only if its root is a select.
-/
namespace MetricEngine
open RunState

/-- The errors that come with an answer. -/
def StoreReply.errors (reply : StoreReply) : List String :=
  match reply.outcome with
  | .answered response => response.errors
  | _ => []

variable {setting : RunSetting}

theorem Stage.answer_errors {stage : Stage} {inputs : List Result} {result : Result}
    (answered : stage.answer setting inputs = .ok result) :
    result.errors = (stage.query?.map fun query => (setting.store query).errors).getD [] := by
  rw [Stage.answer] at answered
  cases work : stage.work with
  | select query =>
    simp only [work] at answered
    cases outcome : (setting.store query).outcome with
    | answered response =>
      simp only [outcome, Except.ok.injEq] at answered
      simp [← answered, selected, Result.withErrors, Result.ofQueries, Stage.query?, work,
        StoreReply.errors, outcome]
    | failed error => simp [outcome] at answered
    | broken => simp [outcome] at answered
  | aggregate kind operation =>
    simp only [work] at answered
    split at answered
    next other found =>
      obtain rfl := Except.ok.inj answered
      obtain ⟨queries, _, rfl⟩ := Option.map_eq_some_iff.mp found
      simp [Result.ofQueries, Stage.query?, work]
    next => simp at answered

/-- A successful run reports every error that the store sent to one of its selects exactly if the root of
the program is a select or there was no such error. -/
theorem reported_errors_complete_iff {planner : Planner} {now : Instant} {program : List StageSpec}
    (built : planner.build now program = .ok setting.graph) {deadline : Option Nat} {result : Result}
    (succeeded : (run setting deadline).finish = .published (.ok result)) :
    (∀ query ∈ (run setting deadline).state.received, ∀ error ∈ (setting.store query).errors,
      error ∈ result.errors) ↔
    ((setting.graph.stage? setting.graph.root).any Stage.isSelect ∨
      ∀ query ∈ (run setting deadline).state.received, (setting.store query).errors = []) := by
  have formed := Planner.build_wellFormed built
  obtain ⟨steps, value, execution, value_eq, rfl⟩ := run_succeeds formed succeeded
  have consistent := execution.consistent formed
  obtain ⟨root, inputs, found, _, answered⟩ := RunSetting.value?_eq_some_iff.mp value_eq
  have errors : (value.withWarnings setting.graph.warnings).errors = value.errors := rfl
  rw [errors, Stage.answer_errors answered, found, Option.any_some]
  cases query : root.query? with
  | none => simp [Stage.isSelect, query, List.eq_nil_iff_forall_not_mem]
  | some sent =>
    have select : root.isSelect := by simp [Stage.isSelect, query]
    have alone := Planner.build_select_inputs built found select
    refine ⟨fun _ => .inl select, fun _ other received error member => ?_⟩
    obtain ⟨id, stage, reachable, isStage, same⟩ := consistent.received_from formed received
    obtain rfl := formed.reachable_of_no_inputs found alone reachable
    obtain rfl := Option.some.inj (found.symm.trans isStage)
    obtain rfl := Option.some.inj (query.symm.trans same)
    exact member

/-- One select behind a union, and a store with a shard that did not answer. -/
def shardTimedOut : RunSetting where
  graph := ⟨#[⟨1, none, .select ⟨⟨.epoch, .epoch⟩, [⟨"m", .empty, [], []⟩]⟩, [], [], none⟩,
    ⟨2, none, .aggregate .union .union, [1], [], none⟩], 2⟩
  clock := .epoch
  store _ := ⟨0, .answered ⟨[], ["shard 3 timed out"]⟩⟩
  limit := 0

theorem shardTimedOut_error_lost : ∃ result,
    (run shardTimedOut none).finish = .published (.ok result) ∧
    ¬∀ query ∈ (run shardTimedOut none).state.received,
      ∀ error ∈ (shardTimedOut.store query).errors, error ∈ result.errors := by
  have built : Planner.build ⟨EngineConfig.standard.defaults, true⟩ .epoch
      [{ StageSpec.ofKind .select "m" with range := some ⟨.epoch, .epoch⟩ },
        .ofKind .aggregate "union"] = .ok shardTimedOut.graph := by rfl
  refine ⟨.ofQueries [⟨0, []⟩], rfl, fun kept => ?_⟩
  rcases (reported_errors_complete_iff built rfl).mp kept with select | none
  · exact absurd select (by decide)
  · have := none ⟨⟨.epoch, .epoch⟩, [⟨"m", .empty, [], []⟩]⟩ List.mem_cons_self
    simp [shardTimedOut, StoreReply.errors] at this

end MetricEngine
