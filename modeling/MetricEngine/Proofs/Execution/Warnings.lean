import MetricEngine.Proofs.Execution.AnyStore
import MetricEngine.Proofs.Program.UnknownArguments

/-!
The warnings of a run. They are about the arguments that the stages of the graph do not understand: each
one of every specification whose stage the root needs, or one of those that it was lifted from, exactly
once.
-/
namespace MetricEngine
open Relation RunState

/-- The warnings about the arguments that the stage of a specification does not understand. -/
def StageSpec.warnings (spec : StageSpec) : List String :=
  spec.unknownKeys.map fun key => "Unknown argument " ++ key

/-- The warnings about the specifications of some stages. -/
def warningsAbout (program : List StageSpec) (ids : List Nat) : List String :=
  ids.flatMap fun id => (program[id - 1]?).toList.flatMap (·.warnings)

theorem Planner.build_warningsOf {planner : Planner} {now : Instant} {program : List StageSpec}
    {graph : Graph} (built : planner.build now program = .ok graph) {id : Nat} (positive : 0 < id) :
    graph.warningsOf id = (program[id - 1]?).toList.flatMap (·.warnings) := by
  obtain ⟨index, rfl⟩ := Nat.exists_eq_succ_of_ne_zero (Nat.ne_of_gt positive)
  have unknown := congrArg (fun keys => keys[index]?) (build_unknown built)
  simp only [List.getElem?_map, Array.getElem?_toList] at unknown
  have found : graph.stage? (index + 1) = graph.all[index]? := rfl
  simp only [Graph.warningsOf, StageSpec.warnings, Nat.succ_eq_add_one, Nat.add_sub_cancel, found]
  cases stage : graph.all[index]? with
  | none =>
    rw [stage, Option.map_none, eq_comm, Option.map_eq_none_iff] at unknown
    rw [unknown]
    rfl
  | some stage' =>
    rw [stage, Option.map_some, eq_comm, Option.map_eq_some_iff] at unknown
    obtain ⟨spec, at_place, same⟩ := unknown
    simp [at_place, same]

/-- No operation hands on warnings or makes any. -/
theorem RunSetting.handsOn_no_warnings (setting : RunSetting) :
    setting.HandsOn fun result => result.warnings = [] := by
  intro store stage inputs result _ answered
  rw [Stage.answer] at answered
  split at answered
  · split at answered
    next => exact Except.ok.inj answered ▸ rfl
    next => simp at answered
    next => simp at answered
  · split at answered
    next found =>
      obtain ⟨queries, _, made⟩ := Option.map_eq_some_iff.mp found
      rw [← Except.ok.inj answered, ← made]
      rfl
    next => simp at answered

theorem AnyStoreExecution.warnings_eq {setting : RunSetting} {state : RunState}
    (execution : AnyStoreExecution setting state) {result : Result}
    (succeeded : (RunReport.ofState setting state).finish = .published (.ok result)) :
    result.warnings = setting.graph.warnings := by
  obtain ⟨value, none, rfl⟩ := execution.answered setting.handsOn_no_warnings succeeded
  simp [Result.withWarnings, none]

/-- Every argument that a stage does not understand is reported once: a run that succeeds, whatever the
store replies, warns about those of the specifications whose stages the root needs, by reading or because
one was lifted from the other, and about nothing else. Each such stage counts once, however many ways lead
to it. -/
theorem unknown_arguments_reported {planner : Planner} {now : Instant} {program : List StageSpec}
    {setting : RunSetting} (built : planner.build now program = .ok setting.graph) :
    ∃ ids : List Nat, ids.Nodup ∧
      (∀ id, id ∈ ids ↔ ReflTransGen setting.graph.Needs setting.graph.root id) ∧
      (∀ id ∈ ids, 0 < id ∧ id ≤ program.length) ∧
      (∀ state result, AnyStoreExecution setting state →
        (RunReport.ofState setting state).finish = .published (.ok result) →
        result.warnings.Perm (warningsAbout program ids)) ∧
      ∀ deadline result, (run setting deadline).finish = .published (.ok result) →
        result.warnings.Perm (warningsAbout program ids) := by
  have formed := Planner.build_wellFormed built
  have first := Planner.build_originsFirst built
  have reports := Graph.reported_reports formed first
  have within : ∀ id ∈ setting.graph.reported, 0 < id ∧ id ≤ program.length := by
    intro id member
    rw [← (Planner.build_recorded built).1, ← Graph.stage?_isSome_iff]
    obtain ⟨top, reachable, path⟩ := (Graph.mem_reported_iff formed first).mp member
    rcases path.cases_tail with rfl | ⟨before, _, is_origin⟩
    · exact formed.reachable_isSome reachable
    · exact is_origin.isSome first
  have graph_warnings : setting.graph.warnings = warningsAbout program setting.graph.reported := by
    rw [Graph.warnings_eq, warningsAbout]
    exact List.flatMap_congr fun id member => Planner.build_warningsOf built (within id member).1
  have answered : ∀ state result, AnyStoreExecution setting state →
      (RunReport.ofState setting state).finish = .published (.ok result) →
      result.warnings.Perm (warningsAbout program setting.graph.reported) := by
    intro state result execution succeeded
    rw [execution.warnings_eq succeeded, graph_warnings]
  refine ⟨_, reports.nodup, fun id => Graph.mem_reported_iff_needs built, within, answered, ?_⟩
  intro deadline result succeeded
  obtain ⟨state, execution, succeeded⟩ := run_anyStore succeeded
  exact answered state result execution succeeded

/-- A select that the maximum is lifted from and that the count and the union read. -/
def sharedSelect : List StageSpec :=
  let unknown (key : String) : Table Json := .ofList [(key, .bool true), ("tags", .obj [])]
  [{ StageSpec.ofKind .select "cpu" with binding := some "raw", args := unknown "step" },
    { StageSpec.ofKind .aggregate "max" with
      binding := some "max", args := unknown "step", inputs := some ["raw"] },
    { StageSpec.ofKind .aggregate "count" with binding := some "count", inputs := some ["raw"] },
    { StageSpec.ofKind .aggregate "union" with
      args := unknown "by", inputs := some ["max", "count", "raw", "max"] }]

/-- A run of its graph on a store that finds nothing. -/
def sharedSelectRun : RunSetting where
  graph :=
    let metric (aggregators : List Aggregator) : Query :=
      ⟨.endingAt .epoch (.ofMillis 3600000), [⟨"cpu", .empty, [], aggregators⟩]⟩
    ⟨#[⟨1, some "raw", .select (metric []), [], ["step"], none⟩,
      ⟨2, some "max", .select (metric [⟨"max", some ⟨1, .minutes⟩, .empty⟩]), [], ["step", "tags"],
        some 1⟩,
      ⟨3, some "count", .aggregate .count (.aggregate ⟨.count, some (.ofMillis 60000)⟩), [1], [], none⟩,
      ⟨4, none, .aggregate .union .union, [2, 3, 1, 2], ["by", "tags"], none⟩], 4⟩
  clock := .epoch
  store _ := ⟨0, .answered ⟨[], []⟩⟩
  limit := 0

/-- The select, which is read and lifted from, is reported once. -/
theorem sharedSelect_reported : ∃ ids result,
    (run sharedSelectRun none).finish = .published (.ok result) ∧ ids.Nodup ∧
    result.warnings.Perm (warningsAbout sharedSelect ids) ∧
    result.warnings = ["step", "tags", "step", "by", "tags"].map ("Unknown argument " ++ ·) := by
  have built : Planner.build ⟨EngineConfig.standard.defaults, true⟩ .epoch sharedSelect =
      .ok sharedSelectRun.graph := rfl
  have answered : ∃ result, (run sharedSelectRun none).finish = .published (.ok result) ∧
      result.warnings = ["step", "tags", "step", "by", "tags"].map ("Unknown argument " ++ ·) :=
    ⟨_, rfl, rfl⟩
  obtain ⟨result, answered, warnings⟩ := answered
  obtain ⟨ids, distinct, _, _, _, reported⟩ := unknown_arguments_reported built
  exact ⟨ids, result, answered, distinct, reported none result answered, warnings⟩

end MetricEngine
