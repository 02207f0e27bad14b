import MetricEngine.Config.Defaults
import MetricEngine.Proofs.Execution.Schedule
import MetricEngine.Proofs.Program.Planner

/-!
Permits of a run. No more tasks run than there are permits, and a task that holds one waits for nothing
else. So the limit on tasks that run at once can delay a run and cannot stop it.
-/
namespace MetricEngine
open RunState

namespace RunState
variable {setting : RunSetting} {steps : List TaskStep} {state next : RunState} {id : Nat}

/-- Only a task that starts takes a permit. -/
theorem runningCount_after_le (formed : setting.graph.WellFormed)
    (execution : Execution setting steps state) {action : TaskAction}
    (taken : state.after? setting ⟨action, id⟩ = some next) :
    next.runningCount ≤ state.runningCount + if action = .start then 1 else 0 := by
  have consistent := execution.consistent formed
  have later := (execution.step taken).consistent formed
  obtain ⟨stage, old, new, _, ⟨_, _, move, _, _⟩, moved, _⟩ := after?_move taken
  have others : ∀ other, other ≠ id →
      (next.task? other).any (·.due?.isSome) → (state.task? other).any (·.due?.isSome) := by
    intro other different
    simp only [any_due, moved, if_neg different, imp_self]
  have stopped : (∀ due, new ≠ .running due) → next.runningCount ≤ state.runningCount := by
    intro idle
    rw [runningCount, runningCount, countP_tasks consistent formed, countP_tasks later formed]
    refine List.countP_mono_left fun other _ running => ?_
    by_cases same : other = id
    · obtain ⟨due, running⟩ := any_due.mp running
      rw [moved, if_pos same, Option.some.injEq] at running
      exact absurd running (idle due)
    · exact others other same running
  cases move with
  | skip => simpa using stopped (by simp)
  | enqueue => simpa using stopped (by simp)
  | finish => simpa using stopped (by simp)
  | start =>
    rw [if_pos rfl, runningCount, runningCount, countP_tasks consistent formed, countP_tasks later formed]
    exact ListFacts.countP_le_succ (Graph.order_nodup formed) fun other _ => others other

theorem runningCount_lt_of_startable (limited : setting.limit ≠ 0)
    (allowed : id ∈ state.startable setting) : state.runningCount < setting.limit := by
  rw [startable, if_neg limited] at allowed
  by_contra exhausted
  simp [Nat.sub_eq_zero_of_le (Nat.le_of_not_lt exhausted)] at allowed

theorem runningCount_le (formed : setting.graph.WellFormed) (limited : setting.limit ≠ 0)
    (execution : Execution setting steps state) : state.runningCount ≤ setting.limit := by
  induction execution with
  | initial =>
    have idle : (RunState.initial setting.graph).runningCount = 0 := by
      simp [RunState.initial, runningCount, List.countP_eq_zero, Task.due?]
    exact idle ▸ Nat.zero_le _
  | pass time _ ih => exact ih
  | @step _ state step next before taken ih =>
    obtain ⟨action, id⟩ := step
    have step := runningCount_after_le formed before taken
    split at step
    next starts =>
      subst starts
      obtain ⟨_, _, _, allowed, _⟩ := start?_eq_some taken
      have := runningCount_lt_of_startable limited allowed
      omega
    next => omega

/-- The tasks that run and those for whom there is a permit are no more than the limit. -/
theorem permits_le (formed : setting.graph.WellFormed) (limited : setting.limit ≠ 0)
    (execution : Execution setting steps state) :
    state.runningCount + (state.startable setting).length ≤ setting.limit := by
  have running := runningCount_le formed limited execution
  have granted : (state.startable setting).length ≤ setting.limit - state.runningCount := by
    rw [startable, if_neg limited]
    exact List.length_take_le _ _
  omega

end RunState

/-- A task that asks for a permit or holds one has seen all of its inputs succeed. -/
theorem Consistent.inputs_published {setting : RunSetting} {steps : List TaskStep} {state : RunState}
    (consistent : Consistent setting steps state) {id input : Nat}
    (active : state.progress? id = some .queued ∨ ∃ due, state.progress? id = some (.running due))
    (reads : setting.graph.Reads id input) :
    ∃ result, state.outcome? input = some (.ok result) := by
  obtain ⟨stage, isStage, member⟩ := reads.of_stage
  obtain ⟨inputs, succeeded⟩ := consistent.supplied id stage isStage active
  obtain ⟨result, _, published⟩ := input_succeeded succeeded member
  exact ⟨result, published⟩

/-- The limit on tasks that run at once never stops the run of a program, which an engine makes for limits up to
`Engine.mostPermits`. Until the root has published, the tasks that hold a permit or are given one next are no
more than the limit, all that they read has been published, and some task can take a step. -/
theorem limit_never_blocks {planner : Planner} {now : Instant} {program : List StageSpec}
    {setting : RunSetting} (built : planner.build now program = .ok setting.graph)
    {steps : List TaskStep} {state : RunState} (execution : Execution setting steps state)
    (pending : state.outcome? setting.graph.root = none) :
    (setting.limit ≠ 0 →
      state.runningCount + (state.startable setting).length ≤ setting.limit) ∧
    (∀ id, (id ∈ state.startable setting ∨ ∃ due, state.progress? id = some (.running due)) →
      ∀ input, setting.graph.Reads id input →
        ∃ result, state.outcome? input = some (.ok result)) ∧
    ∃ step next, state.after? setting step = some next := by
  have formed := Planner.build_wellFormed built
  have consistent := execution.consistent formed
  refine ⟨fun limited => permits_le formed limited execution, ?_, consistent.progress formed pending⟩
  intro id holds input reads
  exact consistent.inputs_published (holds.imp_left (startable_queued consistent)) reads

/-- A union of two selects, and a single permit for all three. -/
def onePermit : RunSetting where
  graph := ⟨#[⟨1, some "a", .select ⟨⟨.epoch, .epoch⟩, [⟨"m", .empty, [], []⟩]⟩, [], [], none⟩,
    ⟨2, some "b", .select ⟨⟨.epoch, .epoch⟩, [⟨"m", .empty, [], []⟩]⟩, [], [], none⟩,
    ⟨3, none, .aggregate .union .union, [1, 2], [], none⟩], 3⟩
  clock := .epoch
  store _ := ⟨5, .answered ⟨[⟨1, []⟩], []⟩⟩
  limit := 1

/-- Both selects have asked for the permit, and the first one holds it. -/
theorem onePermit_goes_on : ∃ state,
    Execution onePermit [⟨.collect, 1⟩, ⟨.collect, 2⟩, ⟨.start, 1⟩] state ∧ state.queue = [2] ∧
    state.runningCount + (state.startable onePermit).length ≤ 1 ∧
    ∃ step next, state.after? onePermit step = some next := by
  let select (name : String) : StageSpec :=
    { StageSpec.ofKind .select "m" with binding := some name, range := some ⟨.epoch, .epoch⟩ }
  have built : Planner.build ⟨EngineConfig.standard.defaults, true⟩ .epoch
      [select "a", select "b", { StageSpec.ofKind .aggregate "union" with inputs := some ["a", "b"] }] =
      .ok onePermit.graph := rfl
  have reached : (RunState.replay? onePermit [⟨.collect, 1⟩, ⟨.collect, 2⟩, ⟨.start, 1⟩]).map
      (fun state => (state.queue, state.outcome? 3)) = some ([2], none) := rfl
  obtain ⟨state, replayed, same⟩ := Option.map_eq_some_iff.mp reached
  obtain ⟨queue, pending⟩ := Prod.mk.inj same
  have execution := Execution.of_replay replayed
  obtain ⟨few, _, goes_on⟩ := limit_never_blocks built execution pending
  exact ⟨state, execution, queue, few (by decide), goes_on⟩

end MetricEngine
