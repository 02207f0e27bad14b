import MetricEngine.Proofs.Execution.Schedule

/-!
Runs with a store that may reply otherwise each time it is asked. What the operations of all stages
hand on from the results of their inputs to their own holds of every result of such a run.
-/
namespace MetricEngine
open RunState

/-- The states that a run can come to when at each step another store takes the place of the one that is
set. -/
inductive AnyStoreExecution (setting : RunSetting) : RunState → Prop where
  | initial : AnyStoreExecution setting (.initial setting.graph)
  | step {state step next} (store : Query → StoreReply) : AnyStoreExecution setting state →
      state.after? { setting with store } step = some next → AnyStoreExecution setting next
  | pass {state} (time : Nat) : AnyStoreExecution setting state →
      AnyStoreExecution setting { state with now := time }

variable {setting : RunSetting} {state : RunState}

theorem Execution.anyStore {steps : List TaskStep} (execution : Execution setting steps state) :
    AnyStoreExecution setting state := by
  induction execution with
  | initial => exact .initial
  | step _ taken ih => exact ih.step setting.store taken
  | pass time _ ih => exact ih.pass time

theorem RunState.input_published {stage : Stage} {inputs : List Result}
    (succeeded : state.inputs? stage = some (.ok inputs)) {input : Result} (member : input ∈ inputs) :
    ∃ id ∈ stage.inputs, state.outcome? id = some (.ok input) := by
  have outcomes := inputs?_eq_ok_iff.mp succeeded
  have published : some (.ok input) ∈ stage.inputs.eraseDups.map state.outcome? :=
    outcomes ▸ List.mem_map_of_mem member
  obtain ⟨id, listed, published⟩ := List.mem_map.mp published
  exact ⟨id, List.mem_eraseDups.mp listed, published⟩

/-- Every operation hands a property of results on from those of its inputs to its own, whatever the store
replies. -/
def RunSetting.HandsOn (setting : RunSetting) (property : Result → Prop) : Prop :=
  ∀ store (stage : Stage) inputs result, (∀ input ∈ inputs, property input) →
    stage.answer { setting with store } inputs = .ok result → property result

namespace AnyStoreExecution
variable {property : Result → Prop}

/-- All results that have been published have a property that the operations hand on. -/
theorem published (hands_on : setting.HandsOn property) (execution : AnyStoreExecution setting state)
    {id : Nat} {result : Result} (published : state.outcome? id = some (.ok result)) :
    property result := by
  induction execution generalizing id result with
  | initial =>
    have history := (Consistent.initial setting).history id
    rw [outcome?_eq_some_iff.mp published] at history
    cases history
  | pass time _ ih => exact ih published
  | @step _ step _ store _ taken ih =>
    obtain ⟨action, task⟩ := step
    obtain ⟨stage, old, new, _, ⟨_, _, move, _, _⟩, moved, _⟩ := after?_move taken
    rw [outcome?_eq_some_iff, moved] at published
    split at published
    next =>
      -- Only a task that finishes publishes a result.
      obtain rfl := Option.some.inj published
      generalize outcome : Except.ok result = ended at move
      cases move with
      | skip => simp at outcome
      | finish succeeded =>
        refine hands_on store stage _ result (fun input member => ?_) outcome.symm
        obtain ⟨_, _, published⟩ := input_published succeeded member
        exact ih published
    next => exact ih (outcome?_eq_some_iff.mpr published)

theorem collected (hands_on : setting.HandsOn property) (execution : AnyStoreExecution setting state)
    {stage : Stage} {inputs : List Result} (succeeded : state.inputs? stage = some (.ok inputs)) :
    ∀ input ∈ inputs, property input := by
  intro input member
  obtain ⟨_, _, published⟩ := input_published succeeded member
  exact execution.published hands_on published

/-- The result of a run is that of its root with the warnings of the graph. -/
theorem answered (hands_on : setting.HandsOn property) (execution : AnyStoreExecution setting state)
    {result : Result} (succeeded : (RunReport.ofState setting state).finish = .published (.ok result)) :
    ∃ value, property value ∧ result = value.withWarnings setting.graph.warnings := by
  obtain ⟨value, published, same⟩ := ofState_succeeds succeeded
  exact ⟨value, execution.published hands_on published, same⟩

end AnyStoreExecution

/-- The schedule with or without a deadline leads to a state of an execution with one and the same store. -/
theorem RunState.run_anyStore {deadline : Option Nat} {result : Result}
    (succeeded : (run setting deadline).finish = .published (.ok result)) :
    ∃ state, AnyStoreExecution setting state ∧
      (RunReport.ofState setting state).finish = .published (.ok result) := by
  obtain ⟨steps, final, execution, ended | timedOut⟩ := run_execution setting deadline
  · exact ⟨final, execution.anyStore, ended ▸ succeeded⟩
  · simp [timedOut] at succeeded

end MetricEngine
