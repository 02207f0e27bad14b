import Mathlib
import MetricEngine.Proofs.Execution.AnyStore
import MetricEngine.Proofs.Execution.SeriesFrame

/-!
What the stages of a run count. As long as none has failed, each counter stands at the sum of what the stages
with results have added to it; a stage adds its share when it publishes its result. If the root has a result,
so have all stages that it needs, and no stage has failed.
-/
namespace MetricEngine
open Relation RunState

namespace ListFacts
variable {α : Type}

/-- A change to one of distinct elements changes the sum by as much. -/
theorem sum_map_changed {f g : α → Nat} {xs : List α} (distinct : xs.Nodup) {x : α} (member : x ∈ xs)
    (same : ∀ y ∈ xs, y ≠ x → g y = f y) {more : Nat} (changed : g x = f x + more) :
    (xs.map g).sum = (xs.map f).sum + more := by
  induction distinct with
  | nil => simp at member
  | @cons y ys fresh _ ih =>
    rw [List.map_cons, List.map_cons, List.sum_cons, List.sum_cons]
    by_cases here : y = x
    · subst here
      have rest : ys.map g = ys.map f := List.map_congr_left fun z listed =>
        same z (List.mem_cons_of_mem _ listed) (fresh z listed).symm
      rw [rest, changed]
      omega
    · have rest := ih ((List.mem_cons.mp member).resolve_left (Ne.symm here)) fun z listed =>
        same z (List.mem_cons_of_mem _ listed)
      rw [rest, same y List.mem_cons_self here]
      omega

theorem sum_map_ite (p : α → Prop) [DecidablePred p] (f : α → Nat) (xs : List α) :
    (xs.map fun x => if p x then f x else 0).sum = ((xs.filter fun x => p x).map f).sum := by
  induction xs with
  | nil => rfl
  | cons x xs ih =>
    rw [List.map_cons, List.sum_cons, ih]
    by_cases holds : p x <;> simp [holds]

theorem sum_map_one (p : α → Prop) [DecidablePred p] (xs : List α) :
    (xs.map fun x => if p x then 1 else 0).sum = xs.countP fun x => p x := by
  rw [sum_map_ite, List.map_const', List.sum_replicate_nat, Nat.mul_one, List.countP_eq_length_filter]

end ListFacts

namespace Tally

theorem total_eq_sum (tally : Tally) (counter : Counter) :
    tally.total counter = ((tally.increments.filter (·.1 = counter)).map (·.2)).sum := by
  rw [total, List.sum_eq_foldl_nat, List.foldl_map]

theorem total_append (tally other : Tally) (counter : Counter) :
    (tally.append other).total counter = tally.total counter + other.total counter := by
  simp only [total_eq_sum, append, List.filter_append, List.map_append, List.sum_append_nat]

theorem total_add (tally : Tally) (added : Counter) (amount : Nat) (counter : Counter) :
    (tally.add added amount).total counter =
      tally.total counter + if added = counter then amount else 0 := by
  simp only [total_eq_sum, add, List.filter_append, List.map_append, List.sum_append_nat]
  by_cases same : added = counter <;> simp [same]

/-- Increments by one are as many as the counter stands in the list. -/
theorem total_ones (counters : List Counter) (counter : Counter) :
    total ⟨counters.map (·, 1)⟩ counter = counters.count counter := by
  rw [total_eq_sum, List.filter_map, List.map_map]
  simp only [Function.comp_def, List.map_const', List.sum_replicate_nat, Nat.mul_one]
  exact List.countP_eq_length_filter.symm

end Tally

namespace Operation

theorem newTriggers_eq {operation : Operation} (now : Instant) (inputs : List Result) :
    operation.newTriggers now inputs =
      ((inputs.flatMap (·.series)).flatMap (operation.triggers now)).length := by
  cases operation <;> simp [newTriggers, triggers, Series.triggers, List.length_flatMap]

theorem newTriggers_of_not_alert {operation : Operation} (no_alert : operation.isAlert = false)
    (now : Instant) (inputs : List Result) : operation.newTriggers now inputs = 0 := by
  cases operation with
  | threshold => simp [isAlert] at no_alert
  | dataAbsent => simp [isAlert] at no_alert
  | aggregate | diff | union | rank => rfl

/-- The triggers in the result of an alert are those in its inputs and the new ones. -/
theorem alertCount_of_alert {operation : Operation} (alert : operation.isAlert) {now : Instant}
    {inputs : List Result} {result : Result} (answered : operation.result? now inputs = some result) :
    result.alertCount = (inputs.map (·.alertCount)).sum + operation.newTriggers now inputs := by
  obtain ⟨other, found, frame⟩ := result?_seriesWise (isSeriesWise_of_isAlert alert) now inputs
  obtain rfl := Option.some.inj (answered.symm.trans found)
  have inherited : (inputs.map (·.alertCount)).sum =
      ((inputs.flatMap (·.series)).flatMap (·.alerts)).length := by
    simp [Result.alertCount, Result.alerts, List.length_flatMap, List.flatMap_assoc]
  have changed := frame.series
  rw [inherited, newTriggers_eq, Result.alertCount, Result.alerts]
  generalize inputs.flatMap (·.series) = before at changed ⊢
  generalize result.series = after at changed ⊢
  induction changed with
  | nil => rfl
  | cons changed _ ih =>
    rw [changed.alerts alert]
    simp only [List.flatMap_cons, List.length_append, ih]
    omega

end Operation

namespace Stage

/-- The kind of the triggers that an alert stage adds. -/
def alertKind? (stage : Stage) : Option String :=
  match stage.work with
  | .select _ => none
  | .aggregate _ operation => if operation.isAlert then some operation.name else none

/-- By how much a stage with a result raises a counter if so many triggers in the result are new. -/
def share (stage : Stage) (newTriggers : Nat) : Counter → Nat
  | .graphBuilds _ | .lifted _ => 0
  | .stageRuns operation success => if stage.operationName = operation ∧ success then 1 else 0
  | .stageDurations operation => if stage.operationName = operation then 1 else 0
  | .storeQueries success => if success ∧ stage.isSelect then 1 else 0
  | .alertTriggers kind => if stage.alertKind? = some kind then newTriggers else 0

end Stage

/-- The number of triggers in a result beyond those in the results that it was made of. -/
def Result.triggersBeyond (result : Result) (inputs : List Result) : Nat :=
  result.alertCount - (inputs.map (·.alertCount)).sum

namespace RunState
variable {setting : RunSetting} {state next : RunState} {stage : Stage} {inputs : List Result}
  {result : Result}

theorem total_count (state : RunState) (added : Counter) (amount : Nat) (counter : Counter) :
    (state.count added amount).tally.total counter =
      state.tally.total counter + if added = counter then amount else 0 := by
  rw [count]
  split
  next nothing => simp [nothing]
  next => exact Tally.total_add _ _ _ _

/-- A stage that has a result raises each counter by its share. -/
theorem total_countAnswer (answered : stage.answer setting inputs = .ok result) (counter : Counter) :
    (state.countAnswer setting stage inputs).tally.total counter =
      state.tally.total counter + stage.share (result.triggersBeyond inputs) counter := by
  rw [Stage.answer] at answered
  rw [countAnswer]
  split at answered
  next query work =>
    split at answered
    next response reply =>
      rw [countRun, total_count, total_count, total_count]
      cases counter <;>
        simp [Stage.share, Stage.operationName, Stage.isSelect, Stage.query?, Stage.alertKind?, work]
    next => simp at answered
    next => simp at answered
  next kind operation work =>
    split at answered
    next value found =>
      obtain rfl : value = result := Except.ok.inj answered
      rw [countRun, total_count, total_count, total_count]
      cases counter with
      | alertTriggers named =>
        cases alert : operation.isAlert with
        | true => simp [Stage.share, Stage.alertKind?, work, alert, Result.triggersBeyond,
            Operation.alertCount_of_alert alert found]
        | false => simp [Stage.share, Stage.alertKind?, work, alert, Operation.newTriggers_of_not_alert alert]
      | graphBuilds | lifted | stageRuns | stageDurations | storeQueries =>
        simp [Stage.share, Stage.operationName, Stage.isSelect, Stage.query?, work]
    next => simp at answered

/-- The number of triggers that a stage has added to those of its inputs, once it has a result. -/
def newTriggers (state : RunState) (stage : Stage) : Nat :=
  match state.inputs? stage, state.outcome? stage.id with
  | some (.ok inputs), some (.ok result) => result.triggersBeyond inputs
  | _, _ => 0

/-- By how much a stage has raised a counter so far, if no stage has failed. -/
def share (state : RunState) (counter : Counter) (stage : Stage) : Nat :=
  match state.outcome? stage.id with
  | some (.ok _) => stage.share (state.newTriggers stage) counter
  | _ => 0

/-- A stage has raised no counter before it has a result. -/
theorem share_of_no_result (counter : Counter)
    (none : ∀ result, state.outcome? stage.id ≠ some (.ok result)) : state.share counter stage = 0 := by
  rw [share]
  split
  next published => exact absurd published (none _)
  next => rfl

theorem share_of_result {counter : Counter} (succeeded : state.inputs? stage = some (.ok inputs))
    (published : state.outcome? stage.id = some (.ok result)) :
    state.share counter stage = stage.share (result.triggersBeyond inputs) counter := by
  rw [share, newTriggers, succeeded, published]

theorem outcome?_setProgress {id : Nat} {old : Progress} (found : state.task? id = some ⟨stage, old⟩)
    (new : Progress) (other : Nat) : (state.setProgress id new).outcome? other =
      if other = id then (Task.mk stage new).outcome? else state.outcome? other := by
  ext outcome
  rw [outcome?_eq_some_iff, progress?_setProgress, task?_progress found]
  split
  · cases new <;> simp [Task.outcome?]
  · exact outcome?_eq_some_iff.symm

/-- A task that does not finish publishes nothing. -/
theorem outcome?_of_setProgress {id : Nat} {old new : Progress}
    (found : state.task? id = some ⟨stage, old⟩) (goes_on : (Task.mk stage new).outcome? = none)
    {other : Nat} {outcome : StageOutcome}
    (published : (state.setProgress id new).outcome? other = some outcome) :
    state.outcome? other = some outcome := by
  rw [outcome?_setProgress found] at published
  split at published
  · simp [goes_on] at published
  · exact published

/-- A step publishes no result, and counts nothing unless a stage has failed, or it publishes the result of
one stage and counts its share. -/
theorem after?_counts {id : Nat} {action : TaskAction}
    (taken : state.after? setting ⟨action, id⟩ = some next) :
    ((∀ other result, next.outcome? other = some (.ok result) → state.outcome? other = some (.ok result)) ∧
      (next.tally = state.tally ∨ ∃ error, next.outcome? id = some (.error error))) ∨
    ∃ stage old inputs result, state.task? id = some ⟨stage, old⟩ ∧
      state.inputs? stage = some (.ok inputs) ∧ stage.answer setting inputs = .ok result ∧
      next.outcome? id = some (.ok result) ∧
      (∀ other, other ≠ id → next.outcome? other = state.outcome? other) ∧
      ∀ counter, next.tally.total counter =
        state.tally.total counter + stage.share (result.triggersBeyond inputs) counter := by
  have no_result : ∀ {other result error}, next.outcome? id = some (.error error) →
      (∀ other, other ≠ id → next.outcome? other = state.outcome? other) →
      next.outcome? other = some (.ok result) → state.outcome? other = some (.ok result) := by
    intro other result error failed elsewhere published
    have different : other ≠ id := by
      rintro rfl
      simp [failed] at published
    rwa [← elsewhere other different]
  cases action with
  | collect =>
    obtain ⟨stage, found, ⟨error, _, rfl⟩ | ⟨_, _, rfl⟩⟩ := collect?_eq_some taken
    · have published := outcome?_setProgress found (.finished (.error error))
      have failed := (published id).trans (if_pos rfl)
      exact .inl ⟨fun _ _ => no_result failed fun other elsewhere =>
        (published other).trans (if_neg elsewhere), .inr ⟨error, failed⟩⟩
    · exact .inl ⟨fun _ _ => outcome?_of_setProgress found rfl, .inl rfl⟩
  | start =>
    obtain ⟨⟨stage, old⟩, due, found, _, rfl⟩ := start?_eq_some taken
    exact .inl ⟨fun _ _ => outcome?_of_setProgress found rfl, .inl rfl⟩
  | finish =>
    obtain ⟨stage, due, inputs, found, succeeded, rfl⟩ := finish?_eq_some taken
    generalize answered : stage.answer setting inputs = outcome at no_result ⊢
    have published : ∀ other, ((state.countAnswer setting stage inputs).setProgress id
        (.finished outcome)).outcome? other = if other = id then some outcome else state.outcome? other := by
      intro other
      obtain ⟨tally, counted⟩ := countAnswer_eq setting state stage inputs
      rw [counted]
      exact outcome?_setProgress found _ other
    have ended := (published id).trans (if_pos rfl)
    have elsewhere := fun other (different : other ≠ id) => (published other).trans (if_neg different)
    cases outcome with
    | error error => exact .inl ⟨fun _ _ => no_result ended elsewhere, .inr ⟨error, ended⟩⟩
    | ok result =>
      exact .inr ⟨stage, _, inputs, result, found, succeeded, answered, ended, elsewhere,
        total_countAnswer answered⟩

/-- A stage has a result that its operation has made of the results of its inputs, which are still there. -/
def Answered (setting : RunSetting) (state : RunState) (stage : Stage) : Prop :=
  ∃ store inputs result, state.inputs? stage = some (.ok inputs) ∧
    state.outcome? stage.id = some (.ok result) ∧
    stage.answer { setting with store } inputs = .ok result

/-- An alert keeps the triggers of its inputs, so none is missing from those beyond them. -/
theorem Answered.inherited (answered : Answered setting state stage) (alert : stage.alertKind?.isSome)
    (succeeded : state.inputs? stage = some (.ok inputs))
    (published : state.outcome? stage.id = some (.ok result)) :
    result.alertCount = (inputs.map (·.alertCount)).sum + state.newTriggers stage := by
  obtain ⟨store, inputs', result', succeeded', published', made⟩ := answered
  obtain rfl : inputs' = inputs := by simpa [succeeded] using succeeded'.symm
  obtain rfl : result' = result := by simpa [published] using published'.symm
  rw [Stage.alertKind?] at alert
  rw [Stage.answer] at made
  split at made
  next query work => simp [work] at alert
  next kind operation work =>
    split at made
    next value found =>
      obtain rfl : value = result' := Except.ok.inj made
      have is_alert : operation.isAlert := by
        by_contra no_alert
        simp [work, no_alert] at alert
      have count := Operation.alertCount_of_alert is_alert found
      have beyond : state.newTriggers stage = value.triggersBeyond inputs' := by
        rw [newTriggers, succeeded, published]
      rw [beyond, Result.triggersBeyond, count, Nat.add_sub_cancel_left]
    next => simp at made

/-- What the state of a run tells of its counts, whatever the store has replied. -/
structure Balanced (setting : RunSetting) (state : RunState) : Prop extends state.Orderly where
  stages : state.tasks.map (·.stage) = setting.graph.stages
  answered : ∀ stage ∈ setting.graph.stages, ∀ result, state.outcome? stage.id = some (.ok result) →
    Answered setting state stage
  totals : (∀ id error, state.outcome? id ≠ some (.error error)) →
    ∀ counter, state.tally.total counter = (setting.graph.stages.map (state.share counter)).sum

namespace Balanced

theorem initial (setting : RunSetting) : Balanced setting (.initial setting.graph) := by
  have consistent := Consistent.initial setting
  have unpublished : ∀ id outcome, (RunState.initial setting.graph).outcome? id ≠ some outcome := by
    intro id outcome published
    have history := consistent.history id
    rw [outcome?_eq_some_iff.mp published] at history
    cases history
  refine ⟨consistent.orderly, consistent.stages, ?_, ?_⟩
  · exact fun stage _ result published => absurd published (unpublished _ _)
  · intro _ counter
    have nothing : ∀ stage ∈ setting.graph.stages,
        (RunState.initial setting.graph).share counter stage = 0 := fun stage _ =>
      share_of_no_result counter fun result => unpublished _ _
    rw [List.map_congr_left nothing]
    simp [RunState.initial, Tally.total, Tally.empty]

theorem task_stage (balanced : Balanced setting state) {id : Nat} {progress : Progress}
    (found : state.task? id = some ⟨stage, progress⟩) : stage ∈ setting.graph.stages ∧ stage.id = id := by
  refine ⟨?_, by simpa using List.find?_some found⟩
  rw [← balanced.stages]
  exact List.mem_map_of_mem (List.mem_of_find?_eq_some found)

section Step
variable {store : Query → StoreReply} {action : TaskAction} {id : Nat}

theorem answered_after (orderly : state.Orderly)
    (taken : state.after? { setting with store } ⟨action, id⟩ = some next)
    (answered : Answered setting state stage) : Answered setting next stage := by
  obtain ⟨other, inputs, result, succeeded, published, made⟩ := answered
  have still_succeeded := orderly.inputs?_after taken succeeded
  exact ⟨other, inputs, result, still_succeeded, orderly.outcome?_after taken published, made⟩

/-- What has been counted for a stage stays the same until it gets a result. -/
theorem share_after (balanced : Balanced setting state)
    (taken : state.after? { setting with store } ⟨action, id⟩ = some next)
    (member : stage ∈ setting.graph.stages)
    (same : ∀ result, next.outcome? stage.id = some (.ok result) →
      state.outcome? stage.id = some (.ok result)) (counter : Counter) :
    next.share counter stage = state.share counter stage := by
  have orderly := balanced.toOrderly
  by_cases given : ∃ result, state.outcome? stage.id = some (.ok result)
  · obtain ⟨_, published⟩ := given
    obtain ⟨_, _, _, succeeded, published, _⟩ := balanced.answered stage member _ published
    rw [share_of_result succeeded published, share_of_result (orderly.inputs?_after taken succeeded)
      (orderly.outcome?_after taken published)]
  · have none := fun result published => given ⟨result, published⟩
    rw [share_of_no_result counter none,
      share_of_no_result counter fun result published => none result (same result published)]

theorem step (balanced : Balanced setting state) (formed : setting.graph.WellFormed)
    (taken : state.after? { setting with store } ⟨action, id⟩ = some next) : Balanced setting next := by
  obtain ⟨_, _, _, moving, ⟨_, _, move, _, _⟩, _, stages⟩ := after?_move taken
  have orderly := balanced.toOrderly
  have unpublished := move.not_finished orderly moving
  -- Failures stay, so there was none before if there is none now.
  have no_failure : (∀ id error, next.outcome? id ≠ some (.error error)) →
      ∀ id error, state.outcome? id ≠ some (.error error) := fun none other error failed =>
    none other error (orderly.outcome?_after taken failed)
  have ids_distinct := Graph.stages_distinct formed
  rcases after?_counts taken with ⟨same, uncounted⟩ |
    ⟨stage, old, inputs, result, found, succeeded, made, published, elsewhere, counted⟩
  · refine ⟨orderly.after taken, stages.trans balanced.stages, ?_, ?_⟩
    · intro stage member result published
      exact answered_after orderly taken (balanced.answered stage member result (same _ _ published))
    · intro none counter
      rcases uncounted with same_tally | ⟨error, failed⟩
      · rw [same_tally, balanced.totals (no_failure none)]
        exact congrArg _ (List.map_congr_left fun stage member =>
          (balanced.share_after taken member (same _) counter).symm)
      · exact absurd failed (none _ _)
  · obtain ⟨member, rfl⟩ := balanced.task_stage found
    have still_supplied := orderly.inputs?_after taken succeeded
    refine ⟨orderly.after taken, stages.trans balanced.stages, ?_, ?_⟩
    · intro other other_member other_result other_published
      by_cases here : other.id = stage.id
      · obtain rfl := List.inj_on_of_nodup_map ids_distinct other_member member here
        exact ⟨store, inputs, result, still_supplied, published, made⟩
      · rw [elsewhere _ here] at other_published
        exact answered_after orderly taken (balanced.answered other other_member _ other_published)
    · intro none counter
      rw [counted, balanced.totals (no_failure none)]
      apply Eq.symm
      apply ListFacts.sum_map_changed ids_distinct.of_map member
      · intro other other_member different
        have not_here : other.id ≠ stage.id := fun here =>
          different (List.inj_on_of_nodup_map ids_distinct other_member member here)
        apply balanced.share_after taken other_member
        intro result published
        rwa [← elsewhere _ not_here]
      · have nothing : state.share counter stage = 0 :=
          share_of_no_result counter fun result => by simp [unpublished]
        rw [share_of_result still_supplied published, nothing, Nat.zero_add]

end Step

theorem of_execution (formed : setting.graph.WellFormed) (execution : AnyStoreExecution setting state) :
    Balanced setting state := by
  induction execution with
  | initial => exact .initial setting
  | step store _ taken ih => exact ih.step formed taken
  | pass time _ ih => exact ⟨⟨ih.queued, ih.distinct⟩, ih.stages, ih.answered, ih.totals⟩

/-- If the root has a result, all stages that it needs have theirs. -/
theorem all_answered (balanced : Balanced setting state) (formed : setting.graph.WellFormed)
    (published : state.outcome? setting.graph.root = some (.ok result)) :
    ∀ stage ∈ setting.graph.stages, Answered setting state stage := by
  have reached : ∀ id, setting.graph.Reachable id → ∃ result, state.outcome? id = some (.ok result) := by
    intro id reachable
    induction reachable with
    | refl => exact ⟨result, published⟩
    | @tail reader input path reads ih =>
      obtain ⟨_, reader_published⟩ := ih
      obtain ⟨stage, found, listed⟩ := reads.of_stage
      obtain rfl := formed.numbered found
      have member : stage ∈ setting.graph.stages := (Graph.mem_stages_iff formed).mpr ⟨path, found⟩
      obtain ⟨_, _, _, succeeded, _, _⟩ := balanced.answered stage member _ reader_published
      obtain ⟨input_result, _, input_published⟩ := input_succeeded succeeded listed
      exact ⟨input_result, input_published⟩
  intro stage member
  obtain ⟨_, stage_published⟩ := reached stage.id ((Graph.mem_stages_iff formed).mp member).1
  exact balanced.answered stage member _ stage_published

theorem no_failure (balanced : Balanced setting state)
    (answered : ∀ stage ∈ setting.graph.stages, Answered setting state stage) (id : Nat)
    (error : ExecutionError) : state.outcome? id ≠ some (.error error) := by
  intro failed
  obtain ⟨stage, found⟩ := task?_of_progress (outcome?_eq_some_iff.mp failed)
  obtain ⟨member, rfl⟩ := balanced.task_stage found
  obtain ⟨_, _, _, _, published, _⟩ := answered stage member
  simp [failed] at published

end Balanced
end RunState
end MetricEngine
