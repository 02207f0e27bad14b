import MetricEngine.Proofs.Execution.Agreement

/-!
The schedule of a run is one of its executions, and it comes to an end. Tasks that can take a step are
always among those that wait for their turn, a settled run can only go on when a running task is due, and
each later time finishes such a task.
-/
namespace MetricEngine
open RunState

/-- Steps of tasks one after another, while no time passes. -/
inductive Chain (setting : RunSetting) : RunState → List TaskStep → RunState → Prop where
  | nil {state} : Chain setting state [] state
  | cons {state step next steps final} : state.after? setting step = some next →
      Chain setting next steps final → Chain setting state (step :: steps) final

namespace Chain
variable {setting : RunSetting} {state next final : RunState} {past steps more : List TaskStep}

theorem append (first : Chain setting state steps next) (second : Chain setting next more final) :
    Chain setting state (steps ++ more) final := by
  induction first with
  | nil => exact second
  | cons taken _ ih => exact .cons taken (ih second)

theorem execution (chain : Chain setting state steps final) (execution : Execution setting past state) :
    Execution setting (past ++ steps) final := by
  induction chain generalizing past with
  | nil => simpa using execution
  | cons taken _ ih => simpa using ih (execution.step taken)

end Chain

namespace RunState
variable {setting : RunSetting} {state next : RunState} {id : Nat} {past : List TaskStep}

theorem after?_now {step : TaskStep} (taken : state.after? setting step = some next) :
    next.now = state.now := by
  obtain ⟨action, id⟩ := step
  cases action with
  | collect =>
    obtain ⟨stage, _, ⟨error, _, rfl⟩ | ⟨inputs, _, rfl⟩⟩ := collect?_eq_some taken
    · rfl
    · rfl
  | start =>
    obtain ⟨task, due, _, _, rfl⟩ := start?_eq_some taken
    rfl
  | finish =>
    obtain ⟨stage, due, inputs, _, _, rfl⟩ := finish?_eq_some taken
    obtain ⟨tally, counted⟩ := countAnswer_eq setting state stage inputs
    rw [counted]
    rfl

/-- A turn consists of steps of one task. -/
theorem poll_chain (setting : RunSetting) (state : RunState) (id : Nat) :
    ∃ actions : List TaskAction,
      Chain setting state (actions.map fun action => ⟨action, id⟩) (state.poll setting id) := by
  have attempt : ∀ (state : RunState) action, ∃ actions : List TaskAction,
      Chain setting state (actions.map fun action => ⟨action, id⟩)
        ((state.after? setting ⟨action, id⟩).getD state) := by
    intro state action
    cases taken : state.after? setting ⟨action, id⟩ with
    | none => exact ⟨[], .nil⟩
    | some next => exact ⟨[action], .cons taken .nil⟩
  obtain ⟨first, collected⟩ := attempt state .collect
  obtain ⟨second, started⟩ := attempt ((state.after? setting ⟨.collect, id⟩).getD state) .start
  have chain := collected.append started
  rw [← List.map_append] at chain
  simp only [poll]
  split
  · split
    · obtain ⟨third, finished⟩ := attempt _ .finish
      have chain := chain.append finished
      rw [← List.map_append] at chain
      exact ⟨_, chain⟩
    · exact ⟨_, chain⟩
  · exact ⟨_, chain⟩

theorem settle_chain (setting : RunSetting) (fuel : Nat) (ready : List Nat) (state : RunState) :
    ∃ steps, Chain setting state steps (state.settle setting fuel ready) := by
  induction fuel generalizing ready state with
  | zero => exact ⟨[], .nil⟩
  | succ fuel ih =>
    cases ready with
    | nil => exact ⟨[], .nil⟩
    | cons id ready =>
      obtain ⟨actions, turn⟩ := poll_chain setting state id
      obtain ⟨steps, rest⟩ := ih _ (state.poll setting id)
      exact ⟨_, turn.append rest⟩

/-- A run ends in a state of one of its executions. -/
theorem drive_execution {deadline : Option Nat} {instants : Nat} {ready : List Nat}
    (execution : Execution setting past state) :
    ∃ steps final, Execution setting steps final ∧
      (state.drive setting deadline instants ready = .ofState setting final ∨
        state.drive setting deadline instants ready = ⟨.timedOut, final⟩) := by
  induction instants generalizing past ready state with
  | zero => exact ⟨past, state, execution, .inl rfl⟩
  | succ instants ih =>
    rw [drive]
    split
    next time _ => exact ⟨past, _, execution.pass time, .inr rfl⟩
    next =>
      obtain ⟨steps, chain⟩ := settle_chain setting (state.turns ready) ready state
      have settled := chain.execution execution
      dsimp only
      split
      · exact ⟨_, _, settled, .inl rfl⟩
      · split
        next time _ => exact ih (settled.pass time)
        next => exact ⟨_, _, settled, .inl rfl⟩

theorem run_execution (setting : RunSetting) (deadline : Option Nat) :
    ∃ steps final, Execution setting steps final ∧
      (run setting deadline = .ofState setting final ∨ run setting deadline = ⟨.timedOut, final⟩) :=
  drive_execution .initial

/-! Who can take a step. -/

/-- A task that can take a step before any time passes. -/
def CanStep (setting : RunSetting) (state : RunState) (id : Nat) : Prop :=
  (∃ next, state.collect? id = some next) ∨ id ∈ state.startable setting ∨
    ∃ due, due ≤ state.now ∧ state.progress? id = some (.running due)

theorem startable_queued {steps : List TaskStep} (consistent : Consistent setting steps state)
    (allowed : id ∈ state.startable setting) : state.progress? id = some .queued :=
  (consistent.queued id).mp (mem_queue_of_startable allowed)

/-- Only stages that the root needs take steps. -/
theorem CanStep.reachable {steps : List TaskStep} (consistent : Consistent setting steps state)
    (formed : setting.graph.WellFormed) (can : CanStep setting state id) :
    setting.graph.Reachable id := by
  rw [← consistent.progress?_isSome_iff formed]
  rcases can with ⟨next, collected⟩ | allowed | ⟨due, _, running⟩
  · obtain ⟨stage, found, _⟩ := collect?_eq_some collected
    rw [task?_progress found]
    rfl
  · rw [startable_queued consistent allowed]
    rfl
  · rw [running]
    rfl

theorem no_collect {progress : Progress} (found : state.progress? id = some progress)
    (moved : progress ≠ .waiting) : ¬∃ next, state.collect? id = some next := by
  rintro ⟨next, collected⟩
  obtain ⟨stage, task, _⟩ := collect?_eq_some collected
  rw [task?_progress task, Option.some.injEq] at found
  exact moved found.symm

/-- How far a task is behind each of its steps. -/
theorem progress?_after {action : TaskAction} (taken : state.after? setting ⟨action, id⟩ = some next) :
    ∃ new, next.progress? id = some new ∧
      match action with
      | .collect => new = .queued ∨ ∃ outcome, new = .finished outcome
      | .start => ∃ due, new = .running due
      | .finish => ∃ outcome, new = .finished outcome := by
  obtain ⟨stage, old, new, _, ⟨_, _, move, _, _⟩, moved, _⟩ := after?_move taken
  refine ⟨new, by rw [moved, if_pos rfl], ?_⟩
  cases move with
  | skip => exact .inr ⟨_, rfl⟩
  | enqueue => exact .inl rfl
  | start => exact ⟨_, rfl⟩
  | finish => exact ⟨_, rfl⟩

theorem execution_getD {steps : List TaskStep} (execution : Execution setting steps state)
    (step : TaskStep) :
    ∃ more, Execution setting more ((state.after? setting step).getD state) := by
  cases taken : state.after? setting step with
  | none => exact ⟨steps, execution⟩
  | some next => exact ⟨_, execution.step taken⟩

theorem collect_exhausts (setting : RunSetting) (state : RunState) (id : Nat) :
    ¬∃ next, ((state.after? setting ⟨.collect, id⟩).getD state).collect? id = some next := by
  cases taken : state.after? setting ⟨.collect, id⟩ with
  | none =>
    rintro ⟨next, collected⟩
    exact Option.some_ne_none next (collected.symm.trans taken)
  | some next =>
    obtain ⟨new, found, rfl | ⟨outcome, rfl⟩⟩ := progress?_after taken
    · exact no_collect found (by simp)
    · exact no_collect found (by simp)

/-- After its turn, a task has neither inputs to take in nor a permit to take. -/
theorem start_exhausts (formed : setting.graph.WellFormed)
    (execution : Execution setting past state) (blocked : ¬∃ next, state.collect? id = some next) :
    (¬∃ next, ((state.after? setting ⟨.start, id⟩).getD state).collect? id = some next) ∧
      id ∉ ((state.after? setting ⟨.start, id⟩).getD state).startable setting := by
  cases taken : state.after? setting ⟨.start, id⟩ with
  | none =>
    refine ⟨blocked, fun allowed => ?_⟩
    obtain ⟨stage, task⟩ := task?_of_progress (startable_queued (execution.consistent formed) allowed)
    obtain ⟨next, started⟩ := can_start task allowed
    exact Option.some_ne_none next (started.symm.trans taken)
  | some next =>
    obtain ⟨new, found, due, rfl⟩ := progress?_after taken
    refine ⟨no_collect found (by simp), fun allowed => ?_⟩
    have queued := startable_queued ((execution.step taken).consistent formed) allowed
    simp [found] at queued

theorem finish_exhausts (formed : setting.graph.WellFormed)
    (execution : Execution setting past state) {due : Nat}
    (running : state.progress? id = some (.running due)) :
    ¬CanStep setting ((state.after? setting ⟨.finish, id⟩).getD state) id := by
  obtain ⟨next, taken⟩ := (execution.consistent formed).can_finish_running formed running
  obtain ⟨new, found, outcome, rfl⟩ := progress?_after taken
  rw [taken, Option.getD_some]
  rintro (collects | allowed | ⟨time, _, running⟩)
  · exact no_collect found (by simp) collects
  · have queued := startable_queued ((execution.step taken).consistent formed) allowed
    simp [found] at queued
  · simp [found] at running

/-- After its turn a task cannot take any further step. -/
theorem poll_exhausts (formed : setting.graph.WellFormed) (execution : Execution setting past state) :
    ¬CanStep setting (state.poll setting id) id := by
  obtain ⟨_, collected⟩ := execution_getD execution ⟨.collect, id⟩
  obtain ⟨no_collect, no_start⟩ :=
    start_exhausts formed collected (collect_exhausts setting state id)
  obtain ⟨_, started⟩ := execution_getD collected ⟨.start, id⟩
  simp only [poll]
  split
  next due found =>
    split
    next => exact finish_exhausts formed started (due?_eq_some_iff.mp found)
    next late =>
      rintro (collects | allowed | ⟨time, early, running⟩)
      · exact no_collect collects
      · exact no_start allowed
      · obtain rfl : due = time := Option.some.inj (found.symm.trans (due?_eq_some_iff.mpr running))
        exact late early
  next idle =>
    rintro (collects | allowed | ⟨time, _, running⟩)
    · exact no_collect collects
    · exact no_start allowed
    · exact Option.some_ne_none time ((due?_eq_some_iff.mpr running).symm.trans idle)

/-! What a step changes for the other tasks. -/

/-- Counting tasks by their progress is counting the stages that run. -/
theorem countP_tasks {steps : List TaskStep} (consistent : Consistent setting steps state)
    (formed : setting.graph.WellFormed) (counted : Task → Bool) :
    state.tasks.countP counted =
      setting.graph.order.countP fun id => (state.task? id).any counted := by
  have ids : setting.graph.order = state.tasks.map (·.stage.id) := by
    rw [← Graph.stages_ids formed, ← consistent.stages, List.map_map]
    rfl
  rw [ids, List.countP_map]
  refine List.countP_congr fun task member => ?_
  simp [consistent.task?_of_mem formed member]

theorem any_due {id : Nat} : (state.task? id).any (·.due?.isSome) ↔
    ∃ due, state.progress? id = some (.running due) := by
  cases found : state.task? id with
  | none => simp [progress?, found]
  | some task => cases progress : task.progress <;> simp [progress?, Task.due?, progress, found]

theorem any_unfinished {id : Nat} : (state.task? id).any (·.outcome?.isNone) ↔
    (state.progress? id).isSome ∧ state.outcome? id = none := by
  cases found : state.task? id with
  | none => simp [progress?, found]
  | some task => simp [progress?, outcome?, found, Option.isNone_iff_eq_none]

/-- A step that does not finish gives no permit back, and one that starts takes a permit. -/
theorem runningCount_after {steps : List TaskStep} (formed : setting.graph.WellFormed)
    (execution : Execution setting steps state) {action : TaskAction}
    (taken : state.after? setting ⟨action, id⟩ = some next) (goesOn : next.outcome? id = none) :
    state.runningCount ≤ next.runningCount ∧
      (action = .start → state.runningCount < next.runningCount) := by
  have consistent := execution.consistent formed
  have later := (execution.step taken).consistent formed
  obtain ⟨stage, old, new, found, ⟨queue, _, move, _, _⟩, moved, _⟩ := after?_move taken
  have idle : ∀ due, old ≠ .running due := by
    rintro due rfl
    cases move with
    | start allowed => simpa [task?_progress found] using startable_queued consistent allowed
    | finish =>
      have published := outcome?_eq_some_iff.mpr ((moved id).trans (if_pos rfl))
      simp [published] at goesOn
  have stays : ∀ reader ∈ setting.graph.order,
      (state.task? reader).any (·.due?.isSome) → (next.task? reader).any (·.due?.isSome) := by
    intro reader _ running
    obtain ⟨due, running⟩ := any_due.mp running
    refine any_due.mpr ⟨due, ?_⟩
    rw [moved, if_neg, running]
    rintro rfl
    rw [task?_progress found, Option.some.injEq] at running
    exact idle due running
  rw [runningCount, runningCount, countP_tasks consistent formed, countP_tasks later formed]
  refine ⟨List.countP_mono_left stays, ?_⟩
  rintro rfl
  obtain ⟨new, running, due, rfl⟩ := progress?_after taken
  have reachable : setting.graph.Reachable id :=
    (later.progress?_isSome_iff formed).mp (by rw [running]; rfl)
  refine ListFacts.countP_lt_countP stays ((Graph.mem_order_iff formed).mpr reachable) ?_
    (any_due.mpr ⟨due, running⟩)
  rw [← Bool.not_eq_true, any_due]
  rintro ⟨time, running⟩
  rw [task?_progress found, Option.some.injEq] at running
  exact idle time running

/-- No other task gets a permit by a step that does not finish. -/
theorem startable_of_after {steps : List TaskStep} (formed : setting.graph.WellFormed)
    (execution : Execution setting steps state) {action : TaskAction}
    (taken : state.after? setting ⟨action, id⟩ = some next) (goesOn : next.outcome? id = none)
    {other : Nat} (different : other ≠ id) (allowed : other ∈ next.startable setting) :
    other ∈ state.startable setting := by
  obtain ⟨fewer, strictly⟩ := runningCount_after formed execution taken goesOn
  obtain ⟨stage, old, new, found, ⟨queue, _, move, sameQueue, _⟩, moved, _⟩ := after?_move taken
  have published : ∀ outcome, new ≠ .finished outcome := by
    rintro outcome rfl
    have published := outcome?_eq_some_iff.mpr ((moved id).trans (if_pos rfl))
    simp [published] at goesOn
  rw [startable] at allowed ⊢
  rw [sameQueue] at allowed
  cases move with
  | skip => exact absurd rfl (published _)
  | finish => exact absurd rfl (published _)
  | enqueue =>
    split at allowed
    next unlimited =>
      rw [if_pos unlimited]
      simpa [different] using allowed
    next limited =>
      rw [if_neg limited]
      rcases ListFacts.mem_take_concat allowed with before | rfl
      · exact (List.take_sublist_take_left (by omega)).subset before
      · exact absurd rfl different
  | start permit =>
    split at allowed
    next unlimited =>
      rw [if_pos unlimited]
      exact List.mem_of_mem_erase allowed
    next limited =>
      rw [if_neg limited]
      have more := strictly rfl
      have has_permit : 0 < setting.limit - state.runningCount := by
        simp only [startable, if_neg limited] at permit
        by_contra exhausted
        simp [Nat.eq_zero_of_not_pos exhausted] at permit
      exact (List.take_sublist_take_left (by omega)).subset (ListFacts.mem_take_erase allowed)

/-- A task that waits for inputs learns nothing new unless one of them finishes. -/
theorem collect?_of_after {steps : List TaskStep} (formed : setting.graph.WellFormed)
    (execution : Execution setting steps state) {action : TaskAction}
    (taken : state.after? setting ⟨action, id⟩ = some next) {other : Nat} (different : other ≠ id)
    (collects : ∃ later, next.collect? other = some later) :
    (∃ later, state.collect? other = some later) ∨
      (next.outcome? id).isSome ∧ other ∈ next.waitingReaders id := by
  have consistent := execution.consistent formed
  have consistent' := (execution.step taken).consistent formed
  obtain ⟨_, _, _, _, _, moved, _⟩ := after?_move taken
  obtain ⟨later, collected⟩ := collects
  obtain ⟨stage, task, known⟩ := collect?_eq_some collected
  have isStage : setting.graph.stage? other = some stage := consistent'.task_stage formed task
  have waiting : state.progress? other = some .waiting := by
    rw [← task?_progress task, moved, if_neg different]
  obtain ⟨reader, task_before⟩ := task?_of_progress waiting
  obtain rfl : stage = reader :=
    Option.some.inj (isStage.symm.trans (consistent.task_stage formed task_before))
  by_cases finished : id ∈ stage.inputs ∧ (next.outcome? id).isSome
  · refine .inr ⟨finished.2, List.mem_map.mpr ⟨⟨stage, .waiting⟩, ?_, ?_⟩⟩
    · simp [List.mem_of_find?_eq_some task, Task.isWaiting, finished.1]
    · simpa using List.find?_some task
  · refine .inl (can_collect task_before ?_)
    have same : next.inputs? stage = state.inputs? stage := by
      refine inputs?_congr fun input member => ?_
      by_cases equal : input = id
      · subst equal
        have missing : next.outcome? input = none := by simpa [member] using finished
        rw [missing]
        symm
        cases before : state.outcome? input with
        | none => rfl
        | some outcome =>
          have := consistent.orderly.outcome?_after taken before
          simp [missing] at this
      · exact outcome?_congr (by rw [moved, if_neg equal])
    rw [← same]
    rcases known with ⟨error, known, _⟩ | ⟨inputs, known, _⟩ <;> simp [known]

theorem CanStep.of_after {steps : List TaskStep} (formed : setting.graph.WellFormed)
    (execution : Execution setting steps state) {action : TaskAction}
    (taken : state.after? setting ⟨action, id⟩ = some next) {other : Nat} (different : other ≠ id)
    (can : CanStep setting next other) :
    CanStep setting state other ∨
      (next.outcome? id).isSome ∧ other ∈ next.woken setting id := by
  rcases can with collects | allowed | ⟨due, early, running⟩
  · rcases collect?_of_after formed execution taken different collects with before | ⟨ended, reads⟩
    · exact .inl (.inl before)
    · exact .inr ⟨ended, List.mem_eraseDups.mpr (List.mem_append_right _ reads)⟩
  · cases ended : next.outcome? id with
    | none => exact .inl (.inr (.inl (startable_of_after formed execution taken ended different allowed)))
    | some outcome => exact .inr ⟨rfl, List.mem_eraseDups.mpr (List.mem_append_left _ allowed)⟩
  · obtain ⟨_, _, _, _, _, moved, _⟩ := after?_move taken
    rw [moved, if_neg different] at running
    exact .inl (.inr (.inr ⟨due, after?_now taken ▸ early, running⟩))

/-- Nobody else can step because of a turn, unless it finishes the task and wakes them. -/
theorem CanStep.of_turn (formed : setting.graph.WellFormed) {final : RunState}
    {actions : List TaskAction} (execution : Execution setting past state)
    (turn : Chain setting state (actions.map fun action => ⟨action, id⟩) final) {other : Nat}
    (different : other ≠ id) (can : CanStep setting final other) :
    CanStep setting state other ∨
      state.outcome? id = none ∧ (final.outcome? id).isSome ∧ other ∈ final.woken setting id := by
  induction actions generalizing state past with
  | nil =>
    cases turn
    exact .inl can
  | cons action actions ih =>
    cases turn with
    | cons taken rest =>
      have consistent := execution.consistent formed
      obtain ⟨_, _, _, found, ⟨_, _, move, _, _⟩, _⟩ := after?_move taken
      have running := move.not_finished consistent.orderly found
      rcases ih (execution.step taken) rest with before | ⟨goesOn, ended, wakes⟩
      · rcases CanStep.of_after formed execution taken different before with before | ⟨ended, wakes⟩
        · exact .inl before
        · -- A finished task takes no further step, so the turn has ended here.
          cases actions with
          | nil =>
            cases rest
            exact .inr ⟨running, ended, wakes⟩
          | cons again _ =>
            cases rest with
            | cons taken_again _ =>
              obtain ⟨_, _, _, found, ⟨_, _, move, _, _⟩, _⟩ := after?_move taken_again
              have consistent := (execution.step taken).consistent formed
              simp [move.not_finished consistent.orderly found] at ended
      · exact .inr ⟨running, ended, wakes⟩

/-! Each turn uses something up. -/

def unfinished (state : RunState) : Nat :=
  state.tasks.countP fun task => task.outcome?.isNone

theorem tasks_length {steps : List TaskStep} (consistent : Consistent setting steps state)
    (formed : setting.graph.WellFormed) : state.tasks.length = setting.graph.order.length := by
  rw [← Graph.stages_ids formed, List.length_map, ← consistent.stages, List.length_map]

theorem chain_published {final : RunState} {steps : List TaskStep} (formed : setting.graph.WellFormed)
    (execution : Execution setting past state) (chain : Chain setting state steps final)
    {outcome : StageOutcome} (published : state.outcome? id = some outcome) :
    final.outcome? id = some outcome := by
  induction chain generalizing past with
  | nil => exact published
  | cons taken _ ih =>
    exact ih (execution.step taken) ((execution.consistent formed).orderly.outcome?_after taken published)

theorem chain_unfinished {final : RunState} {steps : List TaskStep} (formed : setting.graph.WellFormed)
    (execution : Execution setting past state) (chain : Chain setting state steps final) :
    final.unfinished ≤ state.unfinished ∧
      ((∃ id, state.outcome? id = none ∧ (final.outcome? id).isSome) →
        final.unfinished < state.unfinished) := by
  have consistent := execution.consistent formed
  have later := (chain.execution execution).consistent formed
  have fewer : ∀ id ∈ setting.graph.order,
      (final.task? id).any (·.outcome?.isNone) → (state.task? id).any (·.outcome?.isNone) := by
    intro id member pending
    rw [any_unfinished] at pending ⊢
    refine ⟨(consistent.progress?_isSome_iff formed).mpr ((Graph.mem_order_iff formed).mp member), ?_⟩
    cases published : state.outcome? id with
    | none => rfl
    | some outcome => simp [chain_published formed execution chain published] at pending
  rw [unfinished, unfinished, countP_tasks consistent formed, countP_tasks later formed]
  refine ⟨List.countP_mono_left fewer, ?_⟩
  rintro ⟨id, pending, finished⟩
  have running : (final.progress? id).isSome := by
    obtain ⟨outcome, finished⟩ := Option.isSome_iff_exists.mp finished
    rw [outcome?_eq_some_iff.mp finished]
    rfl
  have reachable := (later.progress?_isSome_iff formed).mp running
  refine ListFacts.countP_lt_countP fewer ((Graph.mem_order_iff formed).mpr reachable) ?_
    (any_unfinished.mpr ⟨(consistent.progress?_isSome_iff formed).mpr reachable, pending⟩)
  rw [← Bool.not_eq_true, any_unfinished]
  rintro ⟨_, missing⟩
  simp [missing] at finished

theorem woken_length_le {steps : List TaskStep} (formed : setting.graph.WellFormed)
    (consistent : Consistent setting steps state) (id : Nat) :
    (state.woken setting id).length ≤ state.tasks.length := by
  rw [tasks_length consistent formed]
  refine (List.subperm_of_subset (ListFacts.nodup_eraseDups _) fun other wakes => ?_).length_le
  rw [Graph.mem_order_iff formed]
  rcases List.mem_append.mp (List.mem_eraseDups.mp wakes) with allowed | reads
  · exact CanStep.reachable consistent formed (.inr (.inl allowed))
  · obtain ⟨task, member, rfl⟩ := List.mem_map.mp reads
    have found := consistent.task?_of_mem formed (List.mem_filter.mp member).1
    rw [← consistent.progress?_isSome_iff formed, task?_progress found]
    rfl

/-- Everyone who can take a step waits for a turn. -/
def Awake (setting : RunSetting) (ready : List Nat) (state : RunState) : Prop :=
  ∀ id, CanStep setting state id → id ∈ ready

theorem Awake.not_canStep (settled : Awake setting [] state) : ¬CanStep setting state id :=
  fun can => List.not_mem_nil (settled id can)

/-- After enough turns no task can take a step. -/
theorem settle_awake (formed : setting.graph.WellFormed) {fuel : Nat} {ready : List Nat}
    (execution : Execution setting past state) (awake : Awake setting ready state)
    (enough : state.turns ready ≤ fuel) : Awake setting [] (state.settle setting fuel ready) := by
  induction fuel generalizing past ready state with
  | zero =>
    obtain rfl : ready = [] := List.eq_nil_of_length_eq_zero (by unfold turns at enough; omega)
    exact awake
  | succ fuel ih =>
    cases ready with
    | nil => exact awake
    | cons id ready =>
      obtain ⟨actions, turn⟩ := poll_chain setting state id
      have later := turn.execution execution
      have same_length : (state.poll setting id).tasks.length = state.tasks.length :=
        (tasks_length (later.consistent formed) formed).trans
          (tasks_length (execution.consistent formed) formed).symm
      obtain ⟨fewer, strictly⟩ := chain_unfinished formed execution turn
      have wakes := woken_length_le formed (later.consistent formed) id
      simp only [settle]
      apply ih later
      · intro other can
        by_cases same : other = id
        · exact absurd (same ▸ can) (poll_exhausts formed execution)
        · rcases CanStep.of_turn formed execution turn same can with before | ⟨pending, ended, wakes⟩
          · have := (List.mem_cons.mp (awake other before)).resolve_left same
            exact List.mem_append_left _ this
          · simp only [isFinished, pending, ended, Option.isSome_none, Bool.not_false, Bool.true_and,
              if_true, List.mem_append, List.mem_filter, wakes, true_and]
            by_cases listed : other ∈ ready <;> simp [listed]
      · change _ + _ * (state.poll setting id).unfinished ≤ _
        change _ + _ * state.unfinished ≤ _ at enough
        rw [same_length, List.length_append]
        simp only [List.length_cons] at enough
        split
        next ended =>
          simp only [isFinished, Bool.and_eq_true, Bool.not_eq_true', Option.isSome_eq_false_iff,
            Option.isNone_iff_eq_none] at ended
          have filtered := List.length_filter_le (fun other => !ready.contains other)
            ((state.poll setting id).woken setting id)
          have product : state.tasks.length * ((state.poll setting id).unfinished + 1) ≤
              state.tasks.length * state.unfinished :=
            Nat.mul_le_mul_left _ (strictly ⟨id, ended⟩)
          rw [Nat.mul_add] at product
          omega
        next =>
          have product := Nat.mul_le_mul_left state.tasks.length fewer
          simp only [List.length_nil]
          omega

/-! From one time to the next. -/

theorem chain_now {final : RunState} {steps : List TaskStep}
    (chain : Chain setting state steps final) : final.now = state.now := by
  induction chain with
  | nil => rfl
  | cons taken _ ih => rw [ih, after?_now taken]

/-- While no time passes, a running task goes on running or publishes. -/
theorem chain_running {final : RunState} {steps : List TaskStep} (formed : setting.graph.WellFormed)
    (execution : Execution setting past state) (chain : Chain setting state steps final) {due : Nat}
    (running : state.progress? id = some (.running due)) :
    final.progress? id = some (.running due) ∨ ∃ outcome, final.outcome? id = some outcome := by
  induction chain generalizing past with
  | nil => exact .inl running
  | @cons state step next _ _ taken rest ih =>
    obtain ⟨action, task⟩ := step
    obtain ⟨_, _, new, found, ⟨_, _, move, _, _⟩, moved, _⟩ := after?_move taken
    by_cases same : id = task
    · subst same
      cases move with
      | skip => simp [task?_progress found] at running
      | enqueue => simp [task?_progress found] at running
      | start allowed => simp [startable_queued (execution.consistent formed) allowed] at running
      | finish =>
        have published := outcome?_eq_some_iff.mpr ((moved id).trans (if_pos rfl))
        exact .inr ⟨_, chain_published formed (execution.step taken) rest published⟩
    · exact ih (execution.step taken) (by rw [moved, if_neg same, running])

theorem running_iff {steps : List TaskStep} (consistent : Consistent setting steps state)
    (formed : setting.graph.WellFormed) {due : Nat} :
    state.progress? id = some (.running due) ↔
      ∃ task ∈ state.tasks, task.due? = some due ∧ task.stage.id = id := by
  constructor
  · intro running
    obtain ⟨stage, found⟩ := task?_of_progress running
    exact ⟨_, List.mem_of_find?_eq_some found, rfl, by simpa using List.find?_some found⟩
  · rintro ⟨⟨stage, progress⟩, member, running, rfl⟩
    cases progress <;> simp [Task.due?] at running
    exact running ▸ task?_progress (consistent.task?_of_mem formed member)

theorem unfinished_pos {steps : List TaskStep} (consistent : Consistent setting steps state)
    (formed : setting.graph.WellFormed) {due : Nat}
    (running : state.progress? id = some (.running due)) : 0 < state.unfinished := by
  obtain ⟨⟨stage, progress⟩, member, running, _⟩ := (running_iff consistent formed).mp running
  refine List.countP_pos_iff.mpr ⟨_, member, ?_⟩
  cases progress <;> simp [Task.due?] at running
  rfl

theorem nextDue?_spec {steps : List TaskStep} (consistent : Consistent setting steps state)
    (formed : setting.graph.WellFormed) {due : Nat}
    (running : state.progress? id = some (.running due)) :
    ∃ time, state.nextDue? = some time ∧ (∃ id, state.progress? id = some (.running time)) ∧
      ∀ id due, state.progress? id = some (.running due) → time ≤ due := by
  obtain ⟨task, member, found, _⟩ := (running_iff consistent formed).mp running
  have listed : due ∈ state.tasks.filterMap (·.due?) := List.mem_filterMap.mpr ⟨task, member, found⟩
  cases next : state.nextDue? with
  | none => simp [List.min?_eq_none_iff.mp next] at listed
  | some time =>
    obtain ⟨least_listed, least⟩ := List.min?_eq_some_iff.mp next
    obtain ⟨first, first_member, first_due⟩ := List.mem_filterMap.mp least_listed
    refine ⟨time, rfl, ⟨_, (running_iff consistent formed).mpr ⟨first, first_member, first_due, rfl⟩⟩, ?_⟩
    intro other due running
    obtain ⟨task, member, found, _⟩ := (running_iff consistent formed).mp running
    exact least due (List.mem_filterMap.mpr ⟨task, member, found⟩)

/-- When the next running tasks are due, they are the only ones that can take a step. -/
theorem awake_at_due {steps : List TaskStep} (consistent : Consistent setting steps state)
    (formed : setting.graph.WellFormed) (settled : Awake setting [] state) {time : Nat}
    (least : ∀ id due, state.progress? id = some (.running due) → time ≤ due) :
    Awake setting (state.dueAt time) { state with now := time } := by
  rintro id (⟨next, collected⟩ | allowed | ⟨due, early, running⟩)
  · obtain ⟨stage, task, known⟩ := collect?_eq_some collected
    have known : (state.inputs? stage).isSome := by
      rcases known with ⟨error, known, _⟩ | ⟨inputs, known, _⟩
      · exact Option.isSome_iff_exists.mpr ⟨_, known⟩
      · exact Option.isSome_iff_exists.mpr ⟨_, known⟩
    exact absurd (.inl (can_collect task known)) settled.not_canStep
  · exact absurd (.inr (.inl allowed)) settled.not_canStep
  · obtain rfl : due = time := Nat.le_antisymm early (least id due running)
    obtain ⟨task, member, found, rfl⟩ := (running_iff consistent formed).mp running
    exact List.mem_map.mpr ⟨task, List.mem_filter.mpr ⟨member, by simp [found]⟩, rfl⟩

/-- A settled run whose root has not published waits for a running task. -/
theorem running_of_settled {steps : List TaskStep} (consistent : Consistent setting steps state)
    (formed : setting.graph.WellFormed) (settled : Awake setting [] state)
    (pending : state.outcome? setting.graph.root = none) :
    ∃ id due, state.progress? id = some (.running due) := by
  obtain ⟨⟨action, id⟩, next, taken⟩ := consistent.progress formed pending
  cases action with
  | collect => exact absurd (.inl ⟨next, taken⟩) settled.not_canStep
  | start =>
    obtain ⟨_, _, _, allowed, _⟩ := start?_eq_some taken
    exact absurd (.inr (.inl allowed)) settled.not_canStep
  | finish =>
    obtain ⟨stage, due, _, found, _⟩ := finish?_eq_some taken
    exact ⟨id, due, task?_progress found⟩

/-- Each time but the first begins with a running task that is due, and so brings one to its end. -/
theorem drive_publishes (formed : setting.graph.WellFormed) {instants : Nat} {ready : List Nat}
    (execution : Execution setting past state) (awake : Awake setting ready state)
    (enough : state.unfinished < instants ∨ state.unfinished ≤ instants ∧
      ∃ id due, due ≤ state.now ∧ state.progress? id = some (.running due)) :
    ∃ steps final outcome, Execution setting steps final ∧
      final.outcome? setting.graph.root = some outcome ∧
      state.drive setting none instants ready = .ofState setting final := by
  induction instants generalizing past ready state with
  | zero =>
    rcases enough with none | ⟨none, id, due, _, running⟩
    · exact absurd none (Nat.not_lt_zero _)
    · have := unfinished_pos (execution.consistent formed) formed running
      omega
  | succ instants ih =>
    obtain ⟨steps, chain⟩ := settle_chain setting (state.turns ready) ready state
    have settled := settle_awake formed execution awake (Nat.le_refl _)
    have later := chain.execution execution
    have consistent := later.consistent formed
    obtain ⟨fewer, strictly⟩ := chain_unfinished formed execution chain
    rw [drive]
    simp only [Option.filter_none]
    split
    next ended =>
      obtain ⟨outcome, published⟩ := Option.isSome_iff_exists.mp ended
      exact ⟨_, _, outcome, later, published, rfl⟩
    next pending =>
      have pending := Option.not_isSome_iff_eq_none.mp pending
      obtain ⟨id, due, running⟩ := running_of_settled consistent formed settled pending
      obtain ⟨time, next, ⟨first, first_running⟩, least⟩ := nextDue?_spec consistent formed running
      rw [next]
      refine ih (later.pass time) (awake_at_due consistent formed settled least)
        (.inr ⟨?_, first, time, Nat.le_refl _, first_running⟩)
      change (state.settle setting (state.turns ready) ready).unfinished ≤ instants
      rcases enough with enough | ⟨enough, id, due, early, running⟩
      · omega
      · have waiting : state.outcome? id = none := by
          cases published : state.outcome? id with
          | none => rfl
          | some outcome => simp [outcome?_eq_some_iff.mp published] at running
        rcases chain_running formed execution chain running with running | ⟨outcome, published⟩
        · exact absurd (.inr (.inr ⟨due, chain_now chain ▸ early, running⟩)) settled.not_canStep
        · have := strictly ⟨id, waiting, by rw [published]; rfl⟩
          omega

/-- A run without a deadline ends when its root has published. -/
theorem run_publishes (formed : setting.graph.WellFormed) :
    ∃ steps final outcome, Execution setting steps final ∧
      final.outcome? setting.graph.root = some outcome ∧
      run setting none = .ofState setting final := by
  have consistent := Execution.initial.consistent formed
  refine drive_publishes formed .initial ?_ (.inl (Nat.lt_succ_of_le List.countP_le_length))
  intro id can
  exact (Graph.mem_order_iff formed).mpr (can.reachable consistent formed)

/-- A run answers with the value of its root if there is one, and with the error of a stage that fails by
itself and that the root needs if there is none. -/
theorem run_finish (setting : RunSetting) (formed : setting.graph.WellFormed) :
    match setting.value? setting.graph.root with
    | some result =>
      (run setting none).finish = .published (.ok (result.withWarnings setting.graph.warnings))
    | none => ∃ origin error, setting.graph.Reachable origin ∧ setting.Fails origin error ∧
      (run setting none).finish = .published (.error error) := by
  obtain ⟨steps, final, outcome, execution, published, ended⟩ := run_publishes formed
  have explained := (execution.consistent formed).explained _ _ published
  rw [ended]
  rw [RunReport.ofState, published]
  cases outcome with
  | ok result =>
    have value : setting.value? setting.graph.root = some result := explained
    rw [value]
  | error error =>
    obtain ⟨origin, path, fails⟩ := explained
    rw [fails.no_value path]
    exact ⟨origin, error, path, fails, rfl⟩

theorem ofState_state (setting : RunSetting) (state : RunState) :
    (RunReport.ofState setting state).state = state := by
  rw [RunReport.ofState]
  split <;> rfl

/-- A report of success has the result of the root with the warnings of the graph. -/
theorem ofState_succeeds {result : Result}
    (succeeded : (RunReport.ofState setting state).finish = .published (.ok result)) :
    ∃ value, state.outcome? setting.graph.root = some (.ok value) ∧
      result = value.withWarnings setting.graph.warnings := by
  rw [RunReport.ofState] at succeeded
  cases published : state.outcome? setting.graph.root with
  | none => simp [published] at succeeded
  | some outcome =>
    cases outcome with
    | error error => simp [published] at succeeded
    | ok value =>
      simp only [published, RunEnd.published.injEq, Except.ok.injEq] at succeeded
      exact ⟨value, rfl, succeeded.symm⟩

/-- A run that succeeds answers with the value of its root and the warnings of its graph. -/
theorem run_succeeds (formed : setting.graph.WellFormed) {deadline : Option Nat}
    {result : Result} (succeeded : (run setting deadline).finish = .published (.ok result)) :
    ∃ steps value, Execution setting steps (run setting deadline).state ∧
      setting.value? setting.graph.root = some value ∧
      result = value.withWarnings setting.graph.warnings := by
  obtain ⟨steps, final, execution, ended | timedOut⟩ := run_execution setting deadline
  · rw [ended] at succeeded ⊢
    obtain ⟨value, published, same⟩ := ofState_succeeds succeeded
    have explained := (execution.consistent formed).explained _ _ published
    exact ⟨steps, value, (ofState_state setting final).symm ▸ execution, explained, same⟩
  · simp [timedOut] at succeeded

end RunState
end MetricEngine
