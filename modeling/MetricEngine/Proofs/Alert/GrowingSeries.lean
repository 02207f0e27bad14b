import MetricEngine.Proofs.Alert.AbsenceWindows
import MetricEngine.Proofs.Alert.ThresholdWindows

/-!
What a further evaluation makes of the triggers of a series that has got more samples. The triggers that a
sample had closed stay as they are and where they are. An evaluation can take back only what it had to
decide at the end of the samples: the end of the trigger that was still open, and the trigger of a series
whose last sample is too old.
-/
namespace MetricEngine

/-- The windows that an evaluation finds, in their order. -/
structure AlertHistory where
  /-- Closed by a sample. -/
  settled : List AlertWindow
  /-- Open behind the last sample, so that the evaluation ends it. -/
  pending : List AlertWindow
  /-- Without an end, as the last sample is too old. -/
  stale : List AlertWindow

namespace Series

def grown (series : Series) (later : List Sample) : Series :=
  { series with values := series.values ++ later }

/-- The trigger that a window becomes on a series. -/
def trigger (series : Series) (window : AlertWindow) : Trigger :=
  ⟨window.start, window.finish, window.message, series.alertArgs, series.alertGroup⟩

theorem alerts_withWindows (series : Series) (windows : List AlertWindow) :
    (series.withWindows windows).alerts = series.alerts ++ windows.map series.trigger :=
  rfl

/-- More samples make no other triggers of the same windows. -/
theorem alerts_grown (series : Series) (later : List Sample) (windows : List AlertWindow) :
    ((series.grown later).withWindows windows).alerts = series.alerts ++ windows.map series.trigger :=
  rfl

end Series

/-- Windows that are found along a walk: the pending one comes first, with another end, and the others are
new. -/
inductive AlertWindow.Resumed (ends new : Instant → Prop) : List AlertWindow → List AlertWindow → Prop
  | shut {found : List AlertWindow} (fresh : ∀ window ∈ found, new window.start) :
      Resumed ends new [] found
  | goesOn {pending : AlertWindow} {finish : Instant} {found : List AlertWindow} (ending : ends finish)
      (fresh : ∀ window ∈ found, new window.start) :
      Resumed ends new [pending] ({ pending with finish := some finish } :: found)

namespace AlertWindow.Resumed
variable {ends new : Instant → Prop} {pending found : List AlertWindow}

theorem imp {wider_ends wider_new : Instant → Prop} (resumed : Resumed ends new pending found)
    (ends_imp : ∀ finish, ends finish → wider_ends finish)
    (new_imp : ∀ start, new start → wider_new start) : Resumed wider_ends wider_new pending found := by
  cases resumed with
  | shut fresh => exact .shut fun window listed => new_imp _ (fresh window listed)
  | goesOn ending fresh =>
    exact .goesOn (ends_imp _ ending) fun window listed => new_imp _ (fresh window listed)

/-- A window that opens along the walk is new. -/
theorem opens {window : AlertWindow} (resumed : Resumed ends new [window] found)
    (start : new window.start) : Resumed ends new [] found := by
  cases resumed with
  | goesOn _ fresh => exact .shut (List.forall_mem_cons.mpr ⟨start, fresh⟩)

theorem closes {window : AlertWindow} {finish : Instant} (resumed : Resumed ends new [] found)
    (ending : ends finish) :
    Resumed ends new [window] ({ window with finish := some finish } :: found) := by
  cases resumed with
  | shut fresh => exact .goesOn ending fresh

theorem paired (resumed : Resumed ends new pending found) : ∃ first fresh, found = first ++ fresh ∧
    List.Forall₂ (fun before after => ∃ finish, ends finish ∧
      after = { before with finish := some finish }) pending first ∧
    ∀ window ∈ fresh, new window.start := by
  cases resumed with
  | shut fresh => exact ⟨[], found, rfl, .nil, fresh⟩
  | goesOn ending fresh => exact ⟨[_], _, rfl, .cons ⟨_, ending, rfl⟩ .nil, fresh⟩

end AlertWindow.Resumed

/-- The same trigger but for its end. -/
structure Trigger.GoesOn (before after : Trigger) : Prop where
  time : after.time = before.time
  message : after.message = before.message
  args : after.args = before.args
  groupBy : after.groupBy = before.groupBy

namespace AlertHistory

def windows (history : AlertHistory) : List AlertWindow :=
  history.settled ++ history.pending ++ history.stale

/-- The triggers of a series once, and again when it has grown: those that were settled stay in place, the
pending one goes on, and whatever else has an end is new. -/
structure CarriedOn (history : AlertHistory) (series : Series) (once again : List Trigger)
    (ends : Option Instant → Option Instant → Prop) (new : Instant → Prop) : Prop where
  once : once = series.alerts ++ history.windows.map series.trigger
  again : ∃ resumed fresh,
    again = series.alerts ++ (history.settled.map series.trigger ++ resumed ++ fresh) ∧
      List.Forall₂ (fun before after => before.GoesOn after ∧ ends before.finish after.finish)
        (history.pending.map series.trigger) resumed ∧
      ∀ trigger ∈ fresh, trigger.finish.isSome → new trigger.time

/-- The triggers are carried on as the windows are. -/
theorem carried_on {history : AlertHistory} {once again found stale : List AlertWindow}
    {stops new : Instant → Prop} {ends : Option Instant → Option Instant → Prop}
    (first : once = history.windows) (second : again = history.settled ++ found ++ stale)
    (resumed : AlertWindow.Resumed stops new history.pending found)
    (unended : ∀ window ∈ stale, window.finish = none)
    (ending : ∀ window ∈ history.pending, ∀ finish, stops finish → ends window.finish (some finish))
    (series : Series) (later : List Sample) :
    history.CarriedOn series (series.withWindows once).alerts
      ((series.grown later).withWindows again).alerts ends new where
  once := by rw [series.alerts_withWindows, first]
  again := by
    obtain ⟨first_found, fresh, rfl, goes_on, starts⟩ := resumed.paired
    refine ⟨first_found.map series.trigger, (fresh ++ stale).map series.trigger, ?_, ?_, ?_⟩
    · rw [series.alerts_grown, second]
      simp only [List.map_append, List.append_assoc]
    · rw [List.forall₂_map_left_iff, List.forall₂_map_right_iff]
      have listed := (List.forall₂_and_left _ _).mpr ⟨fun _ => id, goes_on⟩
      refine listed.imp ?_
      rintro before _ ⟨listed, finish, stop, rfl⟩
      exact ⟨⟨rfl, rfl, rfl, rfl⟩, ending before listed finish stop⟩
    · intro trigger listed ended
      obtain ⟨window, member, rfl⟩ := List.mem_map.mp listed
      rcases List.mem_append.mp member with new_window | stale_window
      · exact starts window new_window
      · rw [Series.trigger, unended window stale_window] at ended
        simp at ended

end AlertHistory

/-- An end that is no earlier than the one before. -/
def EndsNoEarlier (before after : Option Instant) : Prop :=
  ∃ finish ∈ before, ∃ last ∈ after, finish ≤ last

namespace ThresholdRule

/-- The triggers of a series with those of the rule. -/
def triggersOn (rule : ThresholdRule) (series : Series) : List Trigger :=
  (series.withWindows (rule.windows series.values)).alerts

def history (rule : ThresholdRule) (samples : List Sample) : AlertHistory where
  settled := (rule.trace samples).2
  pending := rule.lastWindow (rule.trace samples).1 samples.getLast?
  stale := []

/-- A sample closes the open window, opens one where there was none, or leaves things as they are. -/
theorem step_cases (rule : ThresholdRule) (walk : Walk) (sample : Sample) :
    ((rule.step walk sample).1.opened = none ∧
      (rule.step walk sample).2 = walk.opened.map (rule.window · sample.time)) ∨
    (walk.opened = none ∧ (rule.step walk sample).1.opened = some sample ∧
      (rule.step walk sample).2 = none) ∨
    (rule.step walk sample).1.opened = walk.opened ∧ (rule.step walk sample).2 = none := by
  rw [step]
  by_cases breach : rule.breaches sample
  · rw [if_pos breach]
    dsimp only
    split
    next =>
      cases walk.opened with
      | none => exact .inr (.inl ⟨rfl, rfl, rfl⟩)
      | some first => exact .inr (.inr ⟨rfl, rfl⟩)
    next => exact .inr (.inr ⟨rfl, rfl⟩)
  · rw [if_neg breach]
    cases walk.lastBreach with
    | none => exact .inr (.inr ⟨rfl, rfl⟩)
    | some last =>
      dsimp only
      split
      next => exact .inl ⟨rfl, rfl⟩
      next => exact .inr (.inr ⟨rfl, rfl⟩)

/-- Along more samples the open window ends at one of them or where it had to end before, and new windows
start at one of them. Where the pending window has ended does not matter. -/
theorem walkFrom_resumes (rule : ThresholdRule) (cut : Instant) (rest : List Sample) :
    ∀ (walk : Walk) (last : Option Instant), (walk.opened.isSome → last.isSome) →
      AlertWindow.Resumed (fun finish => last = some finish ∨ finish ∈ rest.map (·.time))
        (· ∈ rest.map (·.time)) (walk.opened.map (rule.window · cut)).toList
        (rule.walkFrom walk last rest) := by
  induction rest with
  | nil =>
    intro walk last known
    cases opened : walk.opened with
    | none => simpa [walkFrom, opened] using .shut (by simp)
    | some first =>
      obtain ⟨time, rfl⟩ := Option.isSome_iff_exists.mp (known (by simp [opened]))
      simp only [walkFrom, opened]
      exact .goesOn (.inl rfl) (by simp)
  | cons sample rest ih =>
    intro walk last _
    have ahead : AlertWindow.Resumed
        (fun finish => last = some finish ∨ finish ∈ (sample :: rest).map (·.time))
        (· ∈ (sample :: rest).map (·.time))
        ((rule.step walk sample).1.opened.map (rule.window · cut)).toList
        (rule.walkFrom (rule.step walk sample).1 (some sample.time) rest) := by
      refine (ih (rule.step walk sample).1 (some sample.time) fun _ => rfl).imp ?_ ?_
      · rintro finish (at_once | later)
        · exact .inr (Option.some.inj at_once ▸ List.mem_cons_self)
        · exact .inr (List.mem_cons_of_mem _ later)
      · exact fun start later => List.mem_cons_of_mem _ later
    rw [walkFrom]
    rcases rule.step_cases walk sample with ⟨shut, closed⟩ | ⟨shut, opened, quiet⟩ | ⟨same, quiet⟩
    · rw [shut] at ahead
      simp only [closed]
      cases walk.opened with
      | none => exact ahead
      | some first => exact ahead.closes (.inr List.mem_cons_self)
    · rw [opened] at ahead
      simp only [quiet, shut]
      exact ahead.opens List.mem_cons_self
    · rw [same] at ahead
      simp only [quiet]
      exact ahead

theorem last_of_opened (rule : ThresholdRule) {samples : List Sample}
    (opened : (rule.trace samples).1.opened.isSome) : ∃ last, samples.getLast? = some last := by
  cases samples with
  | nil => simp [trace, Walk.initial] at opened
  | cons sample rest => exact ⟨_, List.getLast?_eq_some_getLast (List.cons_ne_nil sample rest)⟩

theorem mem_lastWindow {rule : ThresholdRule} {walk : Walk} {last : Option Sample} {window : AlertWindow}
    (listed : window ∈ rule.lastWindow walk last) :
    ∃ sample, last = some sample ∧ window.finish = some sample.time := by
  unfold lastWindow at listed
  split at listed
  next first sample _ =>
    obtain rfl := List.mem_singleton.mp listed
    exact ⟨sample, rfl, rfl⟩
  next => exact absurd listed List.not_mem_nil

theorem lastWindow_resumed (rule : ThresholdRule) (samples later : List Sample) :
    AlertWindow.Resumed
      (fun finish => samples.getLast?.map (·.time) = some finish ∨ finish ∈ later.map (·.time))
      (· ∈ later.map (·.time)) (rule.lastWindow (rule.trace samples).1 samples.getLast?)
      (rule.walkFrom (rule.trace samples).1 (samples.getLast?.map (·.time)) later) := by
  cases opened : (rule.trace samples).1.opened with
  | none =>
    have resumed := rule.walkFrom_resumes .epoch later (rule.trace samples).1
      (samples.getLast?.map (·.time)) (by simp [opened])
    simpa [lastWindow, opened] using resumed
  | some first =>
    obtain ⟨last, at_end⟩ := rule.last_of_opened (Option.isSome_of_eq_some opened)
    have resumed := rule.walkFrom_resumes last.time later (rule.trace samples).1
      (samples.getLast?.map (·.time)) (by simp [at_end])
    simpa [lastWindow, opened, at_end] using resumed

theorem windows_eq_history (rule : ThresholdRule) (samples : List Sample) :
    rule.windows samples = (rule.history samples).windows := by
  rw [windows_eq, AlertHistory.windows, history, List.append_nil]

theorem carried_on (rule : ThresholdRule) (series : Series) {later : List Sample}
    (ahead : ∀ sample ∈ series.values, ∀ next ∈ later, sample.time < next.time) :
    (rule.history series.values).CarriedOn series (rule.triggersOn series)
      (rule.triggersOn (series.grown later)) EndsNoEarlier
      (fun start => ∀ sample ∈ series.values, sample.time < start) := by
  have behind : ∀ start ∈ later.map (·.time), ∀ sample ∈ series.values, sample.time < start := by
    intro start starts sample member
    obtain ⟨next, listed, rfl⟩ := List.mem_map.mp starts
    exact ahead sample member next listed
  have resumed := (rule.lastWindow_resumed series.values later).imp (fun _ => id) behind
  have again : rule.windows (series.values ++ later) = (rule.history series.values).settled ++
      rule.walkFrom (rule.trace series.values).1 (series.values.getLast?.map (·.time)) later ++ [] := by
    rw [windows_append, List.append_nil]
    rfl
  refine AlertHistory.carried_on (rule.windows_eq_history series.values) again resumed (by simp) ?_ series
    later
  intro window pending finish stop
  obtain ⟨last, at_end, ended⟩ := mem_lastWindow pending
  refine ⟨last.time, ended, finish, rfl, ?_⟩
  rcases stop with at_once | later_end
  · rw [at_end] at at_once
    exact le_of_eq (Option.some.inj at_once)
  · exact le_of_lt (behind finish later_end last (List.mem_of_getLast? at_end))

end ThresholdRule

namespace AbsenceRule

/-- The open window behind some instants and the windows closed by then. -/
def trace (rule : AbsenceRule) (walk : Option Open) : List Instant → Option Open × List AlertWindow
  | a :: b :: rest =>
    let (walk, closed) := rule.step walk a b
    let (final, later) := rule.trace walk (b :: rest)
    (final, closed.toList ++ later)
  | _ => (walk, [])

theorem walkFrom_cons_cons (rule : AbsenceRule) (now : Instant) (walk : Option Open) (a b : Instant)
    (rest : List Instant) : rule.walkFrom now walk (a :: b :: rest) =
      (rule.step walk a b).2.toList ++ rule.walkFrom now (rule.step walk a b).1 (b :: rest) :=
  rfl

/-- The windows closed behind some instants come first, whatever follows. -/
theorem walkFrom_append (rule : AbsenceRule) (now : Instant) (seen rest : List Instant) :
    ∀ walk : Option Open, rule.walkFrom now walk (seen ++ rest) =
      (rule.trace walk seen).2 ++
        rule.walkFrom now (rule.trace walk seen).1 (seen.getLast?.toList ++ rest) := by
  induction seen with
  | nil => exact fun _ => rfl
  | cons a seen ih =>
    intro walk
    cases seen with
    | nil => rfl
    | cons b seen =>
      calc
        rule.walkFrom now walk (a :: b :: (seen ++ rest))
        _ = (rule.step walk a b).2.toList ++
              rule.walkFrom now (rule.step walk a b).1 (b :: seen ++ rest) :=
            rule.walkFrom_cons_cons ..
        _ = (rule.trace walk (a :: b :: seen)).2 ++
              rule.walkFrom now (rule.trace walk (a :: b :: seen)).1
                ((a :: b :: seen).getLast?.toList ++ rest) := by
            rw [ih, ← List.append_assoc, List.getLast?_cons_cons]
            rfl

/-- The triggers of a series with those of the rule. -/
def triggersOn (rule : AbsenceRule) (now : Instant) (series : Series) : List Trigger :=
  (series.withWindows (rule.windows now series.values)).alerts

def history (rule : AbsenceRule) (now : Instant) (samples : List Sample) : AlertHistory :=
  let times := samples.map (·.time)
  { settled := (rule.trace none times).2
    pending := (rule.trace none times).1.toList.map fun current => rule.window current.start now
    stale := (times.getLast?.bind (rule.stale? now)).toList }

theorem windows_eq_walk (rule : AbsenceRule) (now : Instant) (samples : List Sample) :
    rule.windows now samples = rule.walkFrom now none (samples.map (·.time)) ++
      ((samples.map (·.time)).getLast?.bind (rule.stale? now)).toList := by
  rw [windows]
  cases samples.map (·.time) with
  | nil => rfl
  | cons first rest => rw [List.getLast?_eq_some_getLast (List.cons_ne_nil first rest), Option.bind_some]

theorem windows_eq_history (rule : AbsenceRule) (now : Instant) (samples : List Sample) :
    rule.windows now samples = (rule.history now samples).windows := by
  have whole := rule.walkFrom_append now (samples.map (·.time)) [] none
  rw [List.append_nil, List.append_nil] at whole
  have pending : ∀ (walk : Option Open) (last : Option Instant), rule.walkFrom now walk last.toList =
      walk.toList.map fun current => rule.window current.start now := by
    intro walk last
    cases last <;> rfl
  rw [windows_eq_walk, whole, pending]
  rfl

theorem step_none (rule : AbsenceRule) (a b : Instant) :
    rule.step none a b = (none, none) ∨
      ∃ start, rule.gapStart? a b = some start ∧ rule.step none a b = (some ⟨start, b⟩, none) := by
  cases gap : rule.gapStart? a b with
  | none => exact .inl (by simp [step, gap])
  | some start => exact .inr ⟨start, rfl, by simp [step, gap]⟩

/-- An open window goes on from its start unless it is closed. -/
theorem step_some (rule : AbsenceRule) (current : Open) (a b : Instant) :
    rule.step (some current) a b = (none, some (rule.window current.start current.lastGap)) ∨
      ∃ lastGap, rule.step (some current) a b = (some ⟨current.start, lastGap⟩, none) := by
  cases gap : rule.gapStart? a b with
  | some start => exact .inr ⟨b, by simp [step, gap]⟩
  | none =>
    by_cases far : rule.recovery < b.since current.lastGap
    · exact .inl (by simp [step, gap, far])
    · exact .inr ⟨current.lastGap, by simp [step, gap, far]⟩

/-- A gap up to an instant of `later` starts a window. -/
def OpenedInto (rule : AbsenceRule) (times later : List Instant) (start : Instant) : Prop :=
  ∃ a b, rule.Gap times a b start ∧ b ∈ later

theorem OpenedInto.of_infix {rule : AbsenceRule} {times whole later rest : List Instant} {start : Instant}
    (opened : rule.OpenedInto times later start) (part : times <:+: whole) (sub : later ⊆ rest) :
    rule.OpenedInto whole rest start := by
  obtain ⟨a, b, gap, member⟩ := opened
  exact ⟨a, b, ⟨gap.neighbours.trans part, gap.dwelt, gap.late⟩, sub member⟩

/-- Along more instants the open window gets some end, and gaps between them open the new ones. -/
theorem walkFrom_resumes (rule : AbsenceRule) (now : Instant) (walk : Option Open) (times : List Instant) :
    AlertWindow.Resumed (fun _ => True) (rule.OpenedInto times times.tail)
      (walk.toList.map fun current => rule.window current.start now) (rule.walkFrom now walk times) := by
  fun_induction rule.walkFrom now walk times with
  | case1 walk a b rest after closed step ih =>
    have reaches : ∀ start, rule.OpenedInto (b :: rest) rest start →
        rule.OpenedInto (a :: b :: rest) (b :: rest) start := fun _ opened =>
      opened.of_infix (List.infix_cons List.infix_rfl) (List.subset_cons_self b rest)
    have ahead := ih.imp (fun _ => id) reaches
    cases walk with
    | none =>
      rcases rule.step_none a b with quiet | ⟨start, gap, opens⟩
      · obtain ⟨rfl, rfl⟩ := Prod.mk.inj (quiet.symm.trans step)
        exact ahead
      · obtain ⟨rfl, rfl⟩ := Prod.mk.inj (opens.symm.trans step)
        obtain ⟨dwelt, late⟩ := gapStart?_eq_some.mp gap
        exact ahead.opens ⟨a, b, ⟨⟨[], rest, rfl⟩, dwelt, late⟩, List.mem_cons_self⟩
    | some current =>
      rcases rule.step_some current a b with closes | ⟨lastGap, goes_on⟩
      · obtain ⟨rfl, rfl⟩ := Prod.mk.inj (closes.symm.trans step)
        exact ahead.closes trivial
      · obtain ⟨rfl, rfl⟩ := Prod.mk.inj (goes_on.symm.trans step)
        exact ahead
  | case2 times walk short =>
    cases walk with
    | none => exact .shut (by simp)
    | some current => exact .goesOn trivial (by simp)

/-- Pairs of neighbours from the last instant seen on are pairs of all that reach beyond it. -/
theorem reaching_on (seen rest : List Instant) :
    seen.getLast?.toList ++ rest <:+: seen ++ rest ∧ (seen.getLast?.toList ++ rest).tail ⊆ rest := by
  rcases List.eq_nil_or_concat' seen with rfl | ⟨front, last, rfl⟩
  · exact ⟨List.infix_rfl, (List.tail_sublist _).subset⟩
  · rw [List.getLast?_concat]
    exact ⟨⟨front, [], by simp⟩, List.Subset.refl _⟩

theorem stale?_unended {rule : AbsenceRule} {now last : Instant} {window : AlertWindow}
    (found : rule.stale? now last = some window) : window.finish = none := by
  have ended : [last].getLast? = some last := rfl
  obtain ⟨start, _, rfl⟩ := (stale?_eq_some ended).mp found
  rfl

theorem carried_on (rule : AbsenceRule) (now : Instant) (series : Series) (later : List Sample) :
    (rule.history now series.values).CarriedOn series (rule.triggersOn now series)
      (rule.triggersOn now (series.grown later)) (fun _ after => after.isSome)
      (rule.OpenedInto ((series.grown later).values.map (·.time)) (later.map (·.time))) := by
  have again : rule.windows now (series.values ++ later) = (rule.history now series.values).settled ++
      rule.walkFrom now (rule.trace none (series.values.map (·.time))).1
        ((series.values.map (·.time)).getLast?.toList ++ later.map (·.time)) ++
      (((series.values ++ later).map (·.time)).getLast?.bind (rule.stale? now)).toList := by
    rw [windows_eq_walk, List.map_append, walkFrom_append]
    rfl
  obtain ⟨part, ahead⟩ := reaching_on (series.values.map (·.time)) (later.map (·.time))
  have resumed := (rule.walkFrom_resumes now (rule.trace none (series.values.map (·.time))).1 _).imp
    (fun _ => id) fun start opened => opened.of_infix part ahead
  rw [← List.map_append] at resumed
  refine AlertHistory.carried_on (rule.windows_eq_history now series.values) again resumed ?_ ?_ series
    later
  · intro window stale
    obtain ⟨last, _, found⟩ := Option.bind_eq_some_iff.mp (Option.mem_toList.mp stale)
    exact stale?_unended found
  · intro window _ finish _
    rfl

end AbsenceRule

/-- What a sample has closed stays in the history of the alerts when a series grows: its triggers come first
and are the same. A trigger that was still open keeps its place, and all but its end; that of a threshold
ends no earlier. Any other trigger with an end is new: behind the old samples for a threshold, and opened by
a gap up to a new sample for missing data. -/
theorem closed_triggers_stay (series : Series) {later : List Sample}
    (ahead : ∀ sample ∈ series.values, ∀ next ∈ later, sample.time < next.time) :
    (∀ rule : ThresholdRule, (rule.history series.values).CarriedOn series
      (rule.triggersOn series) (rule.triggersOn (series.grown later))
      EndsNoEarlier (fun start => ∀ sample ∈ series.values, sample.time < start)) ∧
    (∀ (rule : AbsenceRule) (now : Instant), (rule.history now series.values).CarriedOn series
      (rule.triggersOn now series) (rule.triggersOn now (series.grown later))
      (fun _ after => after.isSome)
      (rule.OpenedInto ((series.grown later).values.map (·.time)) (later.map (·.time)))) :=
  ⟨fun rule => rule.carried_on series ahead, fun rule now => rule.carried_on now series later⟩

def loadAt (samples : List (Int × Int)) : List Sample :=
  samples.filterMap fun (second, value) =>
    (Instant.make? second 0).map (⟨·, .number (.ofInt value)⟩)

/-- Three times above two, with two outages between them. -/
def unsteadyLoad : Series :=
  { Series.named "load" with
    values := loadAt [(0, 3), (1, 1), (5, 3), (6, 1), (7, 1), (12, 3), (13, 3)] }

/-- The load goes down, and up again before a third outage. -/
def laterLoad : List Sample := loadAt [(14, 1), (16, 3), (30, 1)]

def aboveTwoAtOnce : ThresholdRule := ⟨.ofInt 2, .greater, .zero, .zero⟩

theorem unsteadyLoad_carried_on :
    (∀ sample ∈ unsteadyLoad.values, ∀ next ∈ laterLoad, sample.time < next.time) ∧
    (aboveTwoAtOnce.history unsteadyLoad.values).CarriedOn unsteadyLoad
      (aboveTwoAtOnce.triggersOn unsteadyLoad)
      (aboveTwoAtOnce.triggersOn (unsteadyLoad.grown laterLoad))
      EndsNoEarlier (fun start => ∀ sample ∈ unsteadyLoad.values, sample.time < start) ∧
    (AbsenceRule.twoSeconds.history AbsenceRule.afterOutages unsteadyLoad.values).CarriedOn unsteadyLoad
      (AbsenceRule.twoSeconds.triggersOn AbsenceRule.afterOutages unsteadyLoad)
      (AbsenceRule.twoSeconds.triggersOn AbsenceRule.afterOutages (unsteadyLoad.grown laterLoad))
      (fun _ after => after.isSome)
      (AbsenceRule.twoSeconds.OpenedInto ((unsteadyLoad.grown laterLoad).values.map (·.time))
        (laterLoad.map (·.time))) := by
  have ahead : ∀ sample ∈ unsteadyLoad.values, ∀ next ∈ laterLoad, sample.time < next.time := by decide
  obtain ⟨thresholds, absences⟩ := closed_triggers_stay unsteadyLoad ahead
  exact ⟨ahead, thresholds aboveTwoAtOnce, absences AbsenceRule.twoSeconds AbsenceRule.afterOutages⟩

example : (aboveTwoAtOnce.triggersOn (unsteadyLoad.grown laterLoad)).map (fun trigger =>
    (trigger.time.second, trigger.finish.map (·.second))) =
      [(0, some 1), (5, some 6), (12, some 14), (16, some 30)] := by decide

/-- Only the later samples show that the second outage has healed, and that data came again after it. -/
example : [unsteadyLoad, unsteadyLoad.grown laterLoad].map (fun series =>
    (AbsenceRule.twoSeconds.triggersOn AbsenceRule.afterOutages series).map fun trigger =>
      (trigger.time.second, trigger.finish.map (·.second))) =
    [[(3, some 5), (9, some 1000), (15, none)],
      [(3, some 5), (9, some 12), (18, some 1000), (32, none)]] := by decide

end MetricEngine
