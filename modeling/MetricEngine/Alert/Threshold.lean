import MetricEngine.Alert.Comparison
import MetricEngine.Alert.Window
import MetricEngine.Config.Defaults
import MetricEngine.Program.Arguments

/-!
The threshold alert. A window opens at the first sample that ends a run of breaches as long as the
dwell period. It closes at a sample that does not breach and comes more than the recovery period
after the last breach that had dwelt, or at the last sample of the series.
-/
namespace MetricEngine

structure ThresholdRule where
  threshold : Binary64
  comparison : Comparison
  recovery : Span
  dwell : Span

namespace ThresholdRule
open ArgumentReader

def read (defaults : PlanDefaults) : ArgumentReader ThresholdRule := do
  let threshold ← requiredNumber "threshold"
  if !threshold.isFinite then refuse "threshold" .notFinite
  let name ← requiredString "operator"
  match Comparison.ofName? name with
  | none => refuse "operator" (.unknownComparison name)
  | some comparison =>
    let recovery := (← period? "recovery_period").getD defaults.recovery
    let dwell := (← period? "dwell_period").getD defaults.thresholdDwell
    return ⟨threshold, comparison, recovery, dwell⟩

def breaches (rule : ThresholdRule) (sample : Sample) : Bool :=
  match sample.number? with
  | some x => rule.comparison.holds x rule.threshold
  | none => false

def message (rule : ThresholdRule) (sample : Sample) : String :=
  "value of " ++ sample.value.display ++ " at " ++ Rfc3339.render .numeric sample.time ++ " was " ++
    rule.comparison.describe ++ " threshold of " ++ rule.threshold.display

/-- Where a walk over the samples stands. -/
structure Walk where
  /-- The sample at which the open window starts. -/
  opened : Option Sample
  /-- The start of the current run of breaches. -/
  runStart : Option Instant
  /-- The last breach that had dwelt, until the alert recovers from it. -/
  lastBreach : Option Instant

def Walk.initial : Walk := ⟨none, none, none⟩

def window (rule : ThresholdRule) (opened : Sample) (finish : Instant) : AlertWindow :=
  ⟨opened.time, some finish, rule.message opened⟩

/-- Takes in one sample, which may close a window. -/
def step (rule : ThresholdRule) (walk : Walk) (sample : Sample) : Walk × Option AlertWindow :=
  if rule.breaches sample then
    let runStart := walk.runStart.getD sample.time
    if rule.dwell ≤ sample.time.since runStart then
      (⟨walk.opened.or (some sample), some runStart, some sample.time⟩, none)
    else ({ walk with runStart := some runStart }, none)
  else
    match walk.lastBreach with
    | some last =>
      if rule.recovery < sample.time.since last then
        (⟨none, none, none⟩, walk.opened.map fun opened => rule.window opened sample.time)
      else ({ walk with runStart := none }, none)
    | none => ({ walk with runStart := none }, none)

/-- The windows from some point of a walk on; `last` is the latest instant seen so far. -/
def walkFrom (rule : ThresholdRule) (walk : Walk) (last : Option Instant) :
    List Sample → List AlertWindow
  | [] =>
    match walk.opened, last with
    | some opened, some last => [rule.window opened last]
    | _, _ => []
  | sample :: rest =>
    let (walk, closed) := rule.step walk sample
    closed.toList ++ rule.walkFrom walk (some sample.time) rest

def windows (rule : ThresholdRule) (samples : List Sample) : List AlertWindow :=
  rule.walkFrom .initial none samples

end ThresholdRule
end MetricEngine
