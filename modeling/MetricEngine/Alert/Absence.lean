import MetricEngine.Alert.Window
import MetricEngine.Config.Defaults
import MetricEngine.Program.Arguments

/-!
The alert on missing data. Two neighbouring samples more than the dwell period apart have a gap
between them, which starts when that period is over. A window spans gaps until samples come
regularly for longer than the recovery period; it then ends with its last gap, and otherwise at the
instant of the evaluation. A series whose last sample is too old gets a window without an end.
-/
namespace MetricEngine

structure AbsenceRule where
  dwell : Span
  recovery : Span
  freshness : Span

namespace AbsenceRule
open ArgumentReader

/-- A minute of dwell, no recovery and two minutes of freshness. -/
def standard : AbsenceRule := ⟨.ofMillis 60000, .zero, .ofMillis 120000⟩

def read (defaults : PlanDefaults) : ArgumentReader AbsenceRule := do
  let dwell := (← period? "dwell_period").getD defaults.absenceDwell
  if dwell ≤ .zero then refuse "dwell_period" .notPositive
  let recovery := (← period? "recovery_period").getD defaults.recovery
  return ⟨dwell, recovery, defaults.freshness⟩

def message (rule : AbsenceRule) : String :=
  "Missing data for at least " ++ toString rule.dwell.minutes ++ " minutes."

/-- The start of the gap between two neighbouring instants, if there is one. -/
def gapStart? (rule : AbsenceRule) (a b : Instant) : Option Instant :=
  (a.add? rule.dwell).filter (· < b)

/-- An open window and the end of its last gap. -/
structure Open where
  start : Instant
  lastGap : Instant

def window (rule : AbsenceRule) (start finish : Instant) : AlertWindow :=
  ⟨start, some finish, rule.message⟩

/-- Takes in two neighbouring instants, which may close the open window. -/
def step (rule : AbsenceRule) (walk : Option Open) (a b : Instant) :
    Option Open × Option AlertWindow :=
  match rule.gapStart? a b, walk with
  | some start, none => (some ⟨start, b⟩, none)
  | some _, some current => (some { current with lastGap := b }, none)
  | none, none => (none, none)
  | none, some current =>
    if rule.recovery < b.since current.lastGap then
      (none, some (rule.window current.start current.lastGap))
    else (some current, none)

/-- The windows with an end, from some point of a walk on. -/
def walkFrom (rule : AbsenceRule) (now : Instant) (walk : Option Open) :
    List Instant → List AlertWindow
  | a :: b :: rest =>
    let (walk, closed) := rule.step walk a b
    closed.toList ++ rule.walkFrom now walk (b :: rest)
  | _ => walk.toList.map fun current => rule.window current.start now

/-- The window without an end of a series whose last sample is too old. -/
def stale? (rule : AbsenceRule) (now last : Instant) : Option AlertWindow := do
  let start ← last.add? rule.dwell
  let freshAfter ← now.sub? rule.freshness
  if start < freshAfter then return ⟨start, none, rule.message⟩ else none

def windows (rule : AbsenceRule) (now : Instant) (samples : List Sample) : List AlertWindow :=
  let times := samples.map (·.time)
  match times.getLast? with
  | none => []
  | some last => rule.walkFrom now none times ++ (rule.stale? now last).toList

end AbsenceRule
end MetricEngine
