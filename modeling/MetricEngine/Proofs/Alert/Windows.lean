import MetricEngine.Alert.Window
import MetricEngine.Proofs.Time.Order

/-!
How the windows of an alert lie to instants and to each other.
-/
namespace MetricEngine

/-- Two dwell periods can be compared on some instants: they are the same one, or the spans between these
instants grow with the distance. -/
def DwellsComparable (short long : Span) (times : List Instant) : Prop :=
  short = long ∨ Instant.Steady times

theorem dwellsComparable_of_regular {times : List Instant} (regular : ∀ t ∈ times, t.isLeap = false)
    (short long : Span) : DwellsComparable short long times :=
  .inr (Instant.steady_of_regular regular)

namespace AlertWindow

/-- Whether an instant lies in a window that has ended. -/
def Contains (window : AlertWindow) (time : Instant) : Prop :=
  window.start ≤ time ∧ ∃ finish, window.finish = some finish ∧ time ≤ finish

/-- A window ends before another one starts. -/
def Before (earlier later : AlertWindow) : Prop :=
  ∃ finish, earlier.finish = some finish ∧ finish < later.start

/-- A window lies in another one. One without an end has no bound. -/
def Within (inner outer : AlertWindow) : Prop :=
  outer.start ≤ inner.start ∧
    ∀ last, outer.finish = some last → ∃ finish, inner.finish = some finish ∧ finish ≤ last

instance (inner outer : AlertWindow) : Decidable (inner.Within outer) :=
  inferInstanceAs (Decidable (outer.start ≤ inner.start ∧
    ∀ last ∈ outer.finish, ∃ finish ∈ inner.finish, finish ≤ last))

/-- No instant lies in two windows of an ordered list. -/
theorem contains_unique {windows : List AlertWindow} (ordered : windows.Pairwise Before)
    {a b : AlertWindow} {time : Instant} (first : a ∈ windows) (second : b ∈ windows)
    (in_first : a.Contains time) (in_second : b.Contains time) : a = b := by
  have apart : ∀ {earlier later : AlertWindow}, earlier.Before later → earlier.Contains time →
      ¬later.Contains time := by
    rintro earlier later ⟨finish, ended, gap⟩ ⟨_, other, same, before⟩ ⟨after, _⟩
    obtain rfl := Option.some.inj (ended.symm.trans same)
    exact absurd (lt_of_le_of_lt before gap) (not_lt_of_ge after)
  induction ordered with
  | nil => simp at first
  | cons head _ ih =>
    rcases List.mem_cons.mp first with rfl | a_behind
    · rcases List.mem_cons.mp second with rfl | b_behind
      · rfl
      · exact absurd in_second (apart (head b b_behind) in_first)
    · rcases List.mem_cons.mp second with rfl | b_behind
      · exact absurd in_first (apart (head a a_behind) in_second)
      · exact ih a_behind b_behind

end AlertWindow
end MetricEngine
