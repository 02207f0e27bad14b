import Mathlib.Data.List.DropRight
import Mathlib.Data.List.Induction
import MetricEngine.Alert.Threshold
import MetricEngine.Proofs.Alert.Windows
import MetricEngine.Proofs.ListFacts

/-!
The windows of a threshold alert, stated without the walk that finds them: from the first breach that
has dwelt to the first sample that has recovered from the latest such breach. `Tracks` ties the state of
the walk to the samples that it has seen.
-/
namespace MetricEngine.ThresholdRule
open ListFacts

/-- The uninterrupted run of breaches at the end of some samples. -/
def finalRun (rule : ThresholdRule) (samples : List Sample) : List Sample :=
  samples.rtakeWhile rule.breaches

/-- A sample breaches, and the run of breaches that it ends started at least the dwell period earlier, by
the span that the program finds between the two instants. -/
def Sustains (rule : ThresholdRule) (before : List Sample) (sample : Sample) : Prop :=
  rule.breaches sample ∧ ∃ first, (rule.finalRun (before ++ [sample])).head? = some first ∧
    rule.dwell ≤ sample.time.since first.time

def Sustained (rule : ThresholdRule) : List Sample → Sample → Prop :=
  SomeAfter rule.Sustains

/-- A sample does not breach and comes more than the recovery period after the latest sustained sample
before it. -/
def Recovers (rule : ThresholdRule) (before : List Sample) (sample : Sample) : Prop :=
  ¬rule.breaches sample ∧ ∃ last, rule.Sustained before last ∧
    (∀ other, rule.Sustained before other → other.time ≤ last.time) ∧
    rule.recovery < sample.time.since last.time

def Recovered (rule : ThresholdRule) : List Sample → Sample → Prop :=
  SomeAfter rule.Recovers

/-- The first recovery after some instant. -/
def FirstRecovery (rule : ThresholdRule) (samples : List Sample) (start finish : Instant) : Prop :=
  ∃ sample, rule.Recovered samples sample ∧ start < sample.time ∧ sample.time = finish ∧
    ∀ other, rule.Recovered samples other → start < other.time → finish ≤ other.time

/-- Where a window ends: at the first recovery after its start, or at the last sample if there is none. -/
def EndsAt (rule : ThresholdRule) (samples : List Sample) (start finish : Instant) : Prop :=
  rule.FirstRecovery samples start finish ∨
    (∀ sample, rule.Recovered samples sample → ¬start < sample.time) ∧
      ∃ last, samples.getLast? = some last ∧ last.time = finish

structure ExactWindows (rule : ThresholdRule) (samples : List Sample) (windows : List AlertWindow) :
    Prop where
  starts : ∀ window ∈ windows, ∃ sample, rule.Sustained samples sample ∧
    window.start = sample.time ∧ window.message = rule.message sample
  covers : ∀ sample, rule.Sustained samples sample →
    ∃! window, window ∈ windows ∧ window.Contains sample.time
  ends : ∀ window ∈ windows, ∃ finish, window.finish = some finish ∧
    rule.EndsAt samples window.start finish
  ordered : windows.Pairwise AlertWindow.Before

variable {rule : ThresholdRule} {history : List Sample} {sample : Sample}

/-! Samples that breach or not, behind those seen before. -/

theorem finalRun_breach (breach : rule.breaches sample) :
    rule.finalRun (history ++ [sample]) = rule.finalRun history ++ [sample] :=
  List.rtakeWhile_concat_pos _ _ _ breach

theorem finalRun_calm (calm : ¬rule.breaches sample) : rule.finalRun (history ++ [sample]) = [] :=
  List.rtakeWhile_concat_neg _ _ _ calm

theorem sustained_calm (calm : ¬rule.breaches sample) {other : Sample} :
    rule.Sustained (history ++ [sample]) other ↔ rule.Sustained history other :=
  SomeAfter.concat_of_not fun sustains => calm sustains.1

theorem not_recovers_breach (breach : rule.breaches sample) : ¬rule.Recovers history sample :=
  fun recovers => recovers.1 breach

theorem le_concat (later : ∀ other ∈ history, other.time < sample.time) {other : Sample}
    (member : other ∈ history ++ [sample]) : other.time ≤ sample.time := by
  rcases List.mem_append.mp member with before | last
  · exact le_of_lt (later other before)
  · exact le_of_eq (congrArg _ (List.mem_singleton.mp last))

/-- Samples that come later do not change which recovery was the first one. -/
theorem FirstRecovery.concat (later : ∀ other ∈ history, other.time < sample.time)
    {start finish : Instant} (first : rule.FirstRecovery history start finish) :
    rule.FirstRecovery (history ++ [sample]) start finish := by
  obtain ⟨recovery, recovered, after, rfl, least⟩ := first
  refine ⟨recovery, SomeAfter.concat_iff.mpr (.inl recovered), after, rfl, ?_⟩
  intro other found behind
  rcases SomeAfter.concat_iff.mp found with before | ⟨rfl, _⟩
  · exact least other before behind
  · exact le_of_lt (later recovery recovered.mem)

/-! The walk over a history. -/

/-- The state of the walk behind some samples and the windows closed by then. -/
def trace (rule : ThresholdRule) (history : List Sample) : Walk × List AlertWindow :=
  history.foldl
    (fun (walk, closed) sample =>
      ((rule.step walk sample).1, closed ++ (rule.step walk sample).2.toList))
    (.initial, [])

theorem trace_concat (rule : ThresholdRule) (history : List Sample) (sample : Sample) :
    rule.trace (history ++ [sample]) =
      ((rule.step (rule.trace history).1 sample).1,
        (rule.trace history).2 ++ (rule.step (rule.trace history).1 sample).2.toList) := by
  rw [trace, List.foldl_append]
  rfl

/-- The windows closed behind some samples come first, whatever follows. -/
theorem windows_append (rule : ThresholdRule) (seen rest : List Sample) :
    rule.windows (seen ++ rest) =
      (rule.trace seen).2 ++ rule.walkFrom (rule.trace seen).1 (seen.getLast?.map (·.time)) rest := by
  induction seen using List.reverseRecOn generalizing rest with
  | nil => rfl
  | append_singleton seen sample ih =>
    rw [List.append_assoc, List.singleton_append, ih, trace_concat, List.getLast?_concat,
      Option.map_some, walkFrom, List.append_assoc]

/-- The window that is still open at the end, ended by the last sample. -/
def lastWindow (rule : ThresholdRule) (walk : Walk) (last : Option Sample) : List AlertWindow :=
  match walk.opened, last with
  | some opened, some last => [rule.window opened last.time]
  | _, _ => []

theorem windows_eq (rule : ThresholdRule) (samples : List Sample) :
    rule.windows samples =
      (rule.trace samples).2 ++ rule.lastWindow (rule.trace samples).1 samples.getLast? := by
  have whole := rule.windows_append samples []
  rw [List.append_nil] at whole
  rw [whole]
  congr 1
  unfold walkFrom lastWindow
  cases (rule.trace samples).1.opened <;> cases samples.getLast? <;> rfl

/-- What the state of the walk and the closed windows say about the samples seen so far. -/
structure Tracks (rule : ThresholdRule) (history : List Sample) (walk : Walk)
    (closed : List AlertWindow) : Prop where
  run : walk.runStart = (rule.finalRun history).head?.map (·.time)
  open_iff : walk.opened.isSome ↔ walk.lastBreach.isSome
  latest : ∀ time, walk.lastBreach = some time → ∃ last, rule.Sustained history last ∧
    last.time = time ∧ ∀ other, rule.Sustained history other → other.time ≤ time
  /-- Nothing has recovered since the open window started, which was after all closed ones. -/
  opened : ∀ first, walk.opened = some first → rule.Sustained history first ∧
    (∀ other, rule.Recovered history other → ¬first.time < other.time) ∧
    ∀ window ∈ closed, ∃ finish, window.finish = some finish ∧ finish < first.time
  covers : ∀ other, rule.Sustained history other →
    (∃ window ∈ closed, window.Contains other.time) ∨
      ∃ first, walk.opened = some first ∧ first.time ≤ other.time
  starts : ∀ window ∈ closed, ∃ first, rule.Sustained history first ∧
    window.start = first.time ∧ window.message = rule.message first
  ends : ∀ window ∈ closed, ∃ finish, window.finish = some finish ∧
    rule.FirstRecovery history window.start finish
  ordered : closed.Pairwise AlertWindow.Before

namespace Tracks
variable {walk : Walk} {closed : List AlertWindow}

theorem initial : rule.Tracks [] .initial [] where
  run := rfl
  open_iff := by simp [Walk.initial]
  latest := by simp [Walk.initial]
  opened := by simp [Walk.initial]
  covers _ found := absurd found SomeAfter.nil
  starts := by simp
  ends := by simp
  ordered := .nil

/-- While a window is open, the walk knows whether a sample recovers. -/
theorem recovers_iff (tracks : rule.Tracks history walk closed) {time : Instant}
    (known : walk.lastBreach = some time) :
    rule.Recovers history sample ↔
      ¬rule.breaches sample ∧ rule.recovery < sample.time.since time := by
  obtain ⟨last, sustained, rfl, greatest⟩ := tracks.latest time known
  constructor
  · rintro ⟨calm, other, found, above, recovered⟩
    have same : other.time = last.time := le_antisymm (greatest other found) (above last sustained)
    exact ⟨calm, same ▸ recovered⟩
  · rintro ⟨calm, recovered⟩
    exact ⟨calm, last, sustained, greatest, recovered⟩

theorem closed_before (tracks : rule.Tracks history walk closed)
    (later : ∀ other ∈ history, other.time < sample.time) :
    ∀ window ∈ closed, ∃ finish, window.finish = some finish ∧ finish < sample.time := by
  intro window member
  obtain ⟨finish, ended, recovery, recovered, _, rfl, _⟩ := tracks.ends window member
  exact ⟨_, ended, later recovery recovered.mem⟩

theorem starts_concat (tracks : rule.Tracks history walk closed) :
    ∀ window ∈ closed, ∃ first, rule.Sustained (history ++ [sample]) first ∧
      window.start = first.time ∧ window.message = rule.message first := by
  intro window member
  obtain ⟨first, sustained, start⟩ := tracks.starts window member
  exact ⟨first, SomeAfter.concat_iff.mpr (.inl sustained), start⟩

theorem ends_concat (tracks : rule.Tracks history walk closed)
    (later : ∀ other ∈ history, other.time < sample.time) :
    ∀ window ∈ closed, ∃ finish, window.finish = some finish ∧
      rule.FirstRecovery (history ++ [sample]) window.start finish := by
  intro window member
  obtain ⟨finish, ended, first⟩ := tracks.ends window member
  exact ⟨finish, ended, first.concat later⟩

/-- The start of the run that a breach ends, as the walk finds it. -/
theorem run_breach (tracks : rule.Tracks history walk closed) (breach : rule.breaches sample) :
    ∃ first, (rule.finalRun (history ++ [sample])).head? = some first ∧
      walk.runStart.getD sample.time = first.time := by
  rw [finalRun_breach breach, tracks.run]
  cases rule.finalRun history with
  | nil => exact ⟨sample, rfl, rfl⟩
  | cons first run => exact ⟨first, rfl, rfl⟩

/-- A sustained sample starts the open window unless it started before, and nothing has recovered. -/
theorem opened_sustain (tracks : rule.Tracks history walk closed)
    (later : ∀ other ∈ history, other.time < sample.time) (sustains : rule.Sustains history sample)
    {first : Sample} (opened : walk.opened.or (some sample) = some first) :
    rule.Sustained (history ++ [sample]) first ∧
      (∀ other, rule.Recovered (history ++ [sample]) other → ¬first.time < other.time) ∧
      ∀ window ∈ closed, ∃ finish, window.finish = some finish ∧ finish < first.time := by
  cases before : walk.opened with
  | none =>
    obtain rfl : sample = first := by simpa [before] using opened
    exact ⟨SomeAfter.concat_iff.mpr (.inr ⟨rfl, sustains⟩),
      fun other found => not_lt_of_ge (le_concat later found.mem), tracks.closed_before later⟩
  | some start =>
    obtain rfl : start = first := by simpa [before] using opened
    obtain ⟨sustained, quiet, apart⟩ := tracks.opened start before
    refine ⟨SomeAfter.concat_iff.mpr (.inl sustained), fun other found => ?_, apart⟩
    exact quiet other ((SomeAfter.concat_of_not (not_recovers_breach sustains.1)).mp found)

theorem covers_sustain (tracks : rule.Tracks history walk closed)
    (later : ∀ other ∈ history, other.time < sample.time) {other : Sample}
    (found : rule.Sustained (history ++ [sample]) other) :
    (∃ window ∈ closed, window.Contains other.time) ∨
      ∃ first, walk.opened.or (some sample) = some first ∧ first.time ≤ other.time := by
  rcases SomeAfter.concat_iff.mp found with earlier | ⟨rfl, _⟩
  · rcases tracks.covers other earlier with inside | ⟨start, opened, starts⟩
    · exact .inl inside
    · exact .inr ⟨start, by rw [opened, Option.some_or], starts⟩
  · right
    cases before : walk.opened with
    | none => exact ⟨other, rfl, le_refl _⟩
    | some start => exact ⟨start, rfl, le_of_lt (later start (tracks.opened start before).1.mem)⟩

/-- A breach that has dwelt opens a window unless one is open. -/
theorem sustain (tracks : rule.Tracks history walk closed)
    (later : ∀ other ∈ history, other.time < sample.time) (breach : rule.breaches sample)
    (dwelt : rule.dwell ≤ sample.time.since (walk.runStart.getD sample.time)) :
    rule.Tracks (history ++ [sample])
      ⟨walk.opened.or (some sample), some (walk.runStart.getD sample.time), some sample.time⟩
      closed := by
  obtain ⟨first, found, same⟩ := tracks.run_breach breach
  have sustains : rule.Sustains history sample := ⟨breach, first, found, same ▸ dwelt⟩
  refine ⟨?_, ?_, ?_, fun first => tracks.opened_sustain later sustains,
    fun other => tracks.covers_sustain later, tracks.starts_concat, tracks.ends_concat later,
    tracks.ordered⟩
  · rw [found, same, Option.map_some]
  · cases walk.opened <;> simp
  · intro time known
    obtain rfl := Option.some.inj known
    exact ⟨sample, SomeAfter.concat_iff.mpr (.inr ⟨rfl, sustains⟩), rfl,
      fun other found => le_concat later found.mem⟩

/-- A sample that neither sustains nor recovers changes the run of breaches only. -/
theorem skip (tracks : rule.Tracks history walk closed)
    (later : ∀ other ∈ history, other.time < sample.time) {runStart : Option Instant}
    (run : runStart = (rule.finalRun (history ++ [sample])).head?.map (·.time))
    (short : ¬rule.Sustains history sample)
    (stays : walk.opened.isSome → ¬rule.Recovers history sample) :
    rule.Tracks (history ++ [sample]) { walk with runStart } closed := by
  have sustained : ∀ other, rule.Sustained (history ++ [sample]) other ↔
      rule.Sustained history other := fun _ => SomeAfter.concat_of_not short
  refine ⟨run, tracks.open_iff, ?_, ?_, ?_, tracks.starts_concat, tracks.ends_concat later,
    tracks.ordered⟩
  · simpa only [sustained] using tracks.latest
  · intro start opened
    obtain ⟨found, quiet, apart⟩ := tracks.opened start opened
    have stays := stays (by rw [show walk.opened = some start from opened]; rfl)
    exact ⟨(sustained start).mpr found,
      fun other found => quiet other ((SomeAfter.concat_of_not stays).mp found), apart⟩
  · simpa only [sustained] using tracks.covers

/-- A recovery closes the open window. -/
theorem close (tracks : rule.Tracks history walk closed)
    (later : ∀ other ∈ history, other.time < sample.time) {first : Sample}
    (opened : walk.opened = some first) (recovers : rule.Recovers history sample) :
    rule.Tracks (history ++ [sample]) ⟨none, none, none⟩
      (closed ++ [rule.window first sample.time]) := by
  have calm := recovers.1
  obtain ⟨sustained, quiet, apart⟩ := tracks.opened first opened
  have recovered : rule.Recovered (history ++ [sample]) sample :=
    SomeAfter.concat_iff.mpr (.inr ⟨rfl, recovers⟩)
  refine ⟨?_, by simp, by simp, by simp, ?_, ?_, ?_, ?_⟩
  · rw [finalRun_calm calm]
    rfl
  · intro other found
    left
    have before := (sustained_calm calm).mp found
    rcases tracks.covers other before with ⟨window, member, inside⟩ | ⟨start, same, starts⟩
    · exact ⟨window, List.mem_append_left _ member, inside⟩
    · obtain rfl := Option.some.inj (opened.symm.trans same)
      exact ⟨_, List.mem_append_right _ (List.mem_singleton_self _), starts, _, rfl,
        le_of_lt (later other before.mem)⟩
  · intro window member
    rcases List.mem_append.mp member with before | last
    · exact tracks.starts_concat window before
    · obtain rfl := List.mem_singleton.mp last
      exact ⟨first, (sustained_calm calm).mpr sustained, rfl, rfl⟩
  · intro window member
    rcases List.mem_append.mp member with before | last
    · exact tracks.ends_concat later window before
    · obtain rfl := List.mem_singleton.mp last
      refine ⟨_, rfl, sample, recovered, later first sustained.mem, rfl, ?_⟩
      intro other found behind
      rcases SomeAfter.concat_iff.mp found with before | ⟨rfl, _⟩
      · exact absurd behind (quiet other before)
      · exact le_refl _
  · refine List.pairwise_append.mpr ⟨tracks.ordered, List.pairwise_singleton _ _, ?_⟩
    intro window member last final
    obtain rfl := List.mem_singleton.mp final
    exact apart window member

/-- Each sample takes the walk to a state that knows of it. -/
theorem step (tracks : rule.Tracks history walk closed)
    (later : ∀ other ∈ history, other.time < sample.time) :
    rule.Tracks (history ++ [sample]) (rule.step walk sample).1
      (closed ++ (rule.step walk sample).2.toList) := by
  rw [ThresholdRule.step]
  by_cases breach : rule.breaches sample
  · rw [if_pos breach]
    obtain ⟨first, found, same⟩ := tracks.run_breach breach
    dsimp only
    split
    next dwelt => simpa using tracks.sustain later breach dwelt
    next early =>
      have short : ¬rule.Sustains history sample := by
        rintro ⟨_, other, head, dwelt⟩
        obtain rfl := Option.some.inj (found.symm.trans head)
        exact early (same ▸ dwelt)
      simpa using tracks.skip later (by rw [found, same, Option.map_some]) short
        fun _ => not_recovers_breach breach
  · rw [if_neg breach]
    have short : ¬rule.Sustains history sample := fun sustains => breach sustains.1
    have run : none = (rule.finalRun (history ++ [sample])).head?.map (·.time) := by
      rw [finalRun_calm breach]
      rfl
    cases known : walk.lastBreach with
    | none =>
      have shut : ¬walk.opened.isSome := by simp [tracks.open_iff, known]
      simpa [known] using tracks.skip later run short fun opened => absurd opened shut
    | some last =>
      have recovers : rule.Recovers history sample ↔
          ¬rule.breaches sample ∧ rule.recovery < sample.time.since last := tracks.recovers_iff known
      dsimp only
      split
      next late =>
        have open_now : walk.opened.isSome := by simp [tracks.open_iff, known]
        obtain ⟨first, opened⟩ := Option.isSome_iff_exists.mp open_now
        simpa [opened] using tracks.close later opened (recovers.mpr ⟨breach, late⟩)
      next early =>
        simpa [known] using
          tracks.skip later run short fun _ recovered => early (recovers.mp recovered).2

end Tracks

theorem trace_tracks (rule : ThresholdRule) (ascending : history.Pairwise fun a b => a.time < b.time) :
    rule.Tracks history (rule.trace history).1 (rule.trace history).2 := by
  induction history using List.reverseRecOn with
  | nil => exact .initial
  | append_singleton history sample ih =>
    rw [trace_concat]
    obtain ⟨before, _, later⟩ := List.pairwise_append.mp ascending
    exact (ih before).step fun other member => later other member sample (List.mem_singleton_self _)

/-! The windows of a whole series. -/

theorem le_last {samples : List Sample} (ascending : samples.Pairwise fun a b => a.time < b.time)
    {last : Sample} (ended : samples.getLast? = some last) (member : sample ∈ samples) :
    sample.time ≤ last.time := by
  obtain ⟨front, rfl⟩ := List.getLast?_eq_some_iff.mp ended
  obtain ⟨_, _, later⟩ := List.pairwise_append.mp ascending
  exact le_concat (fun other before => later other before last (List.mem_singleton_self _)) member

/-- If no window is open at the end, those that were closed are all. -/
theorem Tracks.exact_closed {walk : Walk} {closed : List AlertWindow}
    (tracks : rule.Tracks history walk closed) (shut : walk.opened = none) :
    rule.ExactWindows history closed where
  starts := tracks.starts
  covers other found := by
    rcases tracks.covers other found with ⟨window, member, inside⟩ | ⟨first, opened, _⟩
    · refine ⟨window, ⟨member, inside⟩, ?_⟩
      rintro another ⟨listed, within⟩
      exact AlertWindow.contains_unique tracks.ordered listed member within inside
    · simp [shut] at opened
  ends window member := by
    obtain ⟨finish, ended, first⟩ := tracks.ends window member
    exact ⟨finish, ended, .inl first⟩
  ordered := tracks.ordered

/-- A window that is open at the end is ended by the last sample. -/
theorem Tracks.exact_open {walk : Walk} {closed : List AlertWindow}
    (tracks : rule.Tracks history walk closed)
    (ascending : history.Pairwise fun a b => a.time < b.time) {first last : Sample}
    (opened : walk.opened = some first) (ended : history.getLast? = some last) :
    rule.ExactWindows history (closed ++ [rule.window first last.time]) := by
  obtain ⟨sustained, quiet, apart⟩ := tracks.opened first opened
  have ordered : (closed ++ [rule.window first last.time]).Pairwise AlertWindow.Before := by
    refine List.pairwise_append.mpr ⟨tracks.ordered, List.pairwise_singleton _ _, ?_⟩
    intro window member open_window final
    obtain rfl := List.mem_singleton.mp final
    exact apart window member
  refine ⟨?_, ?_, ?_, ordered⟩
  · intro window member
    rcases List.mem_append.mp member with before | final
    · exact tracks.starts window before
    · obtain rfl := List.mem_singleton.mp final
      exact ⟨first, sustained, rfl, rfl⟩
  · intro other found
    have covered : ∃ window ∈ closed ++ [rule.window first last.time], window.Contains other.time := by
      rcases tracks.covers other found with ⟨window, member, inside⟩ | ⟨start, same, starts⟩
      · exact ⟨window, List.mem_append_left _ member, inside⟩
      · obtain rfl := Option.some.inj (opened.symm.trans same)
        exact ⟨_, List.mem_append_right _ (List.mem_singleton_self _), starts, _, rfl,
          le_last ascending ended found.mem⟩
    obtain ⟨window, member, inside⟩ := covered
    refine ⟨window, ⟨member, inside⟩, ?_⟩
    rintro another ⟨listed, within⟩
    exact AlertWindow.contains_unique ordered listed member within inside
  · intro window member
    rcases List.mem_append.mp member with before | final
    · obtain ⟨finish, finished, recovery⟩ := tracks.ends window before
      exact ⟨finish, finished, .inl recovery⟩
    · obtain rfl := List.mem_singleton.mp final
      exact ⟨_, rfl, .inr ⟨quiet, last, ended, rfl⟩⟩

theorem windows_match (rule : ThresholdRule) {samples : List Sample}
    (ascending : samples.Pairwise fun a b => a.time < b.time) :
    rule.ExactWindows samples (rule.windows samples) := by
  have tracks := trace_tracks rule ascending
  rw [windows_eq]
  cases opened : (rule.trace samples).1.opened with
  | none =>
    simp only [lastWindow, opened, List.append_nil]
    exact tracks.exact_closed opened
  | some first =>
    have member := (tracks.opened first opened).1.mem
    have ended := List.getLast?_eq_some_getLast (List.ne_nil_of_mem member)
    simp only [lastWindow, opened, ended]
    exact tracks.exact_open ascending opened ended

/-- Over samples in strictly ascending order, a threshold alert fires exactly in the windows that start
with a sustained sample and end with the first recovery after it. -/
theorem windows_exact (rule : ThresholdRule) {samples : List Sample}
    (ascending : samples.Pairwise fun a b => a.time < b.time) :
    rule.ExactWindows samples (rule.windows samples) ∧
      ∀ sample, sample.number? = none → ¬rule.breaches sample :=
  ⟨rule.windows_match ascending, fun sample opaque_value => by simp [breaches, opaque_value]⟩

/-- A value above two for more than a second, then below for too short a time to recover, then again. -/
def twoSpikes : List Sample :=
  [(0, 3), (1, 3), (2, 1), (3, 4), (4, 4), (5, 1), (9, 1)].filterMap fun (second, value) =>
    (Instant.make? second 0).map (⟨·, .number (.ofInt value)⟩)

def aboveTwo : ThresholdRule := ⟨.ofInt 2, .greater, .ofMillis 3000, .ofMillis 1000⟩

theorem twoSpikes_exact : (twoSpikes.Pairwise fun a b => a.time < b.time) ∧
    aboveTwo.ExactWindows twoSpikes (aboveTwo.windows twoSpikes) :=
  have ascending : twoSpikes.Pairwise fun a b => a.time < b.time := by decide
  ⟨ascending, (windows_exact aboveTwo ascending).1⟩

example : (aboveTwo.windows twoSpikes).map (fun window => (window.start.second,
    window.finish.map (·.second))) = [(1, some 9)] := by decide

end MetricEngine.ThresholdRule
