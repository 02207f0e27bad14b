import Mathlib.Data.Set.Finite.Lemmas
import MetricEngine.Proofs.Alert.ThresholdWindows

/-!
How the windows of a threshold alert change with its periods. A shorter dwell period or a longer recovery
period only widens and merges windows, as long as spans to a later instant grow with the distance: around a
leap second they may not, and then the alert with the shorter dwell period may be the first to recover.
-/
namespace MetricEngine.ThresholdRule
open ListFacts

/-- The same condition with a dwell period that is no longer and a recovery period that is no shorter. -/
structure MoreSensitive (sensitive rule : ThresholdRule) : Prop where
  threshold : sensitive.threshold = rule.threshold
  comparison : sensitive.comparison = rule.comparison
  dwell : sensitive.dwell ≤ rule.dwell
  recovery : rule.recovery ≤ sensitive.recovery

variable {sensitive rule : ThresholdRule} {samples : List Sample} {first sample : Sample}

/-- The latest sustained sample. -/
theorem exists_latest (found : rule.Sustained samples first) :
    ∃ last, rule.Sustained samples last ∧ ∀ other, rule.Sustained samples other →
      other.time ≤ last.time :=
  Set.exists_max_image {sample | rule.Sustained samples sample} (·.time)
    ((List.finite_toSet samples).subset fun _ sustained => sustained.mem) ⟨first, found⟩

/-- A sample that recovers is another one than any that is sustained. -/
theorem sustained_before (ascending : samples.Pairwise fun a b => a.time < b.time)
    (sustained : rule.Sustained samples first) (calm : ¬rule.breaches sample)
    (member : sample ∈ samples) (upto : first.time ≤ sample.time) : first.time < sample.time := by
  refine lt_of_le_of_ne upto fun same => ?_
  have distinct : (samples.map (·.time)).Nodup := List.pairwise_map.mpr (ascending.imp ne_of_lt)
  obtain rfl := List.inj_on_of_nodup_map distinct sustained.mem member same
  obtain ⟨_, _, _, sustains⟩ := sustained
  exact calm sustains.1

theorem EndsAt.le_last {start finish : Instant} (ends : rule.EndsAt samples start finish)
    (ascending : samples.Pairwise fun a b => a.time < b.time) {last : Sample}
    (at_end : samples.getLast? = some last) : finish ≤ last.time := by
  rcases ends with ⟨recovery, recovered, _, rfl, _⟩ | ⟨_, other, also_last, rfl⟩
  · exact ThresholdRule.le_last ascending at_end recovered.mem
  · obtain rfl := Option.some.inj (at_end.symm.trans also_last)
    exact le_rfl

theorem EndsAt.le_finish {finish : Instant} (ends : rule.EndsAt samples first.time finish)
    (ascending : samples.Pairwise fun a b => a.time < b.time) (member : first ∈ samples) :
    first.time ≤ finish := by
  rcases ends with ⟨_, _, after, rfl, _⟩ | ⟨_, last, at_end, rfl⟩
  · exact le_of_lt after
  · exact ThresholdRule.le_last ascending at_end member

/-- What is sustained depends on the breaches and the dwell period only. -/
theorem sustained_of_dwell_le {other : ThresholdRule} (same : other.breaches = rule.breaches)
    (dwell : other.dwell ≤ rule.dwell) (found : rule.Sustained samples sample) :
    other.Sustained samples sample := by
  obtain ⟨before, after, rfl, breach, start, head, dwelt⟩ := found
  refine ⟨before, after, rfl, ?_, start, ?_, Int.le_trans dwell dwelt⟩
  · rwa [same]
  · rwa [finalRun, same]

namespace MoreSensitive

theorem breaches_eq (more : MoreSensitive sensitive rule) : sensitive.breaches = rule.breaches := by
  funext sample
  rw [breaches, breaches, more.threshold, more.comparison]

theorem sustained (more : MoreSensitive sensitive rule) (found : rule.Sustained samples sample) :
    sensitive.Sustained samples sample :=
  sustained_of_dwell_le more.breaches_eq more.dwell found

theorem sustained_iff (more : MoreSensitive sensitive rule) (same : sensitive.dwell = rule.dwell) :
    sensitive.Sustained samples sample ↔ rule.Sustained samples sample :=
  ⟨sustained_of_dwell_le more.breaches_eq.symm (Int.le_of_eq (congrArg Span.nanos same.symm)),
    more.sustained⟩

/-- After a sample that is sustained for both, no recovery is missed without the greater sensitivity. -/
theorem recovered (more : MoreSensitive sensitive rule)
    (ascending : samples.Pairwise fun a b => a.time < b.time)
    (comparable : DwellsComparable sensitive.dwell rule.dwell (samples.map (·.time)))
    (found : rule.Sustained samples first)
    (upto : first.time ≤ sample.time) (recovered : sensitive.Recovered samples sample) :
    first.time < sample.time ∧ rule.Recovered samples sample := by
  obtain ⟨before, after, rfl, calm, last, last_sustained, latest, late⟩ := recovered
  rw [more.breaches_eq] at calm
  have earlier : first.time < sample.time := sustained_before ascending found calm (by simp) upto
  obtain ⟨_, behind, ahead⟩ := List.pairwise_append.mp ascending
  have seen : rule.Sustained before first := by
    rcases found.of_append with seen | not_seen
    · exact seen
    · rcases List.mem_cons.mp not_seen with rfl | later
      · exact absurd earlier (lt_irrefl _)
      · exact absurd earlier (lt_asymm ((List.pairwise_cons.mp behind).1 first later))
  obtain ⟨own, own_sustained, own_latest⟩ := exists_latest seen
  refine ⟨earlier, before, after, rfl, calm, own, own_sustained, own_latest, ?_⟩
  have order : own.time ≤ last.time := latest own (more.sustained own_sustained)
  have longer : sample.time.since last.time ≤ sample.time.since own.time := by
    rcases comparable with same | steady
    · have same_time : own.time = last.time :=
        le_antisymm order (own_latest last ((more.sustained_iff same).mp last_sustained))
      rw [same_time]
      exact Int.le_refl _
    · have member : ∀ other ∈ before, other.time ∈ (before ++ sample :: after).map (·.time) :=
        fun other listed => List.mem_map_of_mem (List.mem_append_left _ listed)
      exact steady _ (member own own_sustained.mem) _ (member last last_sustained.mem) _ (by simp) order
        (le_of_lt (ahead last last_sustained.mem sample List.mem_cons_self))
  exact Int.lt_of_le_of_lt more.recovery (Int.lt_of_lt_of_le late longer)

/-- A window ends no later than one of the alert with the greater sensitivity that reaches its start. -/
theorem finish_le (more : MoreSensitive sensitive rule)
    (ascending : samples.Pairwise fun a b => a.time < b.time)
    (comparable : DwellsComparable sensitive.dwell rule.dwell (samples.map (·.time)))
    (found : rule.Sustained samples first) {start finish last : Instant}
    (ends : rule.EndsAt samples first.time finish) (wider_ends : sensitive.EndsAt samples start last)
    (upto : first.time ≤ last) : finish ≤ last := by
  rcases wider_ends with ⟨sample, recovered, _, rfl, _⟩ | ⟨_, final, at_end, rfl⟩
  · obtain ⟨after, recovered⟩ := more.recovered ascending comparable found upto recovered
    rcases ends with ⟨_, _, _, _, least⟩ | ⟨none_after, _⟩
    · exact least sample recovered after
    · exact absurd after (none_after sample recovered)
  · exact ends.le_last ascending at_end

/-- Every window lies in one of the alert with the greater sensitivity. -/
theorem windows_within (more : MoreSensitive sensitive rule)
    (ascending : samples.Pairwise fun a b => a.time < b.time)
    (comparable : DwellsComparable sensitive.dwell rule.dwell (samples.map (·.time))) :
    ∀ window ∈ rule.windows samples, ∃ wider ∈ sensitive.windows samples, window.Within wider := by
  intro window listed
  have own := rule.windows_match ascending
  have others := sensitive.windows_match ascending
  obtain ⟨first, found, start, _⟩ := own.starts window listed
  obtain ⟨finish, ended, ends⟩ := own.ends window listed
  obtain ⟨wider, ⟨wider_listed, behind, last, wider_ended, upto⟩, _⟩ :=
    others.covers first (more.sustained found)
  obtain ⟨_, same, wider_ends⟩ := others.ends wider wider_listed
  obtain rfl := Option.some.inj (wider_ended.symm.trans same)
  rw [start] at ends
  refine ⟨wider, wider_listed, start ▸ behind, fun other same => ⟨finish, ended, ?_⟩⟩
  obtain rfl := Option.some.inj (wider_ended.symm.trans same)
  exact more.finish_le ascending comparable found ends wider_ends upto

/-- With one dwell period a longer recovery period opens no window at another sample. -/
theorem starts_subset (more : MoreSensitive sensitive rule)
    (ascending : samples.Pairwise fun a b => a.time < b.time) (same : sensitive.dwell = rule.dwell) :
    ∀ wider ∈ sensitive.windows samples, ∃ window ∈ rule.windows samples,
      window.start = wider.start := by
  intro wider wider_listed
  have own := rule.windows_match ascending
  have others := sensitive.windows_match ascending
  obtain ⟨first, found, start, _⟩ := others.starts wider wider_listed
  obtain ⟨window, ⟨listed, behind, finish, ended, reached⟩, _⟩ :=
    own.covers first ((more.sustained_iff same).mp found)
  obtain ⟨early, early_found, window_start, _⟩ := own.starts window listed
  obtain ⟨_, same_end, ends⟩ := own.ends window listed
  obtain rfl := Option.some.inj (ended.symm.trans same_end)
  rw [window_start] at behind ends
  -- The window of the earlier sample reaches beyond `window`, so it is `wider`, which starts here.
  obtain ⟨other, ⟨other_listed, other_behind, last, other_ended, upto⟩, _⟩ :=
    others.covers early (more.sustained early_found)
  obtain ⟨_, same_end, other_ends⟩ := others.ends other other_listed
  obtain rfl := Option.some.inj (other_ended.symm.trans same_end)
  have beyond : finish ≤ last :=
    more.finish_le ascending (.inl same) early_found ends other_ends upto
  obtain ⟨wider_finish, wider_ended, wider_ends⟩ := others.ends wider wider_listed
  have in_wider : wider.Contains first.time :=
    ⟨le_of_eq start, wider_finish, wider_ended, EndsAt.le_finish (start ▸ wider_ends) ascending found.mem⟩
  have in_other : other.Contains first.time :=
    ⟨le_trans other_behind behind, last, other_ended, le_trans reached beyond⟩
  obtain rfl := AlertWindow.contains_unique others.ordered other_listed wider_listed in_other in_wider
  refine ⟨window, listed, ?_⟩
  rw [window_start, start]
  exact le_antisymm behind (start ▸ other_behind)

end MoreSensitive

/-- With a shorter dwell period or a longer recovery period each window lies in one that is found then, if
the dwell period stays or the spans between the samples grow with the distance, as they do outside leap
seconds. If the dwell period stays, no window starts where none did. -/
theorem windows_widen {sensitive rule : ThresholdRule} (more : MoreSensitive sensitive rule)
    {samples : List Sample} (ascending : samples.Pairwise fun a b => a.time < b.time) :
    (DwellsComparable sensitive.dwell rule.dwell (samples.map (·.time)) →
      ∀ window ∈ rule.windows samples, ∃ wider ∈ sensitive.windows samples, window.Within wider) ∧
    (sensitive.dwell = rule.dwell →
      ∀ wider ∈ sensitive.windows samples, ∃ window ∈ rule.windows samples,
        window.start = wider.start) ∧
    ((∀ sample ∈ samples, sample.time.isLeap = false) →
      DwellsComparable sensitive.dwell rule.dwell (samples.map (·.time))) := by
  refine ⟨more.windows_within ascending, more.starts_subset ascending, fun regular => ?_⟩
  exact dwellsComparable_of_regular (by simpa using regular) _ _

/-- Two values above two in a row, a single one, and two again, a second apart from each other. -/
def threeSpikes : List Sample :=
  [(0, 3), (1, 3), (2, 1), (3, 3), (4, 1), (5, 3), (6, 3), (7, 1)].filterMap fun (second, value) =>
    (Instant.make? second 0).map (⟨·, .number (.ofInt value)⟩)

/-- Values above two, for so many milliseconds. -/
def aboveTwoFor (millis : Int) : ThresholdRule := ⟨.ofInt 2, .greater, .zero, .ofMillis millis⟩

/-- Values above two, with a second to recover. -/
def slowToRecover : ThresholdRule := ⟨.ofInt 2, .greater, .ofMillis 1000, .zero⟩

theorem threeSpikes_widen : (threeSpikes.Pairwise fun a b => a.time < b.time) ∧
    (MoreSensitive slowToRecover (aboveTwoFor 1000) ∧
      ∀ window ∈ (aboveTwoFor 1000).windows threeSpikes, ∃ wider ∈ slowToRecover.windows threeSpikes,
        window.Within wider) ∧
    MoreSensitive slowToRecover (aboveTwoFor 0) ∧
      ∀ wider ∈ slowToRecover.windows threeSpikes, ∃ window ∈ (aboveTwoFor 0).windows threeSpikes,
        window.start = wider.start := by
  have ascending : threeSpikes.Pairwise fun a b => a.time < b.time := by decide
  have longer : MoreSensitive slowToRecover (aboveTwoFor 1000) := ⟨rfl, rfl, by decide, by decide⟩
  have at_once : MoreSensitive slowToRecover (aboveTwoFor 0) := ⟨rfl, rfl, by decide, by decide⟩
  obtain ⟨widen, _, comparable⟩ := windows_widen longer ascending
  obtain ⟨_, starts, _⟩ := windows_widen at_once ascending
  exact ⟨ascending, ⟨longer, widen (comparable (by decide))⟩, at_once, starts rfl⟩

example : [aboveTwoFor 0, aboveTwoFor 1000, slowToRecover].map (fun rule =>
    (rule.windows threeSpikes).map fun window => (window.start.second, window.finish.map (·.second))) =
    [[(0, some 2), (3, some 4), (5, some 7)], [(1, some 2), (6, some 7)], [(0, some 7)]] := by decide

/-- Values above two for ten seconds, the last of them half a second behind the one in a leap second. -/
def throughLeapSecond : List Sample :=
  [(1483228790, 0, 5), (1483228799, 1900000000, 5), (1483228800, 0, 5), (1483228800, 500000000, 1),
    (1483228800, 600000000, 1)].filterMap fun (second, nanos, value) =>
      (Instant.make? second nanos).map (⟨·, .number (.ofInt value)⟩)

/-- The value at midnight is sustained for the shorter dwell period only, and the first one below two is
less than no time away from the one in the leap second. So only one alert recovers at it. -/
theorem leapSecond_window_not_within :
    MoreSensitive (aboveTwoFor 10000) (aboveTwoFor 10500) ∧
    (throughLeapSecond.Pairwise fun a b => a.time < b.time) ∧
    ∃ window ∈ (aboveTwoFor 10500).windows throughLeapSecond,
      ∀ wider ∈ (aboveTwoFor 10000).windows throughLeapSecond, ¬window.Within wider :=
  ⟨⟨rfl, rfl, by decide, by decide⟩, by decide, by decide⟩

end MetricEngine.ThresholdRule
