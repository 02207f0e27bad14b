import Mathlib.Data.Set.Finite.Lemmas
import MetricEngine.Proofs.Alert.AbsenceWindows

/-!
How the windows of an alert on missing data change with its periods. A shorter dwell period finds every gap
that a longer one finds, and sooner, and a longer recovery period heals fewer of them, so windows only widen
and merge. As with thresholds, the spans to a later instant must grow with the distance for that.
-/
namespace MetricEngine.AbsenceRule

/-- A dwell period that is no longer and a recovery period that is no shorter, with the same freshness. -/
structure MoreSensitive (sensitive rule : AbsenceRule) : Prop where
  forward : .zero ≤ sensitive.dwell
  dwell : sensitive.dwell ≤ rule.dwell
  recovery : rule.recovery ≤ sensitive.recovery
  freshness : sensitive.freshness = rule.freshness

variable {sensitive rule : AbsenceRule} {now a b c e start other : Instant} {times : List Instant}
  {windows wider_windows : List AlertWindow}

/-- Of two gaps the one that ends first starts first. -/
theorem Gap.starts_in_order (gap : rule.Gap times a b start) (later : rule.Gap times c e other)
    (ascending : times.Pairwise (· < ·)) (forward : .zero ≤ rule.dwell) (order : b ≤ e) :
    start ≤ other := by
  obtain ⟨before, apart⟩ := neighbours_apart ascending gap.neighbours
  obtain ⟨_, later_apart⟩ := neighbours_apart ascending later.neighbours
  rcases later_apart b gap.end_mem with behind | same_end
  · calc
      start ≤ b := le_of_lt gap.late
      _ ≤ c := behind
      _ ≤ other := later.le_start forward
  · obtain rfl : b = e := le_antisymm order same_end
    have a_le : a ≤ c :=
      (later_apart a (gap.neighbours.subset (by simp))).resolve_right (not_le_of_gt before)
    have c_lt : c < b := lt_of_le_of_lt (later.le_start forward) later.late
    have le_a : c ≤ a :=
      (apart c (later.neighbours.subset (by simp))).resolve_right (not_le_of_gt c_lt)
    obtain rfl : a = c := le_antisymm a_le le_a
    exact le_of_eq (Option.some.inj (gap.dwelt.symm.trans later.dwelt))

/-- The latest gap that has ended by some instant. -/
theorem exists_latest_gap (gap : rule.Gap times a b start) {last : Instant} (upto : b ≤ last) :
    ∃ c e other, rule.Gap times c e other ∧ e ≤ last ∧
      ∀ a b start, rule.Gap times a b start → b ≤ last → b ≤ e := by
  let ended : Set Instant := {e | (∃ c other, rule.Gap times c e other) ∧ e ≤ last}
  have bounded : ended.Finite :=
    (List.finite_toSet times).subset fun _ ⟨⟨_, _, found⟩, _⟩ => found.end_mem
  obtain ⟨e, ⟨⟨c, other, found⟩, e_upto⟩, latest⟩ :=
    Set.exists_max_image ended id bounded ⟨b, ⟨a, start, gap⟩, upto⟩
  exact ⟨c, e, other, found, e_upto, fun a b start gap upto => latest b ⟨⟨a, start, gap⟩, upto⟩⟩

theorem ExactWindows.finish_le_now (exact_windows : rule.ExactWindows now times windows)
    (past : ∀ time ∈ times, time ≤ now) {window : AlertWindow} (listed : window ∈ windows) :
    ∃ finish, window.finish = some finish ∧ finish ≤ now := by
  obtain ⟨gapEnd, ⟨⟨_, ⟨_, gap⟩, _⟩, _⟩, ⟨_, ended⟩ | ⟨_, ended⟩⟩ := exact_windows.ends window listed
  · exact ⟨gapEnd, ended, past gapEnd gap.end_mem⟩
  · exact ⟨now, ended, le_rfl⟩

/-- A window ends with the first of its gaps that heals. -/
theorem ExactWindows.finish_of_heals (exact_windows : rule.ExactWindows now times windows)
    {window : AlertWindow} (listed : window ∈ windows)
    (inside : rule.GapIn times window start e) (heals : rule.Heals times e) :
    window.finish = some e := by
  obtain ⟨_, latest⟩ := exact_windows.separates window listed start e inside heals
  obtain ⟨gapEnd, ⟨⟨last, last_inside⟩, last_latest⟩, ending⟩ := exact_windows.ends window listed
  obtain rfl : gapEnd = e := le_antisymm (latest last gapEnd last_inside) (last_latest start e inside)
  rcases ending with ⟨_, ended⟩ | ⟨unhealed, _⟩
  · exact ended
  · exact absurd heals unhealed

namespace MoreSensitive

theorem gap (more : MoreSensitive sensitive rule) (found : rule.Gap times a b start) :
    ∃ sooner, sensitive.Gap times a b sooner ∧ sooner ≤ start := by
  obtain ⟨sooner, dwelt, order⟩ := Instant.add?_of_le more.forward more.dwell found.dwelt
  exact ⟨sooner, ⟨found.neighbours, dwelt, lt_of_le_of_lt order found.late⟩, order⟩

/-- When the alert with the greater sensitivity heals after a gap up to `last`, the other one heals at the
same pair after the latest gap that it has found up to then. -/
theorem heals (more : MoreSensitive sensitive rule) (ascending : times.Pairwise (· < ·))
    (comparable : DwellsComparable sensitive.dwell rule.dwell times) {last sooner : Instant}
    (wider_gap : sensitive.Gap times a last sooner) (healed : sensitive.Heals times last)
    (found : rule.Gap times b e start) (upto : e ≤ last)
    (latest : ∀ a b start, rule.Gap times a b start → b ≤ last → b ≤ e) : rule.Heals times e := by
  obtain ⟨c, d, neighbours, behind, regular, first, far⟩ := healed
  refine ⟨c, d, neighbours, le_trans upto behind, ?_, ?_, ?_⟩
  · intro start gap
    obtain ⟨sooner, gap, _⟩ := more.gap gap
    exact regular sooner gap
  · intro a' b' start gap after
    obtain ⟨before, apart⟩ := neighbours_apart ascending gap.neighbours
    rcases apart last wider_gap.end_mem with last_le | b_le
    · obtain ⟨sooner, gap, _⟩ := more.gap gap
      exact first a' b' sooner gap last_le
    · exact absurd (le_trans (latest a' b' start gap b_le) after) (not_le_of_gt before)
  · have longer : d.since last ≤ d.since e := by
      rcases comparable with same | steady
      · have also : rule.Gap times a last sooner :=
          ⟨wider_gap.neighbours, same ▸ wider_gap.dwelt, wider_gap.late⟩
        obtain rfl : e = last := le_antisymm upto (latest a last sooner also le_rfl)
        exact Int.le_refl _
      · obtain ⟨order, _⟩ := neighbours_apart ascending neighbours
        exact steady e found.end_mem last wider_gap.end_mem d (neighbours.subset (by simp)) upto
          (le_trans behind (le_of_lt order))
    exact Int.lt_of_le_of_lt more.recovery (Int.lt_of_lt_of_le far longer)

/-- Every window with an end lies in one of the alert with the greater sensitivity. -/
theorem ended_within (more : MoreSensitive sensitive rule) (ascending : times.Pairwise (· < ·))
    (comparable : DwellsComparable sensitive.dwell rule.dwell times) (past : ∀ time ∈ times, time ≤ now)
    (own : rule.ExactWindows now times windows)
    (others : sensitive.ExactWindows now times wider_windows) :
    ∀ window ∈ windows, ∃ wider ∈ wider_windows, window.Within wider := by
  intro window listed
  obtain ⟨_, a, b, gap⟩ := own.starts window listed
  obtain ⟨finish, ended, finish_past⟩ := own.finish_le_now past listed
  obtain ⟨sooner, wider_gap, order⟩ := more.gap gap
  obtain ⟨wider, ⟨wider_listed, ⟨behind, _⟩, _, last, wider_ended, upto⟩, _⟩ :=
    others.covers a b sooner wider_gap
  refine ⟨wider, wider_listed, le_trans behind order, fun other same => ?_⟩
  obtain rfl := Option.some.inj (wider_ended.symm.trans same)
  refine ⟨finish, ended, ?_⟩
  obtain ⟨gapEnd, ⟨⟨_, ⟨c, last_gap⟩, _⟩, _⟩, ⟨healed, same⟩ | ⟨_, same⟩⟩ :=
    others.ends wider wider_listed
  · -- If the window went on beyond `last`, its latest gap up to there would have healed within it.
    obtain rfl := Option.some.inj (wider_ended.symm.trans same)
    obtain ⟨d, final, final_start, final_gap, final_upto, latest⟩ := exists_latest_gap gap upto
    have final_healed : rule.Heals times final :=
      more.heals ascending comparable last_gap healed final_gap final_upto latest
    refine le_of_not_gt fun beyond => ?_
    have forward : .zero ≤ rule.dwell := Int.le_trans more.forward more.dwell
    have started : window.start ≤ final_start :=
      gap.starts_in_order final_gap ascending forward (latest a b window.start gap upto)
    have within : final ≤ finish := le_trans final_upto (le_of_lt beyond)
    have inside : rule.GapIn times window final_start final :=
      ⟨⟨d, final_gap⟩, ⟨started, finish, ended, le_trans (le_of_lt final_gap.late) within⟩,
        le_trans started (le_of_lt final_gap.late), finish, ended, within⟩
    obtain rfl := Option.some.inj (ended.symm.trans (own.finish_of_heals listed inside final_healed))
    exact absurd final_upto (not_le_of_gt beyond)
  · obtain rfl := Option.some.inj (wider_ended.symm.trans same)
    exact finish_past

theorem stale (more : MoreSensitive sensitive rule) (found : rule.Stale now times start) :
    ∃ sooner, sensitive.Stale now times sooner ∧ sooner ≤ start := by
  obtain ⟨last, freshAfter, at_end, dwelt, fresh, old⟩ := found
  obtain ⟨sooner, sooner_dwelt, order⟩ := Instant.add?_of_le more.forward more.dwell dwelt
  exact ⟨sooner, ⟨last, freshAfter, at_end, sooner_dwelt, more.freshness ▸ fresh,
    lt_of_le_of_lt order old⟩, order⟩

/-- Every reported window lies in one that the alert with the greater sensitivity reports. -/
theorem reported_within (more : MoreSensitive sensitive rule) (ascending : times.Pairwise (· < ·))
    (comparable : DwellsComparable sensitive.dwell rule.dwell times) (past : ∀ time ∈ times, time ≤ now)
    (own : rule.Reports now times windows) (others : sensitive.Reports now times wider_windows) :
    ∀ window ∈ windows, ∃ wider ∈ wider_windows, window.Within wider := by
  obtain ⟨ended, ongoing, rfl, exact_windows, stale_iff, fresh_iff⟩ := own
  obtain ⟨wider_ended, wider_ongoing, rfl, wider_exact, wider_stale_iff, _⟩ := others
  intro window listed
  rcases List.mem_append.mp listed with past_window | ongoing_window
  · obtain ⟨wider, found, within⟩ :=
      more.ended_within ascending comparable past exact_windows wider_exact window past_window
    exact ⟨wider, List.mem_append_left _ found, within⟩
  · have some_stale : ∃ start, rule.Stale now times start := by
      by_contra fresh
      rw [fresh_iff.mp (not_exists.mp fresh)] at ongoing_window
      exact List.not_mem_nil ongoing_window
    obtain ⟨start, stale⟩ := some_stale
    obtain rfl : window = ⟨start, none, rule.message⟩ := by
      rw [(stale_iff start).mp stale] at ongoing_window
      exact List.mem_singleton.mp ongoing_window
    obtain ⟨sooner, wider_stale, order⟩ := more.stale stale
    refine ⟨⟨sooner, none, sensitive.message⟩, ?_, order, by simp⟩
    rw [(wider_stale_iff sooner).mp wider_stale]
    exact List.mem_append_right _ (List.mem_singleton_self _)

end MoreSensitive

/-- With a shorter dwell period or a longer recovery period each window lies in one that is reported then,
if the dwell period stays or the spans between the samples grow with the distance, as they do outside leap
seconds. -/
theorem absences_widen {sensitive rule : AbsenceRule} (more : MoreSensitive sensitive rule)
    {now : Instant} {samples : List Sample} (ascending : samples.Pairwise fun a b => a.time < b.time)
    (past : ∀ sample ∈ samples, sample.time ≤ now) :
    (DwellsComparable sensitive.dwell rule.dwell (samples.map (·.time)) →
      ∀ window ∈ rule.windows now samples, ∃ wider ∈ sensitive.windows now samples,
        window.Within wider) ∧
    ((∀ sample ∈ samples, sample.time.isLeap = false) →
      DwellsComparable sensitive.dwell rule.dwell (samples.map (·.time))) := by
  have forward : .zero ≤ rule.dwell := Int.le_trans more.forward more.dwell
  have own := rule.windows_reports forward ascending past
  have others := sensitive.windows_reports more.forward ascending past
  refine ⟨fun comparable => ?_, fun regular => ?_⟩
  · exact more.reported_within (List.pairwise_map.mpr ascending) comparable (by simpa using past) own others
  · exact dwellsComparable_of_regular (by simpa using regular) _ _

/-- Two seconds to recover from a second without data. -/
def oneSecond : AbsenceRule := ⟨.ofMillis 1000, .ofMillis 2000, .ofMillis 120000⟩

theorem threeOutages_widen : MoreSensitive oneSecond twoSeconds ∧
    (threeOutages.Pairwise fun a b => a.time < b.time) ∧
    (∀ sample ∈ threeOutages, sample.time ≤ afterOutages) ∧
    ∀ window ∈ twoSeconds.windows afterOutages threeOutages,
      ∃ wider ∈ oneSecond.windows afterOutages threeOutages, window.Within wider := by
  have more : MoreSensitive oneSecond twoSeconds := ⟨by decide, by decide, by decide, rfl⟩
  have ascending : threeOutages.Pairwise fun a b => a.time < b.time := by decide
  have past : ∀ sample ∈ threeOutages, sample.time ≤ afterOutages := by decide
  obtain ⟨widen, comparable⟩ := absences_widen more ascending past
  exact ⟨more, ascending, past, widen (comparable (by decide))⟩

example : (oneSecond.windows afterOutages threeOutages).map (fun window => (window.start.second,
    window.finish.map (·.second))) = [(2, some 1000), (31, none)] := by decide

/-- Missing data up to a leap second, and for the last tenth of that second. -/
def aroundLeapSecond : List Sample :=
  [(1483228790, 0), (1483228799, 1900000000), (1483228800, 0), (1483228800, 50000000)].filterMap
    fun (second, nanos) => (Instant.make? second nanos).map (⟨·, .number (.ofInt 5)⟩)

/-- Missing data for so many milliseconds, with no time to recover. -/
def missingFor (millis : Int) : AbsenceRule := ⟨.ofMillis millis, .zero, .ofMillis 120000⟩

def afterLeapSecond : Instant := (Instant.make? 1483228801 0).getD .epoch

/-- The tenth of a second up to midnight is a gap for the shorter dwell period only, which the next sample
heals. From the sample in the leap second the next one is less than no time away, so the longer gap does not
heal. -/
theorem leapSecond_absence_not_within :
    MoreSensitive (missingFor 50) (missingFor 5000) ∧
    (aroundLeapSecond.Pairwise fun a b => a.time < b.time) ∧
    (∀ sample ∈ aroundLeapSecond, sample.time ≤ afterLeapSecond) ∧
    ∃ window ∈ (missingFor 5000).windows afterLeapSecond aroundLeapSecond,
      ∀ wider ∈ (missingFor 50).windows afterLeapSecond aroundLeapSecond, ¬window.Within wider :=
  ⟨⟨by decide, by decide, by decide, rfl⟩, by decide, by decide, by decide⟩

end MetricEngine.AbsenceRule
