import MetricEngine.Proofs.Alert.ThresholdWindows

/-!
From what a threshold alert recovers. A window is closed by a sample that comes more than the recovery
period after the latest breach that had dwelt. A breach that has not dwelt does not put the recovery off,
so a window may close although a breach has just been seen.
-/
namespace MetricEngine.ThresholdRule
open ListFacts

/-- Every sample of some kind before an instant comes more than the recovery period before it. -/
def RestedFrom (rule : ThresholdRule) (kind : Sample → Prop) (samples : List Sample) (time : Instant) :
    Prop :=
  ∀ sample ∈ samples, sample.time < time → kind sample → rule.recovery < time.since sample.time

/-- A breach whose run had not lasted for the dwell period. -/
def Short (rule : ThresholdRule) (samples : List Sample) (sample : Sample) : Prop :=
  rule.breaches sample ∧ ¬rule.Sustained samples sample

/-- The latest sustained sample before an instant. -/
structure LatestSustained (rule : ThresholdRule) (samples : List Sample) (time : Instant)
    (last : Sample) : Prop where
  sustained : rule.Sustained samples last
  before : last.time < time
  latest : ∀ other, rule.Sustained samples other → other.time < time → other.time ≤ last.time

variable {rule : ThresholdRule} {samples : List Sample} {window : AlertWindow} {finish : Instant}

/-- A window starts with a sustained sample, and ends with a recovery or with the last sample. -/
theorem window_bounds (ascending : samples.Pairwise fun a b => a.time < b.time)
    (listed : window ∈ rule.windows samples) (ended : window.finish = some finish) :
    (∃ first, rule.Sustained samples first ∧ window.start = first.time) ∧
      (rule.FirstRecovery samples window.start finish ∨
        ∃ last, samples.getLast? = some last ∧ last.time = finish) := by
  have tracks := trace_tracks rule ascending
  rw [windows_eq] at listed
  rcases List.mem_append.mp listed with closed | still_open
  · obtain ⟨first, sustained, start, _⟩ := tracks.starts window closed
    obtain ⟨_, same, recovery⟩ := tracks.ends window closed
    obtain rfl := Option.some.inj (same.symm.trans ended)
    exact ⟨⟨first, sustained, start⟩, .inl recovery⟩
  · unfold lastWindow at still_open
    split at still_open
    next first last opened at_end =>
      obtain rfl := List.mem_singleton.mp still_open
      exact ⟨⟨first, (tracks.opened first opened).1, rfl⟩,
        .inr ⟨last, at_end, Option.some.inj ended⟩⟩
    next => simp at still_open

/-- A sample recovers from the latest sustained sample before it. -/
theorem latest_of_recovered (ascending : samples.Pairwise fun a b => a.time < b.time) {sample : Sample}
    (recovered : rule.Recovered samples sample) :
    ∃ last, rule.LatestSustained samples sample.time last ∧
      rule.recovery < sample.time.since last.time := by
  obtain ⟨before, after, rfl, _, last, sustained, greatest, late⟩ := recovered
  obtain ⟨_, behind, earlier⟩ := List.pairwise_append.mp ascending
  refine ⟨last, ⟨sustained.append_right _, ?_, ?_⟩, late⟩
  · exact earlier last sustained.mem sample List.mem_cons_self
  · intro other found other_before
    rcases found.of_append with in_front | not_before
    · exact greatest other in_front
    · exfalso
      rcases List.mem_cons.mp not_before with rfl | later
      · exact lt_irrefl _ other_before
      · exact lt_asymm other_before ((List.pairwise_cons.mp behind).1 other later)

/-- Without a dwell period every breach is sustained. -/
theorem sustained_of_no_dwell (ascending : samples.Pairwise fun a b => a.time < b.time)
    (regular : ∀ sample ∈ samples, sample.time.isLeap = false) (no_dwell : rule.dwell ≤ .zero)
    {sample : Sample} (member : sample ∈ samples) (breach : rule.breaches sample) :
    rule.Sustained samples sample := by
  obtain ⟨before, after, rfl⟩ := List.append_of_mem member
  refine ⟨before, after, rfl, breach, ?_⟩
  obtain ⟨_, _, earlier⟩ := List.pairwise_append.mp ascending
  have run : rule.finalRun (before ++ [sample]) = rule.finalRun before ++ [sample] :=
    finalRun_breach breach
  obtain ⟨first, head⟩ : ∃ first, (rule.finalRun (before ++ [sample])).head? = some first := by
    rw [run]
    cases rule.finalRun before with
    | nil => exact ⟨sample, rfl⟩
    | cons first rest => exact ⟨first, rfl⟩
  have listed : first ∈ before ++ [sample] :=
    (List.rtakeWhile_suffix _ _).subset (List.mem_of_head? head)
  have order : first.time ≤ sample.time :=
    le_concat (fun other found => earlier other found sample List.mem_cons_self) listed
  have first_regular : first.time.isLeap = false := by
    apply regular
    rcases List.mem_append.mp listed with found | last
    · exact List.mem_append_left _ found
    · exact List.mem_singleton.mp last ▸ member
  refine ⟨first, head, ?_⟩
  exact Int.le_trans no_dwell (Instant.zero_le_since (regular sample member) first_regular order)

/-- A window that ends before the last sample does so at a sample that does not breach and comes more than
the recovery period after the latest sustained sample. Outside leap seconds it comes more than that period
after every breach exactly if it does so after the breaches that had not dwelt, and in any case if there is
no dwell period. -/
theorem closing_rule_holds_iff (rule : ThresholdRule) {samples : List Sample}
    (ascending : samples.Pairwise fun a b => a.time < b.time) {window : AlertWindow}
    (listed : window ∈ rule.windows samples) {finish : Instant} (ended : window.finish = some finish)
    (goes_on : ∃ later ∈ samples, finish < later.time) :
    (∃ closing ∈ samples, closing.time = finish ∧ ¬rule.breaches closing) ∧
    (∃ last, rule.LatestSustained samples finish last ∧ window.start ≤ last.time ∧
      rule.recovery < finish.since last.time) ∧
    ((∀ sample ∈ samples, sample.time.isLeap = false) →
      (rule.RestedFrom (rule.breaches ·) samples finish ↔
        rule.RestedFrom (rule.Short samples) samples finish) ∧
      (rule.dwell ≤ .zero → rule.RestedFrom (rule.breaches ·) samples finish)) := by
  obtain ⟨⟨first, first_sustained, start⟩, ending⟩ := window_bounds ascending listed ended
  obtain ⟨sample, recovered, after_start, rfl, _⟩ : rule.FirstRecovery samples window.start finish := by
    rcases ending with recovery | ⟨last, at_end, rfl⟩
    · exact recovery
    · obtain ⟨later, member, after⟩ := goes_on
      exact absurd after (not_lt_of_ge (le_last ascending at_end member))
  obtain ⟨last, latest, late⟩ := latest_of_recovered ascending recovered
  have calm : ¬rule.breaches sample := by
    obtain ⟨_, _, _, recovers⟩ := recovered
    exact recovers.1
  rw [start] at after_start ⊢
  refine ⟨⟨sample, recovered.mem, rfl, calm⟩,
    ⟨last, latest, latest.latest first first_sustained after_start, late⟩, fun regular => ?_⟩
  have sustained : rule.RestedFrom (rule.Sustained samples) samples sample.time := by
    intro other member before sustained
    have order := latest.latest other sustained before
    have longer := Instant.since_le_since (regular sample recovered.mem) (regular other member)
      (regular last latest.sustained.mem) order
    exact Int.lt_of_lt_of_le late longer
  constructor
  · constructor
    · intro rested other member before short
      exact rested other member before short.1
    · intro short other member before breach
      by_cases dwelt : rule.Sustained samples other
      · exact sustained other member before dwelt
      · exact short other member before ⟨breach, dwelt⟩
  · intro no_dwell other member before breach
    exact sustained other member before (sustained_of_no_dwell ascending regular no_dwell member breach)

/-- A value above two for a second, and once more for a single sample while the alert waits to recover. -/
def briefReturn : List Sample :=
  [(0, 3), (1, 3), (2, 1), (3, 3), (4, 1), (5, 1)].filterMap fun (second, value) =>
    (Instant.make? second 0).map (⟨·, .number (.ofInt value)⟩)

/-- Values above two for a second, with two seconds to recover. -/
def aboveTwoForASecond : ThresholdRule := ⟨.ofInt 2, .greater, .ofMillis 2000, .ofMillis 1000⟩

/-- The instant of the sample that closes the window. -/
def briefReturnEnd : Instant := (Instant.make? 4 0).getD .epoch

theorem briefReturn_window : ∃ window ∈ aboveTwoForASecond.windows briefReturn,
    window.finish = some briefReturnEnd := by
  decide

theorem briefReturn_recovers : ∃ window ∈ aboveTwoForASecond.windows briefReturn,
    window.finish = some briefReturnEnd ∧
    (∃ last, aboveTwoForASecond.LatestSustained briefReturn briefReturnEnd last ∧
      window.start ≤ last.time ∧ aboveTwoForASecond.recovery < briefReturnEnd.since last.time) ∧
    (aboveTwoForASecond.RestedFrom (aboveTwoForASecond.breaches ·) briefReturn briefReturnEnd ↔
      aboveTwoForASecond.RestedFrom (aboveTwoForASecond.Short briefReturn) briefReturn
        briefReturnEnd) := by
  obtain ⟨window, listed, ended⟩ := briefReturn_window
  obtain ⟨_, latest, rested⟩ := closing_rule_holds_iff aboveTwoForASecond
    (show briefReturn.Pairwise fun a b => a.time < b.time by decide) listed ended (by decide)
  exact ⟨window, listed, ended, latest, (rested (by decide)).1⟩

/-- The window closes one second after a breach, although two seconds are to pass. -/
theorem briefReturn_not_rested : (briefReturn.Pairwise fun a b => a.time < b.time) ∧
    (∃ window ∈ aboveTwoForASecond.windows briefReturn, window.finish = some briefReturnEnd) ∧
    (∃ later ∈ briefReturn, briefReturnEnd < later.time) ∧
    ¬aboveTwoForASecond.RestedFrom (aboveTwoForASecond.breaches ·) briefReturn briefReturnEnd := by
  refine ⟨by decide, briefReturn_window, by decide, fun rested => ?_⟩
  have breach : ∃ sample ∈ briefReturn, sample.time < briefReturnEnd ∧
      aboveTwoForASecond.breaches sample ∧
      ¬aboveTwoForASecond.recovery < briefReturnEnd.since sample.time := by
    decide
  obtain ⟨sample, member, before, breaches, early⟩ := breach
  exact early (rested sample member before breaches)

end MetricEngine.ThresholdRule
