import Mathlib.Logic.ExistsUnique
import MetricEngine.Alert.Absence
import MetricEngine.Proofs.Alert.Windows

/-!
The windows of an alert on missing data, stated without the walk that finds them: each spans the gaps up
to the first one that heals, or up to the instant of the evaluation if none does. `Tracks` ties the state
of the walk to the instants that it has seen.
-/
namespace MetricEngine.AbsenceRule

/-- Between two neighbouring instants the dwell period is over, at `start`, before the second one. -/
structure Gap (rule : AbsenceRule) (times : List Instant) (a b start : Instant) : Prop where
  neighbours : [a, b] <:+: times
  dwelt : a.add? rule.dwell = some start
  late : start < b

/-- After a gap that ends at some instant and before the next one, two neighbouring instants without a gap
get more than the recovery period away from that end. -/
def Heals (rule : AbsenceRule) (times : List Instant) (gapEnd : Instant) : Prop :=
  ∃ c e, [c, e] <:+: times ∧ gapEnd ≤ c ∧ (∀ start, ¬rule.Gap times c e start) ∧
    (∀ a b start, rule.Gap times a b start → gapEnd ≤ a → e ≤ a) ∧ rule.recovery < e.since gapEnd

/-- A gap from `start` to `gapEnd` lies in a window that has ended. -/
def GapIn (rule : AbsenceRule) (times : List Instant) (window : AlertWindow) (start gapEnd : Instant) :
    Prop :=
  (∃ a, rule.Gap times a gapEnd start) ∧ window.Contains start ∧ window.Contains gapEnd

/-- The end of the last gap in a window. -/
def LastGap (rule : AbsenceRule) (times : List Instant) (window : AlertWindow) (gapEnd : Instant) : Prop :=
  (∃ start, rule.GapIn times window start gapEnd) ∧
    ∀ start other, rule.GapIn times window start other → other ≤ gapEnd

structure ExactWindows (rule : AbsenceRule) (now : Instant) (times : List Instant)
    (windows : List AlertWindow) : Prop where
  ordered : windows.Pairwise AlertWindow.Before
  starts : ∀ window ∈ windows, window.message = rule.message ∧ ∃ a b, rule.Gap times a b window.start
  covers : ∀ a b start, rule.Gap times a b start →
    ∃! window, window ∈ windows ∧ window.Contains start ∧ window.Contains b
  ends : ∀ window ∈ windows, ∃ gapEnd, rule.LastGap times window gapEnd ∧
    (rule.Heals times gapEnd ∧ window.finish = some gapEnd ∨
      ¬rule.Heals times gapEnd ∧ window.finish = some now)
  /-- A gap that heals is the last one in its window. -/
  separates : ∀ window ∈ windows, ∀ start gapEnd, rule.GapIn times window start gapEnd →
    rule.Heals times gapEnd → rule.LastGap times window gapEnd

/-- The dwell period after the last instant was over, at `start`, before the freshness period began. -/
def Stale (rule : AbsenceRule) (now : Instant) (times : List Instant) (start : Instant) : Prop :=
  ∃ last freshAfter, times.getLast? = some last ∧ last.add? rule.dwell = some start ∧
    now.sub? rule.freshness = some freshAfter ∧ start < freshAfter

/-- The windows that have ended are exact, and one without an end follows them exactly if the last instant
is stale. -/
def Reports (rule : AbsenceRule) (now : Instant) (times : List Instant) (windows : List AlertWindow) :
    Prop :=
  ∃ ended ongoing, windows = ended ++ ongoing ∧ rule.ExactWindows now times ended ∧
    (∀ start, rule.Stale now times start ↔ ongoing = [⟨start, none, rule.message⟩]) ∧
    ((∀ start, ¬rule.Stale now times start) ↔ ongoing = [])

variable {rule : AbsenceRule} {now a b x start : Instant} {front times : List Instant}

/-! Neighbours among instants in ascending order. -/

theorem neighbours_concat_iff {c e : Instant} :
    [c, e] <:+: front ++ [a] ++ [x] ↔ [c, e] <:+: front ++ [a] ∨ c = a ∧ e = x := by
  have final : [c, e] <:+ front ++ [a, x] ↔ c = a ∧ e = x := by
    simpa using @List.suffix_append_inj_of_length_eq _ [] front [c, e] [a, x] rfl
  rw [List.infix_concat_iff, List.append_assoc, List.singleton_append, final, or_comm]

theorem neighbours_apart (ascending : times.Pairwise (· < ·)) (neighbours : [a, b] <:+: times) :
    a < b ∧ ∀ time ∈ times, time ≤ a ∨ b ≤ time := by
  obtain ⟨before, after, rfl⟩ := neighbours
  obtain ⟨upto, _, across⟩ := List.pairwise_append.mp ascending
  obtain ⟨_, pair, ahead⟩ := List.pairwise_append.mp upto
  refine ⟨List.rel_of_pairwise_cons pair (List.mem_singleton_self b), ?_⟩
  intro time member
  rcases List.mem_append.mp member with front | back
  · rcases List.mem_append.mp front with first | middle
    · exact .inl (le_of_lt (ahead time first a List.mem_cons_self))
    · obtain rfl | rfl : time = a ∨ time = b := by simpa using middle
      · exact .inl le_rfl
      · exact .inr le_rfl
  · exact .inr (le_of_lt (across b (by simp) time back))

theorem ascending_front (ascending : (times ++ [x]).Pairwise (· < ·)) : times.Pairwise (· < ·) :=
  (List.pairwise_append.mp ascending).1

theorem lt_new (ascending : (times ++ [x]).Pairwise (· < ·)) {time : Instant} (member : time ∈ times) :
    time < x := by
  obtain ⟨_, _, later⟩ := List.pairwise_append.mp ascending
  exact later time member x (List.mem_singleton_self x)

theorem le_last (ascending : (front ++ [a]).Pairwise (· < ·)) {time : Instant}
    (member : time ∈ front ++ [a]) : time ≤ a := by
  rcases List.mem_append.mp member with before | last
  · exact le_of_lt (lt_new ascending before)
  · exact le_of_eq (List.mem_singleton.mp last)

/-! Gaps and their healing as instants are added. -/

theorem gapStart?_eq_some : rule.gapStart? a b = some start ↔ a.add? rule.dwell = some start ∧ start < b := by
  simp [gapStart?, Option.filter_eq_some_iff]

namespace Gap

theorem concat_iff {c e : Instant} :
    rule.Gap (front ++ [a] ++ [x]) c e start ↔
      rule.Gap (front ++ [a]) c e start ∨ c = a ∧ e = x ∧ rule.gapStart? a x = some start := by
  rw [gapStart?_eq_some]
  constructor
  · rintro ⟨neighbours, dwelt, late⟩
    rcases neighbours_concat_iff.mp neighbours with before | ⟨rfl, rfl⟩
    · exact .inl ⟨before, dwelt, late⟩
    · exact .inr ⟨rfl, rfl, dwelt, late⟩
  · rintro (⟨neighbours, dwelt, late⟩ | ⟨rfl, rfl, dwelt, late⟩)
    · exact ⟨neighbours_concat_iff.mpr (.inl neighbours), dwelt, late⟩
    · exact ⟨neighbours_concat_iff.mpr (.inr ⟨rfl, rfl⟩), dwelt, late⟩

theorem concat {c e : Instant} (gap : rule.Gap (front ++ [a]) c e start) :
    rule.Gap (front ++ [a] ++ [x]) c e start :=
  concat_iff.mpr (.inl gap)

theorem of_regular (regular : rule.gapStart? a x = none) {c e : Instant}
    (gap : rule.Gap (front ++ [a] ++ [x]) c e start) : rule.Gap (front ++ [a]) c e start := by
  rcases concat_iff.mp gap with gap | ⟨_, _, found⟩
  · exact gap
  · simp [regular] at found

theorem end_mem (gap : rule.Gap times a b start) : b ∈ times :=
  gap.neighbours.subset (by simp)

theorem le_start (gap : rule.Gap times a b start) (forward : .zero ≤ rule.dwell) : a ≤ start :=
  Instant.le_of_add? forward gap.dwelt

/-- A window that opens before a gap and ends behind it contains both of its ends. -/
theorem in_window (gap : rule.Gap times a b start) {opened finish : Instant} (behind : opened ≤ start)
    (within : b ≤ finish) :
    (rule.window opened finish).Contains start ∧ (rule.window opened finish).Contains b :=
  have order := le_of_lt gap.late
  ⟨⟨behind, finish, rfl, le_trans order within⟩, le_trans behind order, finish, rfl, within⟩

end Gap

/-- No gap in a window goes beyond its end. -/
theorem LastGap.of_finish {window : AlertWindow} {gapEnd : Instant}
    (inside : rule.GapIn times window start gapEnd) (ended : window.finish = some gapEnd) :
    rule.LastGap times window gapEnd := by
  refine ⟨⟨start, inside⟩, ?_⟩
  rintro _ other ⟨_, _, _, finish, same, upto⟩
  obtain rfl := Option.some.inj (ended.symm.trans same)
  exact upto

/-- A gap that heals ends before some instant. -/
theorem Heals.later (ascending : times.Pairwise (· < ·)) {gapEnd : Instant}
    (heals : rule.Heals times gapEnd) : ∃ time ∈ times, gapEnd < time := by
  obtain ⟨c, e, neighbours, behind, _⟩ := heals
  obtain ⟨order, _⟩ := neighbours_apart ascending neighbours
  exact ⟨e, neighbours.subset (by simp), lt_of_le_of_lt behind order⟩

/-- A new instant heals no gap but the last one. -/
theorem heals_concat_iff (ascending : (front ++ [a] ++ [x]).Pairwise (· < ·)) {gapEnd : Instant} :
    rule.Heals (front ++ [a] ++ [x]) gapEnd ↔
      rule.Heals (front ++ [a]) gapEnd ∨
        gapEnd ≤ a ∧ rule.gapStart? a x = none ∧
          (∀ c e start, rule.Gap (front ++ [a]) c e start → ¬gapEnd ≤ c) ∧
          rule.recovery < x.since gapEnd := by
  have upto := ascending_front ascending
  constructor
  · rintro ⟨c, e, neighbours, behind, regular, first, far⟩
    rcases neighbours_concat_iff.mp neighbours with seen | ⟨rfl, rfl⟩
    · refine .inl ⟨c, e, seen, behind, ?_, ?_, far⟩
      · exact fun start gap => regular start gap.concat
      · exact fun c' e' start gap => first c' e' start gap.concat
    · refine .inr ⟨behind, ?_, ?_, far⟩
      · refine Option.eq_none_iff_forall_ne_some.mpr fun start found => ?_
        exact regular start (Gap.concat_iff.mpr (.inr ⟨rfl, rfl, found⟩))
      · intro c' e' start gap after
        have next := first c' e' start gap.concat after
        have seen : c' ∈ front ++ [c] := gap.neighbours.subset (by simp)
        exact not_lt_of_ge next (lt_new ascending seen)
  · rintro (⟨c, e, seen, behind, regular, first, far⟩ | ⟨behind, regular, last, far⟩)
    · -- A gap that ends in the new instant begins no earlier than the pair that has healed.
      have e_seen : e ∈ front ++ [a] := seen.subset (by simp)
      refine ⟨c, e, neighbours_concat_iff.mpr (.inl seen), behind, ?_, ?_, far⟩
      · intro start gap
        rcases Gap.concat_iff.mp gap with gap | ⟨_, rfl, _⟩
        · exact regular start gap
        · exact lt_irrefl e (lt_new ascending e_seen)
      · intro c' e' start gap after
        rcases Gap.concat_iff.mp gap with gap | ⟨rfl, _, _⟩
        · exact first c' e' start gap after
        · exact le_last upto e_seen
    · refine ⟨a, x, neighbours_concat_iff.mpr (.inr ⟨rfl, rfl⟩), behind, ?_, ?_, far⟩
      · intro start gap
        rcases Gap.concat_iff.mp gap with gap | ⟨_, _, found⟩
        · exact lt_irrefl x (lt_new ascending gap.end_mem)
        · simp [regular] at found
      · intro c' e' start gap after
        rcases Gap.concat_iff.mp gap with gap | ⟨_, _, found⟩
        · exact absurd after (last c' e' start gap)
        · simp [regular] at found

theorem heals_concat_gap (ascending : (front ++ [a] ++ [x]).Pairwise (· < ·)) {gapEnd : Instant}
    (gap : rule.gapStart? a x = some start) :
    rule.Heals (front ++ [a] ++ [x]) gapEnd ↔ rule.Heals (front ++ [a]) gapEnd := by
  rw [heals_concat_iff ascending, or_iff_left]
  rintro ⟨_, regular, _⟩
  simp [gap] at regular

theorem not_heals_new (ascending : (front ++ [a] ++ [x]).Pairwise (· < ·))
    (gap : rule.gapStart? a x = some start) : ¬rule.Heals (front ++ [a] ++ [x]) x := by
  intro heals
  have upto := ascending_front ascending
  obtain ⟨time, seen, after⟩ := ((heals_concat_gap ascending gap).mp heals).later upto
  exact lt_asymm after (lt_new ascending seen)

/-- A new instant heals the last one of some gaps, or none of them. -/
theorem Heals.of_concat (ascending : (front ++ [a] ++ [x]).Pairwise (· < ·)) {c gapEnd last : Instant}
    (heals : rule.Heals (front ++ [a] ++ [x]) gapEnd) (seen : gapEnd ∈ front ++ [a])
    (gap : rule.Gap (front ++ [a]) c last start) (upto_last : gapEnd ≤ last) :
    rule.Heals (front ++ [a]) gapEnd ∨ gapEnd = last ∧ rule.recovery < x.since gapEnd := by
  have upto := ascending_front ascending
  rcases (heals_concat_iff ascending).mp heals with heals | ⟨_, _, none_behind, far⟩
  · exact .inl heals
  · refine .inr ⟨le_antisymm upto_last ?_, far⟩
    obtain ⟨_, apart⟩ := neighbours_apart upto gap.neighbours
    exact (apart gapEnd seen).resolve_left (none_behind c last start gap)

/-! The walk over instants. -/

/-- A window that was closed when its last gap had healed. -/
structure Settled (rule : AbsenceRule) (seen : List Instant) (window : AlertWindow) : Prop where
  message : window.message = rule.message
  starts : ∃ a b, rule.Gap seen a b window.start
  ends : ∃ start gapEnd, rule.GapIn seen window start gapEnd ∧ rule.Heals seen gapEnd ∧
    window.finish = some gapEnd
  separates : ∀ start gapEnd, rule.GapIn seen window start gapEnd → rule.Heals seen gapEnd →
    window.finish = some gapEnd

/-- What is known of the open window and of the windows closed before it. -/
structure Remains (rule : AbsenceRule) (seen : List Instant) (closed : List AlertWindow)
    (current : Open) : Prop where
  starts : ∃ a b, rule.Gap seen a b current.start
  last : ∃ a start, rule.Gap seen a current.lastGap start ∧ current.start ≤ start
  latest : ∀ a b start, rule.Gap seen a b start → b ≤ current.lastGap
  unhealed : ∀ a b start, rule.Gap seen a b start → current.start ≤ start → ¬rule.Heals seen b
  apart : ∀ window ∈ closed, ∃ finish, window.finish = some finish ∧ finish < current.start

/-- What the state of the walk and the closed windows say about the instants seen so far. -/
structure Tracks (rule : AbsenceRule) (seen : List Instant) (walk : Option Open)
    (closed : List AlertWindow) : Prop where
  ordered : closed.Pairwise AlertWindow.Before
  settled : ∀ window ∈ closed, rule.Settled seen window
  covers : ∀ a b start, rule.Gap seen a b start →
    (∃ window ∈ closed, window.Contains start ∧ window.Contains b) ∨
      ∃ current, walk = some current ∧ current.start ≤ start
  remains : ∀ current, walk = some current → rule.Remains seen closed current

namespace Settled
variable {window : AlertWindow}

/-- It ended before the last instant that was seen. -/
theorem ends_before (settled : rule.Settled (front ++ [a]) window)
    (ascending : (front ++ [a]).Pairwise (· < ·)) : ∃ finish, window.finish = some finish ∧ finish < a := by
  obtain ⟨start, gapEnd, _, heals, ended⟩ := settled.ends
  obtain ⟨time, seen, after⟩ := heals.later ascending
  exact ⟨gapEnd, ended, lt_of_lt_of_le after (le_last ascending seen)⟩

/-- New gaps lie behind it. -/
theorem gapIn_concat (settled : rule.Settled (front ++ [a]) window)
    (ascending : (front ++ [a] ++ [x]).Pairwise (· < ·)) {gapEnd : Instant} :
    rule.GapIn (front ++ [a] ++ [x]) window start gapEnd ↔
      rule.GapIn (front ++ [a]) window start gapEnd := by
  have upto := ascending_front ascending
  constructor
  · rintro ⟨⟨c, gap⟩, in_start, in_end⟩
    rcases Gap.concat_iff.mp gap with gap | ⟨_, rfl, _⟩
    · exact ⟨⟨c, gap⟩, in_start, in_end⟩
    · obtain ⟨finish, ended, before⟩ := settled.ends_before upto
      obtain ⟨_, other, same, inside⟩ := in_end
      obtain rfl := Option.some.inj (ended.symm.trans same)
      have new : a < gapEnd := lt_new ascending (by simp)
      exact absurd (lt_of_le_of_lt inside before) (lt_asymm new)
  · rintro ⟨⟨c, gap⟩, inside⟩
    exact ⟨⟨c, gap.concat⟩, inside⟩

theorem concat (settled : rule.Settled (front ++ [a]) window)
    (ascending : (front ++ [a] ++ [x]).Pairwise (· < ·)) :
    rule.Settled (front ++ [a] ++ [x]) window := by
  obtain ⟨start, last, last_in, heals, ended⟩ := settled.ends
  refine ⟨settled.message, ?_, ?_, ?_⟩
  · obtain ⟨c, e, gap⟩ := settled.starts
    exact ⟨c, e, gap.concat⟩
  · exact ⟨start, last, (settled.gapIn_concat ascending).mpr last_in,
      (heals_concat_iff ascending).mpr (.inl heals), ended⟩
  · intro other gapEnd inside heals
    obtain ⟨⟨c, gap⟩, in_start, opened, finish, same, upto_last⟩ :=
      (settled.gapIn_concat ascending).mp inside
    obtain rfl := Option.some.inj (ended.symm.trans same)
    obtain ⟨⟨before, last_gap⟩, _⟩ := last_in
    rcases heals.of_concat ascending gap.end_mem last_gap upto_last with heals | ⟨rfl, _⟩
    · exact settled.separates other gapEnd ⟨⟨c, gap⟩, in_start, opened, last, ended, upto_last⟩ heals
    · exact ended

/-- Its finish shows that its last gap has healed. -/
theorem exact (settled : rule.Settled times window) : ∃ gapEnd, rule.LastGap times window gapEnd ∧
    (rule.Heals times gapEnd ∧ window.finish = some gapEnd ∨
      ¬rule.Heals times gapEnd ∧ window.finish = some now) := by
  obtain ⟨start, gapEnd, inside, heals, ended⟩ := settled.ends
  exact ⟨gapEnd, .of_finish inside ended, .inl ⟨heals, ended⟩⟩

end Settled

namespace Tracks
variable {walk : Option Open} {closed : List AlertWindow} {current : Open}

theorem initial (short : times.length ≤ 1) : rule.Tracks times none [] where
  ordered := .nil
  settled := by simp
  covers c e start gap := by
    have long : 2 ≤ times.length := gap.neighbours.length_le
    omega
  remains := by simp

/-- The open window lies behind the closed ones, wherever it ends. -/
theorem ordered_concat (tracks : rule.Tracks times (some current) closed) (finish : Instant) :
    (closed ++ [rule.window current.start finish]).Pairwise AlertWindow.Before := by
  refine List.pairwise_append.mpr ⟨tracks.ordered, List.pairwise_singleton _ _, ?_⟩
  intro window member new final
  obtain rfl := List.mem_singleton.mp final
  exact (tracks.remains current rfl).apart window member

theorem covers_concat (tracks : rule.Tracks times (some current) closed) {finish : Instant}
    (gap : rule.Gap times a b start) (within : b ≤ finish) :
    ∃ window ∈ closed ++ [rule.window current.start finish],
      window.Contains start ∧ window.Contains b := by
  rcases tracks.covers a b start gap with ⟨window, member, inside⟩ | ⟨_, same, behind⟩
  · exact ⟨window, List.mem_append_left _ member, inside⟩
  · obtain rfl := Option.some.inj same
    exact ⟨_, List.mem_append_right _ (List.mem_singleton_self _), gap.in_window behind within⟩

theorem settled_concat {walk : Option Open} (tracks : rule.Tracks (front ++ [a]) walk closed)
    (ascending : (front ++ [a] ++ [x]).Pairwise (· < ·)) :
    ∀ window ∈ closed, rule.Settled (front ++ [a] ++ [x]) window :=
  fun window member => (tracks.settled window member).concat ascending

/-- A first gap opens a window. -/
theorem opens (tracks : rule.Tracks (front ++ [a]) none closed)
    (ascending : (front ++ [a] ++ [x]).Pairwise (· < ·)) (forward : .zero ≤ rule.dwell)
    (found : rule.gapStart? a x = some start) :
    rule.Tracks (front ++ [a] ++ [x]) (some ⟨start, x⟩) closed := by
  have upto := ascending_front ascending
  have new : rule.Gap (front ++ [a] ++ [x]) a x start := Gap.concat_iff.mpr (.inr ⟨rfl, rfl, found⟩)
  have apart : ∀ window ∈ closed, ∃ finish, window.finish = some finish ∧ finish < start := by
    intro window member
    obtain ⟨finish, ended, before⟩ := (tracks.settled window member).ends_before upto
    exact ⟨finish, ended, lt_of_lt_of_le before (new.le_start forward)⟩
  have covered : ∀ c e other, rule.Gap (front ++ [a]) c e other →
      ∃ window ∈ closed, window.Contains other ∧ window.Contains e := by
    intro c e other gap
    rcases tracks.covers c e other gap with inside | ⟨_, none_open, _⟩
    · exact inside
    · simp at none_open
  refine ⟨tracks.ordered, tracks.settled_concat ascending, ?_, ?_⟩
  · intro c e other gap
    rcases Gap.concat_iff.mp gap with gap | ⟨rfl, rfl, same⟩
    · exact .inl (covered c e other gap)
    · obtain rfl := Option.some.inj (found.symm.trans same)
      exact .inr ⟨_, rfl, le_rfl⟩
  · rintro current opened
    obtain rfl := Option.some.inj opened
    refine ⟨⟨a, x, new⟩, ⟨a, start, new, le_rfl⟩, ?_, ?_, apart⟩
    · exact fun c e other gap => le_last ascending gap.end_mem
    · intro c e other gap behind
      rcases Gap.concat_iff.mp gap with gap | ⟨_, rfl, _⟩
      · obtain ⟨window, member, ⟨_, finish, ended, inside⟩, _⟩ := covered c e other gap
        obtain ⟨_, same, before⟩ := apart window member
        obtain rfl := Option.some.inj (ended.symm.trans same)
        exact absurd (le_trans behind inside) (not_le_of_gt before)
      · exact not_heals_new ascending found

/-- A further gap lets the open window go on. -/
theorem goes_on (tracks : rule.Tracks (front ++ [a]) (some current) closed)
    (ascending : (front ++ [a] ++ [x]).Pairwise (· < ·)) (forward : .zero ≤ rule.dwell)
    (found : rule.gapStart? a x = some start) :
    rule.Tracks (front ++ [a] ++ [x]) (some { current with lastGap := x }) closed := by
  have upto := ascending_front ascending
  have new : rule.Gap (front ++ [a] ++ [x]) a x start := Gap.concat_iff.mpr (.inr ⟨rfl, rfl, found⟩)
  have remains := tracks.remains current rfl
  have started : current.start ≤ start := by
    obtain ⟨c, other, gap, started⟩ := remains.last
    calc
      current.start ≤ other := started
      _ ≤ current.lastGap := le_of_lt gap.late
      _ ≤ a := le_last upto gap.end_mem
      _ ≤ start := new.le_start forward
  refine ⟨tracks.ordered, tracks.settled_concat ascending, ?_, ?_⟩
  · intro c e other gap
    rcases Gap.concat_iff.mp gap with gap | ⟨rfl, rfl, same⟩
    · rcases tracks.covers c e other gap with inside | ⟨_, same, behind⟩
      · exact .inl inside
      · obtain rfl := Option.some.inj same
        exact .inr ⟨_, rfl, behind⟩
    · obtain rfl := Option.some.inj (found.symm.trans same)
      exact .inr ⟨_, rfl, started⟩
  · rintro opened same
    obtain rfl := Option.some.inj same
    obtain ⟨c, e, first⟩ := remains.starts
    refine ⟨⟨c, e, first.concat⟩, ⟨a, start, new, started⟩, ?_, ?_, remains.apart⟩
    · exact fun c e other gap => le_last ascending gap.end_mem
    · intro c e other gap behind
      rcases Gap.concat_iff.mp gap with gap | ⟨_, rfl, _⟩
      · rw [heals_concat_gap ascending found]
        exact remains.unhealed c e other gap behind
      · exact not_heals_new ascending found

/-- Without a gap the walk stays as it is unless the last gap has healed. -/
theorem stays {walk : Option Open} (tracks : rule.Tracks (front ++ [a]) walk closed)
    (ascending : (front ++ [a] ++ [x]).Pairwise (· < ·)) (regular : rule.gapStart? a x = none)
    (near : ∀ current, walk = some current → ¬rule.recovery < x.since current.lastGap) :
    rule.Tracks (front ++ [a] ++ [x]) walk closed := by
  have no_gap : ∀ {c e start}, rule.Gap (front ++ [a] ++ [x]) c e start →
      rule.Gap (front ++ [a]) c e start := Gap.of_regular regular
  refine ⟨tracks.ordered, tracks.settled_concat ascending, ?_, ?_⟩
  · exact fun c e start gap => tracks.covers c e start (no_gap gap)
  · intro current opened
    have remains := tracks.remains current opened
    obtain ⟨c, e, first⟩ := remains.starts
    obtain ⟨before, other, last, started⟩ := remains.last
    refine ⟨⟨c, e, first.concat⟩, ⟨before, other, last.concat, started⟩, ?_, ?_, remains.apart⟩
    · exact fun c e start gap => remains.latest c e start (no_gap gap)
    · intro c e start gap behind heals
      have gap := no_gap gap
      rcases heals.of_concat ascending gap.end_mem last (remains.latest c e start gap) with
        heals | ⟨rfl, far⟩
      · exact remains.unhealed c e start gap behind heals
      · exact near current opened far

/-- An open window is closed when its last gap has healed. -/
theorem closes (tracks : rule.Tracks (front ++ [a]) (some current) closed)
    (ascending : (front ++ [a] ++ [x]).Pairwise (· < ·)) (regular : rule.gapStart? a x = none)
    (far : rule.recovery < x.since current.lastGap) :
    rule.Tracks (front ++ [a] ++ [x]) none (closed ++ [rule.window current.start current.lastGap]) := by
  have upto := ascending_front ascending
  have remains := tracks.remains current rfl
  obtain ⟨c, e, first⟩ := remains.starts
  obtain ⟨before, start, last, started⟩ := remains.last
  have no_gap : ∀ {c e start}, rule.Gap (front ++ [a] ++ [x]) c e start →
      rule.Gap (front ++ [a]) c e start := Gap.of_regular regular
  have heals : rule.Heals (front ++ [a] ++ [x]) current.lastGap := by
    refine (heals_concat_iff ascending).mpr (.inr ⟨le_last upto last.end_mem, regular, ?_, far⟩)
    intro c e start gap behind
    have order := (neighbours_apart upto gap.neighbours).1
    exact absurd (remains.latest c e start gap) (not_le_of_gt (lt_of_le_of_lt behind order))
  have settled : rule.Settled (front ++ [a] ++ [x]) (rule.window current.start current.lastGap) := by
    refine ⟨rfl, ⟨c, e, first.concat⟩, ?_, ?_⟩
    · exact ⟨start, current.lastGap, ⟨⟨before, last.concat⟩, last.in_window started le_rfl⟩, heals, rfl⟩
    · rintro other gapEnd ⟨⟨c, gap⟩, ⟨behind, _⟩, _⟩ heals
      have gap := no_gap gap
      rcases heals.of_concat ascending gap.end_mem last (remains.latest c gapEnd other gap) with
        heals | ⟨rfl, _⟩
      · exact absurd heals (remains.unhealed c gapEnd other gap behind)
      · rfl
  refine ⟨tracks.ordered_concat _, ?_, ?_, by simp⟩
  · intro window member
    rcases List.mem_append.mp member with old | final
    · exact tracks.settled_concat ascending window old
    · obtain rfl := List.mem_singleton.mp final
      exact settled
  · intro c e other gap
    have gap := no_gap gap
    exact .inl (tracks.covers_concat gap (remains.latest c e other gap))

theorem step {walk : Option Open} (tracks : rule.Tracks (front ++ [a]) walk closed)
    (ascending : (front ++ [a] ++ [x]).Pairwise (· < ·)) (forward : .zero ≤ rule.dwell) :
    rule.Tracks (front ++ [a] ++ [x]) (rule.step walk a x).1 (closed ++ (rule.step walk a x).2.toList) := by
  cases gap : rule.gapStart? a x with
  | some start =>
    cases walk with
    | none => simpa [AbsenceRule.step, gap] using tracks.opens ascending forward gap
    | some current => simpa [AbsenceRule.step, gap] using tracks.goes_on ascending forward gap
  | none =>
    cases walk with
    | none => simpa [AbsenceRule.step, gap] using tracks.stays ascending gap (by simp)
    | some current =>
      by_cases far : rule.recovery < x.since current.lastGap
      · simpa [AbsenceRule.step, gap, far] using tracks.closes ascending gap far
      · have near : ∀ other, some current = some other → ¬rule.recovery < x.since other.lastGap :=
          fun other same => Option.some.inj same ▸ far
        simpa [AbsenceRule.step, gap, far] using tracks.stays ascending gap near

/-! The windows of a whole series. -/

theorem covered_once {windows : List AlertWindow} (ordered : windows.Pairwise AlertWindow.Before)
    (covered : ∃ window ∈ windows, window.Contains start ∧ window.Contains b) :
    ∃! window, window ∈ windows ∧ window.Contains start ∧ window.Contains b := by
  obtain ⟨window, member, in_start, in_end⟩ := covered
  refine ⟨window, ⟨member, in_start, in_end⟩, ?_⟩
  rintro other ⟨listed, _, also⟩
  exact AlertWindow.contains_unique ordered listed member also in_end

/-- If no window is open at the end, those that were closed are all. -/
theorem exact_closed (tracks : rule.Tracks times none closed) : rule.ExactWindows now times closed where
  ordered := tracks.ordered
  starts window member := ⟨(tracks.settled window member).message, (tracks.settled window member).starts⟩
  covers c e start gap := by
    refine covered_once tracks.ordered ?_
    rcases tracks.covers c e start gap with covered | ⟨_, none_open, _⟩
    · exact covered
    · simp at none_open
  ends window member := (tracks.settled window member).exact
  separates window member start gapEnd inside heals :=
    LastGap.of_finish inside ((tracks.settled window member).separates start gapEnd inside heals)

/-- A window that is open at the end is ended by the evaluation. -/
theorem exact_open (tracks : rule.Tracks times (some current) closed) (past : ∀ time ∈ times, time ≤ now) :
    rule.ExactWindows now times (closed ++ [rule.window current.start now]) := by
  have remains := tracks.remains current rfl
  obtain ⟨c, start, last, started⟩ := remains.last
  have ordered := tracks.ordered_concat now
  refine ⟨ordered, ?_, ?_, ?_, ?_⟩
  · intro window member
    rcases List.mem_append.mp member with before | final
    · exact ⟨(tracks.settled window before).message, (tracks.settled window before).starts⟩
    · obtain rfl := List.mem_singleton.mp final
      exact ⟨rfl, remains.starts⟩
  · intro c e other gap
    exact covered_once ordered (tracks.covers_concat gap (past e gap.end_mem))
  · intro window member
    rcases List.mem_append.mp member with before | final
    · exact (tracks.settled window before).exact
    · obtain rfl := List.mem_singleton.mp final
      have within := last.in_window started (past current.lastGap last.end_mem)
      refine ⟨current.lastGap, ⟨⟨start, ⟨c, last⟩, within⟩, ?_⟩, .inr ⟨?_, rfl⟩⟩
      · rintro other gapEnd ⟨⟨c, gap⟩, _⟩
        exact remains.latest c gapEnd other gap
      · exact remains.unhealed c current.lastGap start last started
  · intro window member other gapEnd within heals
    rcases List.mem_append.mp member with before | final
    · exact .of_finish within ((tracks.settled window before).separates other gapEnd within heals)
    · obtain rfl := List.mem_singleton.mp final
      obtain ⟨⟨c, gap⟩, ⟨behind, _⟩, _⟩ := within
      exact absurd heals (remains.unhealed c gapEnd other gap behind)

end Tracks

theorem walkFrom_exact (forward : .zero ≤ rule.dwell) (rest : List Instant) :
    ∀ {front : List Instant} {a : Instant} {walk : Option Open} {closed : List AlertWindow},
      rule.Tracks (front ++ [a]) walk closed → (front ++ a :: rest).Pairwise (· < ·) →
      (∀ time ∈ front ++ a :: rest, time ≤ now) →
      rule.ExactWindows now (front ++ a :: rest) (closed ++ rule.walkFrom now walk (a :: rest)) := by
  -- The walk needs the last instant seen and those ahead, `Tracks` all of those seen.
  induction rest with
  | nil =>
    intro front a walk closed tracks _ past
    cases walk with
    | none => simpa [walkFrom] using tracks.exact_closed
    | some current => exact tracks.exact_open past
  | cons b rest ih =>
    intro front a walk closed tracks ascending past
    have split : front ++ a :: b :: rest = (front ++ [a]) ++ b :: rest := List.append_cons ..
    rw [split] at ascending past ⊢
    have upto : (front ++ [a] ++ [b]).Pairwise (· < ·) := by
      refine ascending.sublist ?_
      simp
    have whole := ih (tracks.step upto forward) ascending past
    rw [List.append_assoc closed] at whole
    exact whole

theorem stale?_eq_some {last : Instant} {window : AlertWindow} (ended : times.getLast? = some last) :
    rule.stale? now last = some window ↔
      ∃ start, rule.Stale now times start ∧ window = ⟨start, none, rule.message⟩ := by
  simp only [stale?, Stale, ended, Option.bind_eq_bind, Option.bind_eq_some_iff, Option.some.injEq,
    Option.pure_def, Option.ite_none_right_eq_some]
  constructor
  · rintro ⟨start, dwelt, freshAfter, fresh, old, rfl⟩
    exact ⟨start, ⟨last, freshAfter, rfl, dwelt, fresh, old⟩, rfl⟩
  · rintro ⟨start, ⟨_, freshAfter, rfl, dwelt, fresh, old⟩, rfl⟩
    exact ⟨start, dwelt, freshAfter, fresh, old, rfl⟩

theorem reports_of_exact {last : Instant} {windows : List AlertWindow}
    (ended : times.getLast? = some last) (exact_windows : rule.ExactWindows now times windows) :
    rule.Reports now times (windows ++ (rule.stale? now last).toList) := by
  refine ⟨windows, _, rfl, exact_windows, ?_, ?_⟩
  · intro start
    have same : (rule.stale? now last).toList = [⟨start, none, rule.message⟩] ↔
        rule.stale? now last = some ⟨start, none, rule.message⟩ := by
      cases rule.stale? now last <;> simp
    rw [same, stale?_eq_some ended]
    simp
  · rw [Option.toList_eq_nil_iff, Option.eq_none_iff_forall_ne_some]
    simp only [ne_eq, stale?_eq_some ended]
    constructor
    · rintro fresh window ⟨start, stale, _⟩
      exact fresh start stale
    · intro none start stale
      exact none _ ⟨start, stale, rfl⟩

theorem windows_reports (rule : AbsenceRule) {now : Instant} {samples : List Sample}
    (forward : .zero ≤ rule.dwell) (ascending : samples.Pairwise fun a b => a.time < b.time)
    (past : ∀ sample ∈ samples, sample.time ≤ now) :
    rule.Reports now (samples.map (·.time)) (rule.windows now samples) := by
  have ascending : (samples.map (·.time)).Pairwise (· < ·) := List.pairwise_map.mpr ascending
  have past : ∀ time ∈ samples.map (·.time), time ≤ now := by simpa using past
  rw [windows]
  generalize samples.map (·.time) = times at ascending past ⊢
  cases times with
  | nil =>
    refine ⟨[], [], rfl, (Tracks.initial (by simp)).exact_closed, ?_, ?_⟩
    · simp [Stale]
    · simp [Stale]
  | cons first rest =>
    have ended := List.getLast?_eq_some_getLast (List.cons_ne_nil first rest)
    rw [ended]
    have tracks : rule.Tracks ([] ++ [first]) none [] := .initial (by simp)
    exact reports_of_exact ended (walkFrom_exact forward rest tracks ascending past)

/-- Over samples in strictly ascending order up to the evaluation, an alert on missing data fires exactly
in the windows that span the gaps, and behind the last sample if it is too old. -/
theorem windows_span_gaps (rule : AbsenceRule) {now : Instant} {samples : List Sample}
    (forward : .zero ≤ rule.dwell) (ascending : samples.Pairwise fun a b => a.time < b.time)
    (past : ∀ sample ∈ samples, sample.time ≤ now) :
    rule.Reports now (samples.map (·.time)) (rule.windows now samples) ∧
      (samples = [] → rule.windows now samples = []) :=
  ⟨rule.windows_reports forward ascending past, fun empty => by simp [empty, windows]⟩

/-- The first two outages are too close to each other to be told apart, and the last one goes on. -/
def threeOutages : List Sample :=
  [0, 1, 10, 11, 15, 16, 17, 30].filterMap fun second =>
    (Instant.make? second 0).map (⟨·, .number (.ofInt 1)⟩)

def twoSeconds : AbsenceRule := ⟨.ofMillis 2000, .ofMillis 1000, .ofMillis 120000⟩

def afterOutages : Instant := (Instant.make? 1000 0).getD .epoch

theorem threeOutages_reported :
    (.zero ≤ twoSeconds.dwell ∧ (threeOutages.Pairwise fun a b => a.time < b.time) ∧
      ∀ sample ∈ threeOutages, sample.time ≤ afterOutages) ∧
    twoSeconds.Reports afterOutages (threeOutages.map (·.time))
      (twoSeconds.windows afterOutages threeOutages) :=
  have forward : .zero ≤ twoSeconds.dwell := by decide
  have ascending : threeOutages.Pairwise fun a b => a.time < b.time := by decide
  have past : ∀ sample ∈ threeOutages, sample.time ≤ afterOutages := by decide
  ⟨⟨forward, ascending, past⟩, (windows_span_gaps twoSeconds forward ascending past).1⟩

example : (twoSeconds.windows afterOutages threeOutages).map (fun window => (window.start.second,
    window.finish.map (·.second))) = [(3, some 15), (19, some 1000), (32, none)] := by decide

end MetricEngine.AbsenceRule
