import Mathlib.Order.Defs.LinearOrder
import MetricEngine.Time.Instant

/-!
Instants are linearly ordered: no two of them have the same place. Adding a span that is not negative
does not lead to an earlier one. Outside leap seconds the order is that of the time since the epoch, and the
span from an instant to a later one grows with the distance between them.
-/
namespace MetricEngine.Instant

theorem place_injective {a b : Instant} (same : a.place = b.place) : a = b := by
  have a_nanos := a.nanos_lt
  have b_nanos := b.nanos_lt
  unfold place at same
  have second : a.second = b.second := by omega
  have nanos : a.nanos = b.nanos := by omega
  cases a
  cases b
  simp_all

instance : LinearOrder Instant where
  le_refl a := Int.le_refl a.place
  le_trans _ _ _ := Int.le_trans
  lt_iff_le_not_ge _ _ := Int.lt_iff_le_and_not_ge
  le_antisymm _ _ first second := place_injective (Int.le_antisymm first second)
  le_total a b := Int.le_total a.place b.place
  toDecidableLE a b := inferInstanceAs (Decidable (a ≤ b))
  toDecidableLT a b := inferInstanceAs (Decidable (a < b))
  toDecidableEq := inferInstance

theorem make?_eq_some {second : Int} {nanos : Nat} {t : Instant} (made : make? second nanos = some t) :
    t.second = second ∧ t.nanos = nanos := by
  unfold make? at made
  split at made
  · obtain rfl := Option.some.inj made
    exact ⟨rfl, rfl⟩
  · simp at made

/-- Addition does not keep the order of instants: one before a leap second may get ahead of one in it. -/
theorem le_of_add? {t later : Instant} {span : Span} (forward : .zero ≤ span)
    (sum : t.add? span = some later) : t ≤ later := by
  have forward : 0 ≤ span.nanos := forward
  change t.second * 2000000000 + t.nanos ≤ later.second * 2000000000 + later.nanos
  have nanos_lt := t.nanos_lt
  unfold add? at sum
  simp only [isLeap, Bool.and_eq_true, decide_eq_true_eq] at sum
  split at sum
  next leap =>
    split at sum
    next within =>
      obtain ⟨second, nanos⟩ := make?_eq_some sum
      omega
    next beyond =>
      obtain ⟨second, nanos⟩ := make?_eq_some sum
      simp only [sinceEpoch, Span.nanosPerSecond] at beyond second
      omega
  next regular =>
    obtain ⟨second, nanos⟩ := make?_eq_some sum
    simp only [sinceEpoch, Span.nanosPerSecond] at regular second nanos
    omega

theorem make?_of_bounds (second : Int) (nanos : Nat) (earliest_le : earliest.second ≤ second)
    (le_latest : second ≤ latest.second) (nanos_lt : nanos < 2000000000)
    (leap : 1000000000 ≤ nanos → second % 60 = 59) :
    ∃ t, make? second nanos = some t ∧ t.second = second ∧ t.nanos = nanos :=
  ⟨⟨second, nanos, earliest_le, le_latest, nanos_lt, leap⟩,
    dif_pos ⟨⟨earliest_le, le_latest⟩, nanos_lt, leap⟩, rfl, rfl⟩

theorem ofNanos?_of_le {early late : Int} {t : Instant}
    (lower : earliest.second * Span.nanosPerSecond ≤ early) (order : early ≤ late)
    (found : ofNanos? late = some t) : ∃ sooner, ofNanos? early = some sooner ∧ sooner ≤ t := by
  obtain ⟨second, nanos⟩ := make?_eq_some found
  have le_latest := t.le_latest
  simp only [Span.nanosPerSecond, earliest] at lower second nanos
  obtain ⟨sooner, made, same_second, same_nanos⟩ :=
    make?_of_bounds (early / Span.nanosPerSecond) (early % Span.nanosPerSecond).toNat
      (by simp only [earliest, Span.nanosPerSecond]; omega)
      (by simp only [latest, Span.nanosPerSecond]; omega)
      (by simp only [Span.nanosPerSecond]; omega) (by simp only [Span.nanosPerSecond]; omega)
  refine ⟨sooner, made, ?_⟩
  change sooner.second * 2000000000 + sooner.nanos ≤ t.second * 2000000000 + t.nanos
  simp only [Span.nanosPerSecond] at same_second same_nanos
  omega

theorem add?_regular {t : Instant} (regular : t.isLeap = false) (span : Span) :
    t.add? span = ofNanos? (t.sinceEpoch + span.nanos) := by
  simp [add?, regular]

theorem add?_leap {t : Instant} {span : Span} (leap : t.isLeap) (forward : .zero ≤ span) :
    t.add? span =
      if (t.nanos : Int) + span.nanos < 2 * Span.nanosPerSecond then
        make? t.second ((t.nanos : Int) + span.nanos).toNat
      else ofNanos? (t.sinceEpoch + span.nanos - Span.nanosPerSecond) := by
  have forward : 0 ≤ span.nanos := forward
  have late : 1000000000 ≤ t.nanos := by simpa [isLeap] using leap
  have through : Span.nanosPerSecond ≤ (t.nanos : Int) + span.nanos := by
    simp only [Span.nanosPerSecond]
    omega
  simp [add?, leap, through]

/-- A shorter span leads to an instant that is no later. -/
theorem add?_of_le {t later : Instant} {short long : Span} (forward : .zero ≤ short)
    (order : short ≤ long) (sum : t.add? long = some later) :
    ∃ sooner, t.add? short = some sooner ∧ sooner ≤ later := by
  have longer : short.nanos ≤ long.nanos := order
  have not_back : 0 ≤ short.nanos := forward
  have earliest_le := t.earliest_le
  have unit : Span.nanosPerSecond = 1000000000 := rfl
  have since : t.sinceEpoch = t.second * 1000000000 + t.nanos := rfl
  have lower : earliest.second * Span.nanosPerSecond = -8334601228800000000000 := rfl
  cases leap : t.isLeap with
  | false =>
    rw [add?_regular leap] at sum ⊢
    exact ofNanos?_of_le (by omega) (by omega) sum
  | true =>
    have late : 1000000000 ≤ t.nanos := by simpa [isLeap] using leap
    rw [add?_leap leap (Int.le_trans not_back longer)] at sum
    rw [add?_leap leap forward]
    by_cases within : (t.nanos : Int) + short.nanos < 2 * Span.nanosPerSecond
    · -- The shorter span ends within the leap second, the longer one there or behind it.
      rw [if_pos within]
      obtain ⟨sooner, made, same_second, same_nanos⟩ :=
        make?_of_bounds t.second ((t.nanos : Int) + short.nanos).toNat t.earliest_le t.le_latest
          (by omega) (fun _ => t.leap_ends_minute late)
      have ahead : t.second < later.second ∨
          later.second = t.second ∧ (later.nanos : Int) = t.nanos + long.nanos := by
        split at sum
        next =>
          obtain ⟨second, nanos⟩ := make?_eq_some sum
          omega
        next =>
          obtain ⟨second, _⟩ := make?_eq_some sum
          rw [since, unit] at second
          omega
      refine ⟨sooner, made, ?_⟩
      change sooner.second * 2000000000 + sooner.nanos ≤ later.second * 2000000000 + later.nanos
      have nanos_lt := sooner.nanos_lt
      omega
    · rw [if_neg within]
      rw [if_neg (by omega)] at sum
      exact ofNanos?_of_le (by omega) (by omega) sum

theorem le_iff_sinceEpoch {a b : Instant} (a_regular : a.isLeap = false) (b_regular : b.isLeap = false) :
    a ≤ b ↔ a.sinceEpoch ≤ b.sinceEpoch := by
  change a.second * 2000000000 + a.nanos ≤ b.second * 2000000000 + b.nanos ↔ _
  simp only [isLeap, decide_eq_false_iff_not] at a_regular b_regular
  simp only [sinceEpoch, Span.nanosPerSecond]
  omega

theorem since_of_regular {t earlier : Instant} (regular : t.isLeap = false)
    (earlier_regular : earlier.isLeap = false) :
    t.since earlier = ⟨t.sinceEpoch - earlier.sinceEpoch⟩ := by
  simp [since, regular, earlier_regular]

/-- A leap second in which the later instant lies can only make the span shorter. -/
theorem since_le {t earlier : Instant} (earlier_regular : earlier.isLeap = false) :
    (t.since earlier).nanos ≤ t.sinceEpoch - earlier.sinceEpoch := by
  simp only [since, earlier_regular, Bool.false_and, Bool.false_eq_true, if_false, Span.nanosPerSecond]
  split <;> simp only <;> omega

/-- The order of the time since the epoch, unless the one that is later on that scale lies in a leap second
and the other one behind it. -/
theorem le_of_sinceEpoch {a b : Instant} (a_regular : a.isLeap = false)
    (order : a.sinceEpoch ≤ b.sinceEpoch) : a ≤ b ∨ b.isLeap ∧ b.second < a.second := by
  by_cases leap : b.isLeap
  · by_cases behind : b.second < a.second
    · exact .inr ⟨leap, behind⟩
    · left
      change a.second * 2000000000 + a.nanos ≤ b.second * 2000000000 + b.nanos
      simp only [isLeap, decide_eq_false_iff_not, decide_eq_true_eq] at a_regular leap
      omega
  · exact .inl ((le_iff_sinceEpoch a_regular (by simpa using leap)).mpr order)

/-- Near a leap second the span from the earlier one of two instants may be the shorter one. -/
theorem since_le_since {t a b : Instant} (regular : t.isLeap = false) (a_regular : a.isLeap = false)
    (b_regular : b.isLeap = false) (order : a ≤ b) : t.since b ≤ t.since a := by
  rw [since_of_regular regular a_regular, since_of_regular regular b_regular]
  have order := (le_iff_sinceEpoch a_regular b_regular).mp order
  change t.sinceEpoch - b.sinceEpoch ≤ t.sinceEpoch - a.sinceEpoch
  omega

/-- Among these instants the span to a later one grows with the distance. -/
def Steady (times : List Instant) : Prop :=
  ∀ a ∈ times, ∀ b ∈ times, ∀ t ∈ times, a ≤ b → b ≤ t → t.since b ≤ t.since a

theorem steady_of_regular {times : List Instant} (regular : ∀ t ∈ times, t.isLeap = false) :
    Steady times :=
  fun a a_listed b b_listed t t_listed order _ =>
    since_le_since (regular t t_listed) (regular a a_listed) (regular b b_listed) order

theorem zero_le_since {t earlier : Instant} (regular : t.isLeap = false)
    (earlier_regular : earlier.isLeap = false) (order : earlier ≤ t) : .zero ≤ t.since earlier := by
  rw [since_of_regular regular earlier_regular]
  have order := (le_iff_sinceEpoch earlier_regular regular).mp order
  change (0 : Int) ≤ t.sinceEpoch - earlier.sinceEpoch
  omega

/-- The milliseconds of an instant are its time since the epoch, rounded toward the past. -/
theorem millis_bounds (t : Instant) : t.millis * Span.nanosPerMilli ≤ t.sinceEpoch ∧
    t.sinceEpoch < (t.millis + 1) * Span.nanosPerMilli := by
  simp only [millis, sinceEpoch, Span.nanosPerMilli, Span.nanosPerSecond]
  omega

/-- An instant that is stated in milliseconds lies outside leap seconds. -/
theorem ofMillis?_eq_some {millis : Int} {t : Instant} (found : ofMillis? millis = some t) :
    t.isLeap = false ∧ t.sinceEpoch = millis * Span.nanosPerMilli := by
  obtain ⟨second, nanos⟩ := make?_eq_some found
  simp only [isLeap, sinceEpoch, decide_eq_false_iff_not, Span.nanosPerMilli, Span.nanosPerSecond]
    at second nanos ⊢
  omega

theorem lt_of_ofMillis? {a b : Int} {s t : Instant} (first : ofMillis? a = some s)
    (second : ofMillis? b = some t) (less : a < b) : s < t := by
  obtain ⟨s_regular, s_nanos⟩ := ofMillis?_eq_some first
  obtain ⟨t_regular, t_nanos⟩ := ofMillis?_eq_some second
  refine lt_of_not_ge fun later => ?_
  have order := (le_iff_sinceEpoch t_regular s_regular).mp later
  simp only [s_nanos, t_nanos, Span.nanosPerMilli] at order
  omega

end MetricEngine.Instant
