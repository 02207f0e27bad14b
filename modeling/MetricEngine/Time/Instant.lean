import MetricEngine.Time.Span

/-!
Instants of coordinated universal time with nanoseconds, from the first second of the year -262143
to the last one of the year 262142. The last second of any minute may be followed by a leap second;
its instants come after that second and before the next one, and no count of seconds includes it.
Arithmetic that leaves the range has no result.
-/
namespace MetricEngine

structure Instant where
  /-- Seconds since 1970-01-01T00:00:00 without leap seconds. -/
  second : Int
  /-- Nanoseconds since the start of that second; the leap second behind it starts at 1000000000. -/
  nanos : Nat
  earliest_le : -8334601228800 ≤ second
  le_latest : second ≤ 8210266876799
  nanos_lt : nanos < 2000000000
  leap_ends_minute : 1000000000 ≤ nanos → second % 60 = 59
deriving DecidableEq

namespace Instant

def earliest : Instant := ⟨-8334601228800, 0, by decide, by decide, by decide, by decide⟩

/-- The latest instant outside a leap second. -/
def latest : Instant := ⟨8210266876799, 999999999, by decide, by decide, by decide, by decide⟩

def epoch : Instant := ⟨0, 0, by decide, by decide, by decide, by decide⟩

instance : Inhabited Instant := ⟨epoch⟩

/-- A number that orders instants; a second takes up as much as itself and a leap second. -/
def place (t : Instant) : Int :=
  t.second * 2000000000 + t.nanos

instance : LE Instant := ⟨fun a b => a.place ≤ b.place⟩
instance : LT Instant := ⟨fun a b => a.place < b.place⟩
instance (a b : Instant) : Decidable (a ≤ b) := inferInstanceAs (Decidable (a.place ≤ b.place))
instance (a b : Instant) : Decidable (a < b) := inferInstanceAs (Decidable (a.place < b.place))

def make? (second : Int) (nanos : Nat) : Option Instant :=
  if h : (-8334601228800 ≤ second ∧ second ≤ 8210266876799) ∧
      nanos < 2000000000 ∧ (1000000000 ≤ nanos → second % 60 = 59) then
    some ⟨second, nanos, h.1.1, h.1.2, h.2.1, h.2.2⟩
  else none

/-- The instant outside leap seconds that is so many nanoseconds after the epoch. -/
def ofNanos? (nanos : Int) : Option Instant :=
  make? (nanos / Span.nanosPerSecond) (nanos % Span.nanosPerSecond).toNat

def ofMillis? (millis : Int) : Option Instant :=
  ofNanos? (millis * Span.nanosPerMilli)

/-- Whether an instant lies in a leap second. -/
def isLeap (t : Instant) : Bool :=
  1000000000 ≤ t.nanos

def secondOfDay (t : Instant) : Int :=
  t.second % 86400

/-- Nanoseconds since the epoch as if leap seconds delayed nothing. -/
def sinceEpoch (t : Instant) : Int :=
  t.second * Span.nanosPerSecond + t.nanos

/-- Time passes through the leap second in which it starts, and through no other one. -/
def add? (t : Instant) (span : Span) : Option Instant :=
  let moved := t.nanos + span.nanos
  if t.isLeap && Span.nanosPerSecond ≤ moved then
    if moved < 2 * Span.nanosPerSecond then make? t.second moved.toNat
    else ofNanos? (t.sinceEpoch + span.nanos - Span.nanosPerSecond)
  else ofNanos? (t.sinceEpoch + span.nanos)

def sub? (t : Instant) (span : Span) : Option Instant :=
  t.add? ⟨-span.nanos⟩

/-- The span from `earlier` to `t`. A leap second in which one of the two lies is counted if the other
one is later by the time of day. -/
def since (t earlier : Instant) : Span :=
  let whole := t.sinceEpoch - earlier.sinceEpoch
  if earlier.isLeap && earlier.secondOfDay < t.secondOfDay then ⟨whole + Span.nanosPerSecond⟩
  else if t.isLeap && t.secondOfDay < earlier.secondOfDay then ⟨whole - Span.nanosPerSecond⟩
  else ⟨whole⟩

/-- Whole milliseconds since the epoch, rounded toward the past. -/
def millis (t : Instant) : Int :=
  t.second * 1000 + t.nanos / 1000000

end Instant
end MetricEngine
