/-!
Spans of time in nanoseconds. A span that is stated as a number must not be longer than the
largest signed 64-bit count of milliseconds; `none` stands for one that is.
-/
namespace MetricEngine

structure Span where
  nanos : Int
deriving DecidableEq, Inhabited

namespace Span

def zero : Span := ⟨0⟩

instance : LE Span := ⟨fun a b => a.nanos ≤ b.nanos⟩
instance : LT Span := ⟨fun a b => a.nanos < b.nanos⟩
instance (a b : Span) : Decidable (a ≤ b) := inferInstanceAs (Decidable (a.nanos ≤ b.nanos))
instance (a b : Span) : Decidable (a < b) := inferInstanceAs (Decidable (a.nanos < b.nanos))

def nanosPerMilli : Int := 1000000

def nanosPerSecond : Int := 1000000000

def maxMillis : Int := 9223372036854775807

def ofMillis (millis : Int) : Span := ⟨millis * nanosPerMilli⟩

def ofMillis? (millis : Int) : Option Span :=
  if -maxMillis ≤ millis && millis ≤ maxMillis then some (ofMillis millis) else none

def ofSeconds? (seconds : Int) : Option Span := ofMillis? (seconds * 1000)

def ofMinutes? (minutes : Int) : Option Span := ofMillis? (minutes * 60000)

/-- Whole milliseconds, rounded toward zero. -/
def millis (span : Span) : Int := span.nanos.tdiv nanosPerMilli

/-- Whole minutes, rounded toward zero. -/
def minutes (span : Span) : Int := span.nanos.tdiv 60000000000

end Span
end MetricEngine
