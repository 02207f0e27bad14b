import MetricEngine.Time.Span
import MetricEngine.Text.Blank
import MetricEngine.Json.Printer

/-!
Periods as they are written in programs: a whole number of seconds, a number with a unit, or an
ISO 8601 duration of weeks, days, hours, minutes and seconds. A period is not negative and at most
36500 days long.
-/
namespace MetricEngine
open Text

inductive PeriodError where
  | empty
  | negative
  | outOfRange
  | notWholeSeconds (given : Json)
  | notAPeriod (given : Json)
  | malformed (text : String)
  | unknownUnit (unit text : String)
  | malformedIso (text : String)

def PeriodError.message : PeriodError → String
  | .empty => "period must not be empty"
  | .negative => "period must not be negative"
  | .outOfRange => "out of range"
  | .notWholeSeconds given => "period must be a whole number of seconds, got " ++ given.render
  | .notAPeriod given => "expected a period, got " ++ given.render
  | .malformed text => "invalid period '" ++ text ++ "'"
  | .unknownUnit unit text => "unknown period unit '" ++ unit ++ "' in '" ++ text ++ "'"
  | .malformedIso text => "invalid ISO-8601 period '" ++ text ++ "'"

namespace Period

/-- 36500 days in milliseconds. -/
def longestMillis : Int := 3153600000000

def withinBounds (millis : Int) : Except PeriodError Span :=
  if millis ≤ longestMillis then .ok (Span.ofMillis millis) else .error .outOfRange

def ofSeconds (seconds : Int) : Except PeriodError Span :=
  if seconds < 0 then .error .negative else withinBounds (seconds * 1000)

/-- Milliseconds in a unit, by its name in small letters. -/
def unitMillis? : String → Option Nat
  | "ms" | "millis" | "milliseconds" => some 1
  | "s" | "sec" | "secs" | "second" | "seconds" => some 1000
  | "m" | "min" | "mins" | "minute" | "minutes" => some 60000
  | "h" | "hr" | "hour" | "hours" => some 3600000
  | "d" | "day" | "days" => some 86400000
  | "w" | "week" | "weeks" => some 604800000
  | _ => none

/-- The half of an ISO duration that a designator stands in. -/
inductive IsoPart where
  | date
  | time
deriving DecidableEq

def IsoPart.designatorMillis? : IsoPart → Char → Option Nat
  | .date, 'W' => some 604800000
  | .date, 'D' => some 86400000
  | .time, 'H' => some 3600000
  | .time, 'M' => some 60000
  | .time, 'S' => some 1000
  | _, _ => none

/-- Splits a half into digits with the designator behind them. -/
def isoComponents? (digits : List Char) : List Char → Option (List (List Char × Char))
  | [] => if digits.isEmpty then some [] else none
  | c :: rest =>
    if c.isDigit then isoComponents? (digits ++ [c]) rest
    else if digits.isEmpty then none
    else (isoComponents? [] rest).map ((digits, c) :: ·)

/-- Counts must fit 64 bits, and so must the milliseconds of a component and of the sum so far. -/
def addComponent (part : IsoPart) (text : String) (total : Int) (component : List Char × Char) :
    Except PeriodError Int := do
  let count := (digitsValue component.1 : Int)
  if int64Max < count then throw .outOfRange
  match part.designatorMillis? component.2 with
  | none => throw (.malformedIso text)
  | some unit =>
    let millis := count * unit
    if Span.maxMillis < millis || Span.maxMillis < total + millis then throw .outOfRange
    return total + millis

def addPart (part : IsoPart) (text : String) (half : List Char) (total : Int) :
    Except PeriodError Int :=
  match isoComponents? [] half with
  | none => .error (.malformedIso text)
  | some components => components.foldlM (addComponent part text) total

/-- The text behind the leading `P`; `text` is the whole input for messages. A `T` must be followed by
a component, and there must be one component in all. -/
def ofIso (text : String) (s : List Char) : Except PeriodError Span := do
  let s := upper s
  let date := s.takeWhile (· ≠ 'T')
  let time := (s.dropWhile (· ≠ 'T')).drop 1
  if s.contains 'T' && time.isEmpty then throw (.malformedIso text)
  let total ← addPart .date text date 0
  let total ← addPart .time text time total
  if date.isEmpty && time.isEmpty then throw (.malformedIso text)
  withinBounds total

/-- A count directly followed by a unit. -/
def ofUnit (text : String) (s : List Char) : Except PeriodError Span :=
  let digits := s.takeWhile Char.isDigit
  let unit := s.dropWhile Char.isDigit
  if unit.isEmpty then .error .outOfRange
  else if digits.isEmpty then .error (.malformed text)
  else if int64Max < digitsValue digits then .error .outOfRange
  else match unitMillis? (String.ofList (lower unit)) with
    | none => .error (.unknownUnit (String.ofList unit) text)
    | some millis => withinBounds (digitsValue digits * millis)

def ofString (text : String) : Except PeriodError Span :=
  match trim text.toList with
  | [] => .error .empty
  | c :: rest =>
    if c = 'P' || c = 'p' then ofIso text rest
    else match readInt64? (c :: rest) with
      | some seconds => ofSeconds seconds
      | none => ofUnit text (c :: rest)

def ofJson : Json → Except PeriodError Span
  | .int n => if n ≤ int64Max then ofSeconds n else .error .outOfRange
  | .double x => .error (.notWholeSeconds (.double x))
  | .str text => ofString text
  | json => .error (.notAPeriod json)

end Period
end MetricEngine
