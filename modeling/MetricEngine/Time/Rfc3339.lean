import MetricEngine.Time.Calendar
import MetricEngine.Time.Instant
import MetricEngine.Text.Blank
import MetricEngine.Text.Integer

/-!
Instants as RFC 3339 texts. Writing uses the fewest of 0, 3, 6 and 9 decimals that are exact, and a
sign on years outside 0 to 9999. Reading is lenient about blanks, the width of fields and the
letter between date and time, but not about dates that do not exist.
-/
namespace MetricEngine.Rfc3339
open Text Calendar

/-- How the offset of coordinated universal time is written. -/
inductive Zone where
  | numeric
  | zulu

def Zone.text : Zone → String
  | .numeric => "+00:00"
  | .zulu => "Z"

def yearText (year : Int) : String :=
  if 0 ≤ year ∧ year ≤ 9999 then padded 4 year.toNat
  else (if year < 0 then "-" else "+") ++ padded 4 year.natAbs

def fractionText (nanos : Nat) : String :=
  if nanos = 0 then ""
  else if nanos % 1000000 = 0 then "." ++ padded 3 (nanos / 1000000)
  else if nanos % 1000 = 0 then "." ++ padded 6 (nanos / 1000)
  else "." ++ padded 9 nanos

/-- A leap second is the second numbered 60 of its minute. -/
def render (zone : Zone) (t : Instant) : String :=
  let date := Date.ofDayNumber (t.second / 86400)
  let second := t.secondOfDay.toNat
  yearText date.year ++ "-" ++ padded 2 date.month ++ "-" ++ padded 2 date.day ++ "T" ++
    padded 2 (second / 3600) ++ ":" ++ padded 2 (second / 60 % 60) ++ ":" ++
    padded 2 (second % 60 + if t.isLeap then 1 else 0) ++ fractionText (t.nanos % 1000000000) ++
    zone.text

/-- Between one and `most` digits. -/
def readField? (most : Nat) (s : List Char) : Option (Nat × List Char) :=
  let digits := (s.take most).takeWhile Char.isDigit
  if digits.isEmpty then none else some (digitsValue digits, s.drop digits.length)

/-- A year of at most four digits, or of any length behind a sign. -/
def readYear? (s : List Char) : Option (Int × List Char) :=
  match trimStart s with
  | '-' :: rest => (readField? rest.length rest).map fun (n, rest) => (-(n : Int), rest)
  | '+' :: rest => (readField? rest.length rest).map fun (n, rest) => ((n : Int), rest)
  | rest => (readField? 4 rest).map fun (n, rest) => ((n : Int), rest)

/-- A two-digit field after a separator, with blanks around the separator. -/
def readPart? (separator : Char) (s : List Char) : Option (Nat × List Char) :=
  match trimStart s with
  | c :: rest => if c = separator then readField? 2 (trimStart rest) else none
  | [] => none

/-- Digits past the ninth are dropped. -/
def readFraction? (s : List Char) : Option (Nat × List Char) :=
  match s with
  | '.' :: rest =>
    let digits := rest.takeWhile Char.isDigit
    if digits.isEmpty then none
    else
      let kept := digits.take 9
      some (digitsValue kept * Nat.pow 10 (9 - kept.length), rest.dropWhile Char.isDigit)
  | rest => some (0, rest)

def readTwoDigits? : List Char → Option (Nat × List Char)
  | a :: b :: rest =>
    if a.isDigit && b.isDigit then some (digitsValue [a, b], rest) else none
  | _ => none

/-- Minutes east of Greenwich. -/
def readOffset? (s : List Char) : Option (Int × List Char) :=
  let signed (sign : Int) (s : List Char) : Option (Int × List Char) := do
    let (hours, rest) ← readTwoDigits? s
    let (minutes, rest) ← readTwoDigits? (rest.dropWhile fun c => c = ':' || isBlank c)
    if 60 ≤ minutes || 24 ≤ hours then none
    return (sign * (60 * hours + minutes : Nat), rest)
  match trimStart s with
  | '+' :: rest => signed 1 rest
  | '-' :: rest => signed (-1) rest
  | '−' :: rest => signed (-1) rest
  | c :: rest =>
    if c = 'Z' || c = 'z' then some (0, rest)
    else if lower (c :: rest.take 2) = ['u', 't', 'c'] then some (0, rest.drop 2)
    else none
  | [] => none

/-- The letter or blank between date and time. -/
def readMark? : List Char → Option (List Char)
  | c :: rest => if c = 'T' || c = 't' || c = ' ' then some (trimStart rest) else none
  | [] => none

/-- A date and a time as they are written. -/
structure Reading where
  date : Date
  hour : Nat
  minute : Nat
  second : Nat
  nanos : Nat
  /-- Minutes east of Greenwich. -/
  offset : Int

def Reading.read? (s : List Char) : Option Reading := do
  let (year, rest) ← readYear? s
  let (month, rest) ← readPart? '-' rest
  let (day, rest) ← readPart? '-' rest
  let rest ← readMark? rest
  let (hour, rest) ← readField? 2 rest
  let (minute, rest) ← readPart? ':' rest
  let (second, rest) ← readPart? ':' rest
  let (nanos, rest) ← readFraction? rest
  let (offset, rest) ← readOffset? rest
  if (trimStart rest).isEmpty then some ⟨⟨year, month, day⟩, hour, minute, second, nanos, offset⟩ else none

/-- Any minute may have a second numbered 60, which is a leap second. The date and time must be in range
both as written and after the offset is taken off. -/
def Reading.instant? (reading : Reading) : Option Instant :=
  if reading.date.isValid && reading.hour < 24 && reading.minute < 60 && reading.second ≤ 60 then do
    let minuteStart := reading.date.dayNumber * 86400 + reading.hour * 3600 + reading.minute * 60
    let (second, nanos) :=
      if reading.second = 60 then (59, reading.nanos + 1000000000) else (reading.second, reading.nanos)
    let written ← Instant.make? (minuteStart + second) nanos
    Instant.make? (written.second - reading.offset * 60) nanos
  else none

def read? (text : String) : Option Instant :=
  (Reading.read? text.toList).bind Reading.instant?

end MetricEngine.Rfc3339
