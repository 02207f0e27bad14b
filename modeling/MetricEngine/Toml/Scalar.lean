import MetricEngine.Binary64.Reader
import MetricEngine.Time.Rfc3339

/-!
Numbers and dates of TOML documents. Digits may be grouped by single underscores.
-/
namespace MetricEngine.Toml
open Text

/-- Single underscores may stand between digits. -/
def groupedDigits? (isDigit : Char → Bool) : List Char → Option (List Char)
  | [] => none
  | [c] => if isDigit c then some [c] else none
  | c :: '_' :: rest => if isDigit c then (groupedDigits? isDigit rest).map (c :: ·) else none
  | c :: rest => if isDigit c then (groupedDigits? isDigit rest).map (c :: ·) else none

def isDigitIn (base : Nat) (c : Char) : Bool :=
  match hexValue? c with
  | some value => value < base
  | none => false

def inBase? (base : Nat) (s : List Char) : Option Int := do
  let digits ← groupedDigits? (isDigitIn base) s
  let values ← digits.mapM hexValue?
  return ((values.foldl (fun n v => base * n + v) 0 : Nat) : Int)

/-- Decimal digits without a leading zero. -/
def decimal? (digits : List Char) : Option Int :=
  match digits with
  | '0' :: _ :: _ => none
  | digits => inBase? 10 digits

/-- A decimal integer with an optional sign, or one in base 16, 8 or 2. -/
def anyInteger? (s : List Char) : Option Int :=
  match s with
  | '0' :: 'x' :: digits => inBase? 16 digits
  | '0' :: 'o' :: digits => inBase? 8 digits
  | '0' :: 'b' :: digits => inBase? 2 digits
  | '+' :: digits => decimal? digits
  | '-' :: digits => (decimal? digits).map Int.neg
  | digits => decimal? digits

/-- An integer that fits 64 bits. -/
def integer? (s : List Char) : Option Int :=
  (anyInteger? s).filter fitsInt64

def dropSign (s : List Char) : List Char :=
  match s with
  | '+' :: rest => rest
  | '-' :: rest => rest
  | rest => rest

def isExponentMark (c : Char) : Bool :=
  c = 'e' || c = 'E'

/-- The part of a float behind its integer: decimals, an exponent or both. -/
def isFractionOrExponent (s : List Char) : Bool :=
  let isExponent (s : List Char) : Bool :=
    match s with
    | [] => true
    | _ :: digits => (groupedDigits? Char.isDigit (dropSign digits)).isSome
  match s with
  | [] => false
  | '.' :: rest =>
    (groupedDigits? Char.isDigit (rest.takeWhile fun c => !isExponentMark c)).isSome &&
      isExponent (rest.dropWhile fun c => !isExponentMark c)
  | rest => isExponent rest

/-- A decimal integer with decimals or an exponent, or a named value. What is too large for a number is
refused unless it is negative. -/
def float? (s : List Char) : Option Binary64 :=
  let isWhole (c : Char) : Bool := c ≠ '.' && !isExponentMark c
  let digits := dropSign s
  if String.ofList digits = "inf" || String.ofList digits = "nan" then Binary64.read? s
  else if (decimal? (digits.takeWhile isWhole)).isSome &&
      isFractionOrExponent (digits.dropWhile isWhole) then
    (Binary64.read? (s.filter (· ≠ '_'))).filter fun x => x ≠ .infinity
  else none

def dropChar? (c : Char) (s : List Char) : Option (List Char) :=
  match s with
  | d :: rest => if d = c then some rest else none
  | [] => none

/-- A day of the calendar with a year of four digits. -/
def dropDate? (s : List Char) : Option (List Char) := do
  let (century, s) ← Rfc3339.readTwoDigits? s
  let (year, s) ← Rfc3339.readTwoDigits? s
  let (month, s) ← Rfc3339.readTwoDigits? (← dropChar? '-' s)
  let (day, s) ← Rfc3339.readTwoDigits? (← dropChar? '-' s)
  let date : Calendar.Date := ⟨(100 * century + year : Nat), month, day⟩
  if date.isValid then some s else none

/-- Hours and minutes. -/
def dropMinute? (s : List Char) : Option (List Char) := do
  let (hour, s) ← Rfc3339.readTwoDigits? s
  let (minute, s) ← Rfc3339.readTwoDigits? (← dropChar? ':' s)
  if hour < 24 && minute < 60 then some s else none

/-- A time of day with seconds and optional decimals. -/
def dropTime? (s : List Char) : Option (List Char) := do
  let (second, s) ← Rfc3339.readTwoDigits? (← dropChar? ':' (← dropMinute? s))
  if 60 < second then none
  match s with
  | '.' :: c :: rest => if c.isDigit then some (rest.dropWhile Char.isDigit) else some s
  | _ => some s

def dropOffset? (s : List Char) : Option (List Char) :=
  match s with
  | 'Z' :: rest => some rest
  | 'z' :: rest => some rest
  | '+' :: rest => dropMinute? rest
  | '-' :: rest => dropMinute? rest
  | _ => none

/-- A date, a date with a time and perhaps an offset, or a time of day. -/
def dropDateTime? (s : List Char) : Option (List Char) :=
  match dropDate? s with
  | none => dropTime? s
  | some [] => some []
  | some (c :: rest) =>
    if c = 'T' || c = 't' || c = ' ' then
      match dropTime? rest with
      | some after => some ((dropOffset? after).getD after)
      | none => some (c :: rest)
    else some (c :: rest)

end MetricEngine.Toml
