import MetricEngine.Json.Basic
import MetricEngine.Binary64.Reader

/-!
Reading JSON texts. Of several fields with one key the last counts, and fields are kept in key
order. Arrays and objects nest at most 127 deep.
-/
namespace MetricEngine.Json
open Text

def isSpace (c : Char) : Bool :=
  c = ' ' || c = '\n' || c = '\r' || c = '\t'

def skipSpace (s : List Char) : List Char :=
  s.dropWhile isSpace

def dropExact? : List Char → List Char → Option (List Char)
  | [], s => some s
  | c :: word, d :: s => if c = d then dropExact? word s else none
  | _ :: _, [] => none

/-- Four hexadecimal digits. -/
def readUnit? : List Char → Option (Nat × List Char)
  | a :: b :: c :: d :: rest => do
    let a ← hexValue? a
    let b ← hexValue? b
    let c ← hexValue? c
    let d ← hexValue? d
    return (a * 4096 + b * 256 + c * 16 + d, rest)
  | _ => none

/-- A character written as one code unit or as a pair of surrogates. -/
def readCodePoint? (s : List Char) : Option (Char × List Char) := do
  let (unit, rest) ← readUnit? s
  if 0xd800 ≤ unit && unit ≤ 0xdbff then
    match rest with
    | '\\' :: 'u' :: more =>
      let (low, rest) ← readUnit? more
      if 0xdc00 ≤ low && low ≤ 0xdfff then
        return (Char.ofNat (0x10000 + (unit - 0xd800) * 0x400 + (low - 0xdc00)), rest)
      else none
    | _ => none
  else if 0xdc00 ≤ unit && unit ≤ 0xdfff then none
  else return (Char.ofNat unit, rest)

def readEscape? : List Char → Option (Char × List Char)
  | '"' :: rest => some ('"', rest)
  | '\\' :: rest => some ('\\', rest)
  | '/' :: rest => some ('/', rest)
  | 'b' :: rest => some ('\x08', rest)
  | 'f' :: rest => some ('\x0c', rest)
  | 'n' :: rest => some ('\n', rest)
  | 'r' :: rest => some ('\r', rest)
  | 't' :: rest => some ('\t', rest)
  | 'u' :: rest => readCodePoint? rest
  | _ => none

/-- The characters up to the closing quote, with the collected ones in reverse. -/
def readChars? : Nat → List Char → List Char → Option (String × List Char)
  | _ + 1, collected, '"' :: rest => some (String.ofList collected.reverse, rest)
  | fuel + 1, collected, '\\' :: rest => do
    let (c, rest) ← readEscape? rest
    readChars? fuel (c :: collected) rest
  | fuel + 1, collected, c :: rest =>
    if c.toNat < 0x20 then none else readChars? fuel (c :: collected) rest
  | _, _, _ => none

def readString? (s : List Char) : Option (String × List Char) :=
  readChars? (s.length + 1) [] s

/-- The leading digits as long as their value fits 64 bits, and the digits after them. -/
def significand (limit : Nat) : Nat → List Char → Nat × List Char
  | value, [] => (value, [])
  | value, c :: rest =>
    let next := 10 * value + digitValue c
    if next ≤ limit then significand limit next rest else (value, c :: rest)

/-- The value of a literal with a fraction or an exponent, or too long for an integer. Digits past
the significand count as zeros before the point and are dropped after it. A positive exponent of
more than 31 bits is too large unless the significand is zero. -/
def readDouble? (whole fraction : List Char) (exponent : Int) : Option Binary64 :=
  let (head, cut) := significand uint64Max 0 whole
  let (digits, dropped) := significand uint64Max head fraction
  let shift := (cut.length : Int) - (fraction.length - dropped.length : Nat)
  Binary64.scaled? digits (shift + exponent)

/-- A minus sign in front of a number. -/
def readSign (s : List Char) : Bool × List Char :=
  match s with
  | '-' :: rest => (true, rest)
  | rest => (false, rest)

/-- The digits behind a point, if there is one. -/
def readFraction? (s : List Char) : Option (Option (List Char) × List Char) :=
  match s with
  | '.' :: more =>
    let digits := more.takeWhile Char.isDigit
    if digits.isEmpty then none else some (some digits, more.dropWhile Char.isDigit)
  | more => some (none, more)

/-- The sign of an exponent. -/
def readExponentSign (s : List Char) : Int × List Char :=
  match s with
  | '-' :: digits => (-1, digits)
  | '+' :: digits => (1, digits)
  | digits => (1, digits)

/-- The number behind an exponent mark, if there is one. -/
def readExponent? (s : List Char) : Option (Option Int × List Char) :=
  match s with
  | mark :: more =>
    if mark = 'e' || mark = 'E' then
      let (sign, more) := readExponentSign more
      let digits := more.takeWhile Char.isDigit
      if digits.isEmpty then none
      else some (some (sign * (digitsValue digits : Int)), more.dropWhile Char.isDigit)
    else some (none, mark :: more)
  | [] => some (none, [])

/-- The value of a literal. It is an integer if it has neither fraction nor exponent and fits 64 bits. -/
def numberValue? (negative : Bool) (whole : List Char) (fraction : Option (List Char))
    (exponent : Option Int) : Option Json :=
  let value := (digitsValue whole : Int)
  let double := (readDouble? whole (fraction.getD []) (exponent.getD 0)).map fun x =>
    Json.double (if negative then x.neg else x)
  match fraction, exponent with
  | none, none =>
    if negative then
      if 0 < value && value ≤ -int64Min then some (.int (-value)) else double
    else if value ≤ uint64Max then some (.int value) else double
  | _, _ => double

/-- A number literal: no leading zeros, digits on both sides of a point, digits in an exponent. -/
def readNumber? (s : List Char) : Option (Json × List Char) := do
  let (negative, s) := readSign s
  let whole := s.takeWhile Char.isDigit
  if whole.isEmpty || (whole.length != 1 && whole.head? == some '0') then none
  let (fraction, rest) ← readFraction? (s.dropWhile Char.isDigit)
  let (exponent, rest) ← readExponent? rest
  return (← numberValue? negative whole fraction exponent, rest)

mutual

/-- One value; `depth` is how many brackets may still be opened. -/
def readValue? : Nat → Nat → List Char → Option (Json × List Char)
  | 0, _, _ => none
  | fuel + 1, depth, s =>
    match skipSpace s with
    | 'n' :: rest => (dropExact? ['u', 'l', 'l'] rest).map (.null, ·)
    | 't' :: rest => (dropExact? ['r', 'u', 'e'] rest).map (.bool true, ·)
    | 'f' :: rest => (dropExact? ['a', 'l', 's', 'e'] rest).map (.bool false, ·)
    | '"' :: rest => (readString? rest).map fun (text, rest) => (.str text, rest)
    | '[' :: rest =>
      match depth with
      | 0 => none
      | depth + 1 =>
        match skipSpace rest with
        | ']' :: rest => some (.arr [], rest)
        | rest => readItems? fuel depth [] rest
    | '\x7b' :: rest =>
      match depth with
      | 0 => none
      | depth + 1 =>
        match skipSpace rest with
        | '\x7d' :: rest => some (.obj [], rest)
        | rest => readFields? fuel depth .empty rest
    | c :: rest => if c = '-' || c.isDigit then readNumber? (c :: rest) else none
    | [] => none

/-- Items up to the closing bracket, with the collected ones in reverse. -/
def readItems? : Nat → Nat → List Json → List Char → Option (Json × List Char)
  | 0, _, _, _ => none
  | fuel + 1, depth, collected, s => do
    let (item, rest) ← readValue? fuel depth s
    match skipSpace rest with
    | ',' :: rest => readItems? fuel depth (item :: collected) rest
    | ']' :: rest => return (.arr (item :: collected).reverse, rest)
    | _ => none

def readFields? : Nat → Nat → Table Json → List Char → Option (Json × List Char)
  | 0, _, _, _ => none
  | fuel + 1, depth, collected, s =>
    match skipSpace s with
    | '"' :: rest => do
      let (key, rest) ← readString? rest
      match skipSpace rest with
      | ':' :: rest =>
        let (value, rest) ← readValue? fuel depth rest
        match skipSpace rest with
        | ',' :: rest => readFields? fuel depth (collected.insert key value) rest
        | '\x7d' :: rest => return (.obj (collected.insert key value).entries, rest)
        | _ => none
      | _ => none
    | _ => none

end

/-- Reads a text that holds one value and nothing else but white space. -/
def parse? (text : String) : Option Json :=
  let chars := text.toList
  match readValue? (2 * chars.length + 2) 127 chars with
  | some (value, rest) => if (skipSpace rest).isEmpty then some value else none
  | none => none

end MetricEngine.Json
