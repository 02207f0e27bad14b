/-!
Decimal integers of bounded size: the ranges of 64-bit words and the readers that refuse
anything outside them. Hexadecimal digits for escapes and the integers of configuration files.
-/
namespace MetricEngine.Text

def int64Min : Int := -9223372036854775808

def int64Max : Int := 9223372036854775807

def uint64Max : Nat := 18446744073709551615

def fitsInt64 (n : Int) : Bool :=
  int64Min ≤ n && n ≤ int64Max

def digitValue (c : Char) : Nat :=
  c.toNat - '0'.toNat

/-- The number that a run of decimal digits denotes. -/
def digitsValue (digits : List Char) : Nat :=
  digits.foldl (fun n c => 10 * n + digitValue c) 0

/-- At least one digit and nothing else. -/
def readDigits? (s : List Char) : Option Nat :=
  if !s.isEmpty && s.all Char.isDigit then some (digitsValue s) else none

/-- An optional sign followed by digits, within the signed 64-bit range. -/
def readInt64? (s : List Char) : Option Int :=
  let value : Option Int :=
    match s with
    | '-' :: digits => (readDigits? digits).map fun n => -(n : Int)
    | '+' :: digits => (readDigits? digits).map Int.ofNat
    | digits => (readDigits? digits).map Int.ofNat
  value.filter fitsInt64

/-- Digits with an optional plus sign, within the unsigned 64-bit range. -/
def readUInt64? (s : List Char) : Option Nat :=
  let value :=
    match s with
    | '+' :: digits => readDigits? digits
    | digits => readDigits? digits
  value.filter (· ≤ uint64Max)

/-- Decimal digits of a number, padded with zeros on the left to a least width. -/
def padded (width n : Nat) : String :=
  let digits := toString n
  String.ofList (List.replicate (width - digits.length) '0') ++ digits

/-- The value of a hexadecimal digit in either letter case. -/
def hexValue? (c : Char) : Option Nat :=
  if c.isDigit then some (c.toNat - '0'.toNat)
  else if 'a' ≤ c && c ≤ 'f' then some (c.toNat - 'a'.toNat + 10)
  else if 'A' ≤ c && c ≤ 'F' then some (c.toNat - 'A'.toNat + 10)
  else none

/-- The hexadecimal digit of a number below sixteen, in small letters. -/
def hexDigit (n : Nat) : Char :=
  if n < 10 then Char.ofNat ('0'.toNat + n) else Char.ofNat ('a'.toNat + n - 10)

end MetricEngine.Text
