import MetricEngine.Binary64
import MetricEngine.Text.Blank
import MetricEngine.Text.Integer

/-!
Reading numbers from decimal texts. `read?` rounds the exact value once; `scaled?` is the rule of
JSON texts, where the leading digits that fit 64 bits are rounded first and then multiplied or
divided by a power of ten.
-/
namespace MetricEngine.Binary64
open Text

/-- `m · 10 ^ e` rounded once. -/
def ofDecimal (m : Nat) (e : Int) : Binary64 :=
  let magnitude := ((toString m).length : Int) + e
  if m = 0 || magnitude < -400 then zero
  else if 400 < magnitude then infinity
  else ofFloat (Float.ofScientific m (e < 0) e.natAbs)

/-- An exponent mark, an optional sign and digits; the empty text is exponent zero. -/
def readExponent? : List Char → Option Int
  | [] => some 0
  | mark :: rest =>
    if mark = 'e' || mark = 'E' then
      match rest with
      | '-' :: digits => (readDigits? digits).map fun n => -(n : Int)
      | '+' :: digits => (readDigits? digits).map Int.ofNat
      | digits => (readDigits? digits).map Int.ofNat
    else none

/-- Digits with an optional decimal point and an optional exponent; one digit at least must stand
before or after the point. -/
def readUnsigned? (s : List Char) : Option Binary64 :=
  let whole := s.takeWhile Char.isDigit
  let afterWhole := s.dropWhile Char.isDigit
  let (fraction, rest) :=
    match afterWhole with
    | '.' :: more => (more.takeWhile Char.isDigit, more.dropWhile Char.isDigit)
    | more => ([], more)
  if whole.isEmpty && fraction.isEmpty then none
  else (readExponent? rest).map fun exponent =>
    ofDecimal (digitsValue (whole ++ fraction)) (exponent - fraction.length)

/-- The names of the values that have no digits. -/
def readNamed? (s : List Char) : Option Binary64 :=
  match String.ofList (lower s) with
  | "inf" | "infinity" => some infinity
  | "nan" => some nan
  | _ => none

def read? (s : List Char) : Option Binary64 :=
  let value (rest : List Char) := (readNamed? rest).orElse fun _ => readUnsigned? rest
  match s with
  | '-' :: rest => (value rest).map neg
  | '+' :: rest => value rest
  | rest => value rest

def powerOfTen (n : Nat) : Binary64 :=
  ofFloat (Float.ofScientific 1 false n)

/-- Divides by `1e308` until the rest of the exponent is a power of ten that is a number. -/
def shrink (x : Binary64) (exponent : Nat) : Binary64 :=
  if h : exponent ≤ 308 then x / powerOfTen exponent
  else if x.magnitude = 0 then x
  else shrink (x / powerOfTen 308) (exponent - 308)
termination_by exponent

/-- `significand · 10 ^ exponent`, rounding the significand and then the product or quotient. There
is none when the result is too large. -/
def scaled? (significand : Nat) (exponent : Int) : Option Binary64 :=
  let x := ofNat significand
  if exponent < 0 then some (shrink x exponent.natAbs)
  else if 308 < exponent then if x.magnitude = 0 then some x else none
  else
    let product := x * powerOfTen exponent.toNat
    if product.isFinite then some product else none

end MetricEngine.Binary64
