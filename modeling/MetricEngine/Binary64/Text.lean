import MetricEngine.Binary64.Shortest
import MetricEngine.Text.Integer

/-!
The two written forms of a number, both with the shortest digits that read back: the positional
form of messages, and the form of JSON texts, which uses exponents for very large and very small
numbers.
-/
namespace MetricEngine

namespace Decimal

def zeros (n : Nat) : String :=
  String.ofList (List.replicate n '0')

/-- Digits around a decimal point; a whole number has none. -/
def positional (d : Decimal) : String :=
  let digits := (toString d.digits).toList
  let point := digits.length + d.exponent
  if 0 ≤ d.exponent then String.ofList digits ++ zeros d.exponent.toNat
  else if 0 < point then
    String.ofList (digits.take point.toNat) ++ "." ++ String.ofList (digits.drop point.toNat)
  else "0." ++ zeros (-point).toNat ++ String.ofList digits

/-- The power of ten of the first digit. -/
def magnitude (d : Decimal) : Int :=
  (toString d.digits).length + d.exponent - 1

def scientific (d : Decimal) : String :=
  let mantissa :=
    match (toString d.digits).toList with
    | first :: rest@(_ :: _) => String.ofList [first] ++ "." ++ String.ofList rest
    | digits => String.ofList digits
  let exponent := d.magnitude
  mantissa ++ (if exponent < 0 then "e-" else "e+") ++ toString exponent.natAbs

end Decimal

namespace Binary64

def signText (x : Binary64) : String :=
  if x.isNegative then "-" else ""

/-- The positional form. -/
def display (x : Binary64) : String :=
  if x.isNaN then "NaN"
  else if !x.isFinite then x.signText ++ "inf"
  else if x.magnitude = 0 then x.signText ++ "0"
  else x.signText ++ (x.shortest .up).positional

/-- The form in JSON texts: positional with at least one decimal from 1e-5 up to 1e16, scientific
outside. JSON has no infinities and no NaN. -/
def jsonText (x : Binary64) : String :=
  if !x.isFinite then "null"
  else if x.magnitude = 0 then x.signText ++ "0.0"
  else
    let d := x.shortest .even
    if -5 ≤ d.magnitude ∧ d.magnitude < 16 then
      x.signText ++ d.positional ++ (if 0 ≤ d.exponent then ".0" else "")
    else x.signText ++ d.scientific

end Binary64
end MetricEngine
