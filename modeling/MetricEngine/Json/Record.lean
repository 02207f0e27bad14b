import MetricEngine.Json.Basic
import MetricEngine.Text.Integer

/-!
Decoding records from JSON values. A record is an object whose unknown fields are ignored, or an
array that lists the fields in their declared order.
-/
namespace MetricEngine.Json
open Text

def find? (key : String) (fields : List (String × Json)) : Option Json :=
  (fields.find? (·.1 = key)).map (·.2)

/-- Field access by name. An array may leave out trailing fields but not add any. -/
def record? (names : List String) : Json → Option (String → Option Json)
  | obj fields => some fun name => find? name fields
  | arr items =>
    if items.length ≤ names.length then some fun name => find? name (names.zip items) else none
  | _ => none

/-- A field that must be there. -/
def required {α : Type} (decode : Json → Option α) (field : Option Json) : Option α :=
  field.bind decode

/-- A field with a default; when it is there it must decode. -/
def withDefault {α : Type} (value : α) (decode : Json → Option α) : Option Json → Option α
  | none => some value
  | some json => decode json

/-- A field that may be missing or null. -/
def optional {α : Type} (decode : Json → Option α) : Option Json → Option (Option α)
  | none | some null => some none
  | some json => (decode json).map some

def asString? : Json → Option String
  | str s => some s
  | _ => none

def asBool? : Json → Option Bool
  | bool b => some b
  | _ => none

def asInt64? : Json → Option Int
  | int n => if fitsInt64 n then some n else none
  | _ => none

def asUInt64? : Json → Option Nat
  | int n => if 0 ≤ n then some n.toNat else none
  | _ => none

def asList? {α : Type} (decode : Json → Option α) : Json → Option (List α)
  | arr items => items.mapM decode
  | _ => none

def asTable? {α : Type} (decode : Json → Option α) : Json → Option (Table α)
  | obj fields =>
    (fields.mapM fun field => (decode field.2).map (field.1, ·)).map Table.ofList
  | _ => none

def asStrings? : Json → Option (List String) :=
  asList? asString?

/-- A word of a fixed vocabulary, also in the form of an object with that one key and null. -/
def asWord? : Json → Option String
  | str s => some s
  | obj [(key, null)] => some key
  | _ => none

end MetricEngine.Json
