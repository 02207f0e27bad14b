import MetricEngine.Program.Error
import MetricEngine.Binary64.Reader
import MetricEngine.Json.Record

/-!
Reading the arguments of a stage. A reader remembers each field that it was asked for, whether the
field was there or not; the other keys are the unknown arguments that a program is warned about.
-/
namespace MetricEngine

structure Arguments where
  given : Table Json
  known : List String

namespace Arguments

def ofTable (given : Table Json) : Arguments := ⟨given, []⟩

/-- The keys that no read asked for, in key order. -/
def unknown (arguments : Arguments) : List String :=
  arguments.given.keys.filter fun key => !arguments.known.contains key

end Arguments

/-- A read may fail, and what was asked for before the failure is still known. -/
abbrev ArgumentReader := ExceptT BuildError (StateM Arguments)

namespace ArgumentReader

def refuse {α : Type} (field : String) (fault : ArgumentFault) : ArgumentReader α :=
  throw (.invalidArgument field fault)

def raw (field : String) : ArgumentReader (Option Json) := do
  modify fun arguments => { arguments with known := field :: arguments.known }
  return (← get).given.get? field

/-- Decodes a field unless it is missing or null. -/
def optional {α : Type} (decode : Json → Except ArgumentFault α) (field : String) :
    ArgumentReader (Option α) := do
  match ← raw field with
  | none | some .null => return none
  | some json =>
    match decode json with
    | .ok value => return some value
    | .error fault => refuse field fault

/-- A field that is missing or null is an error. -/
def required {α : Type} (decode : Json → Except ArgumentFault α) (field : String) :
    ArgumentReader α := do
  match ← optional decode field with
  | some value => return value
  | none => refuse field .missing

end ArgumentReader

namespace ArgumentFault

/-- A number, or a text that reads as one. -/
def decodeNumber : Json → Except ArgumentFault Binary64
  | .int n => .ok (.ofInt n)
  | .double x => .ok x
  | .str text =>
    match Binary64.read? (Text.trim text.toList) with
    | some x => .ok x
    | none => .error (.unreadableNumber text)
  | json => .error (.notANumber json)

def decodeString : Json → Except ArgumentFault String
  | .str text => .ok text
  | json => .error (.notAString json)

/-- A whole number from zero up to the 64-bit limit, or a text that reads as one. -/
def decodeCount : Json → Except ArgumentFault Nat
  | .int n => if 0 ≤ n then .ok n.toNat else .error .notACount
  | .double _ => .error .notACount
  | .str text =>
    match Text.readUInt64? (Text.trim text.toList) with
    | some n => .ok n
    | none => .error (.unreadableCount text)
  | json => .error (.notAnInteger json)

def decodeBoolean : Json → Except ArgumentFault Bool
  | .bool b => .ok b
  | .str text =>
    match Text.keyword text with
    | "true" => .ok true
    | "false" => .ok false
    | _ => .error (.unreadableBoolean text)
  | json => .error (.notABoolean json)

def decodePeriod (json : Json) : Except ArgumentFault Span :=
  (Period.ofJson json).mapError .period

/-- A list of strings, or one string in place of a list. -/
def strings? : Json → Option (List String)
  | .str text => some [text]
  | .arr items => items.mapM Json.asString?
  | _ => none

def decodeStrings (json : Json) : Except ArgumentFault (List String) :=
  match strings? json with
  | some texts => .ok texts
  | none => .error .notStrings

def decodeTagFilter : Json → Except ArgumentFault (Table (List String))
  | .obj fields => do
    let entries ← fields.mapM fun (tag, json) =>
      match strings? json with
      | none => .error (.tagNotStrings tag)
      | some [] => .error (.tagWithoutValues tag)
      | some values => .ok (tag, values)
    return .ofList entries
  | json => .error (.notATagFilter json)

end ArgumentFault

namespace ArgumentReader
open ArgumentFault

def requiredNumber : String → ArgumentReader Binary64 := required decodeNumber

def number? : String → ArgumentReader (Option Binary64) := optional decodeNumber

def requiredString : String → ArgumentReader String := required decodeString

def string? : String → ArgumentReader (Option String) := optional decodeString

def count? : String → ArgumentReader (Option Nat) := optional decodeCount

def boolean? : String → ArgumentReader (Option Bool) := optional decodeBoolean

def period? : String → ArgumentReader (Option Span) := optional decodePeriod

def strings (field : String) : ArgumentReader (List String) := do
  return (← optional decodeStrings field).getD []

def tagFilter (field : String) : ArgumentReader (Table (List String)) := do
  return (← optional decodeTagFilter field).getD .empty

/-- Runs a reader over the arguments of one stage. -/
def on {α : Type} (reader : ArgumentReader α) (given : Table Json) :
    Except BuildError α × Arguments :=
  (ExceptT.run reader).run (.ofTable given)

end ArgumentReader
end MetricEngine
