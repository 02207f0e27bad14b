import MetricEngine.Json.Basic

/-!
TOML documents as trees. A table remembers how it came about: a header may open a table once, and
must not reopen one that was written with dotted keys. Of an array of tables only the last one can
still grow.
-/
namespace MetricEngine.Toml

inductive Origin where
  /-- Named only as the outer part of a header. -/
  | implied
  | dotted
  | header
deriving DecidableEq

inductive Node where
  | leaf (value : Json)
  | table (origin : Origin) (entries : List (String × Node))
  | tables (earlier : List Json) (last : List (String × Node))

abbrev Entries := List (String × Node)

mutual

def Node.toJson : Node → Json
  | .leaf value => value
  | .table _ entries => .obj (entriesToJson entries)
  | .tables earlier last => .arr (earlier ++ [.obj (entriesToJson last)])

def entriesToJson : List (String × Node) → List (String × Json)
  | [] => []
  | (key, node) :: rest => (key, node.toJson) :: entriesToJson rest

end

namespace Entries

def find? (key : String) (entries : Entries) : Option Node :=
  (List.find? (fun entry => entry.1 = key) entries).map (·.2)

/-- Replaces the node of a key, or adds one at the end. -/
def set (key : String) (node : Node) (entries : Entries) : Entries :=
  match entries with
  | [] => [(key, node)]
  | entry :: rest => if entry.1 = key then (key, node) :: rest else entry :: set key node rest

/-- Whether a dotted key may pass through a table. The table that gets the value itself must be a
dotted one. -/
def mayPass (origin : Origin) (getsValue : Bool) : Bool :=
  match origin with
  | .dotted => true
  | .implied => !getsValue
  | .header => false

/-- Puts a value at a dotted key. The last part must be new, and the others must not be values. -/
def assign (value : Json) : List String → Entries → Option Entries
  | [], _ => none
  | [key], entries =>
    match find? key entries with
    | none => some (set key (.leaf value) entries)
    | some _ => none
  | key :: path, entries =>
    let getsValue := path.length = 1
    match find? key entries with
    | none => (assign value path []).map fun inner => set key (.table .dotted inner) entries
    | some (.table origin inner) =>
      if mayPass origin getsValue then
        (assign value path inner).map fun inner => set key (.table origin inner) entries
      else none
    | some (.tables earlier last) =>
      if getsValue then none
      else (assign value path last).map fun last => set key (.tables earlier last) entries
    | some (.leaf _) => none

/-- Changes the entries of the table at a path. Tables on the way that are missing are implied. -/
def reach (change : Entries → Option Entries) : List String → Entries → Option Entries
  | [], entries => change entries
  | key :: path, entries =>
    match find? key entries with
    | none => (reach change path []).map fun inner => set key (.table .implied inner) entries
    | some (.table origin inner) =>
      (reach change path inner).map fun inner => set key (.table origin inner) entries
    | some (.tables earlier last) =>
      (reach change path last).map fun last => set key (.tables earlier last) entries
    | some (.leaf _) => none

/-- A header opens a table that is new or implied. -/
def openTable (key : String) (entries : Entries) : Option Entries :=
  match find? key entries with
  | none => some (set key (.table .header []) entries)
  | some (.table .implied inner) => some (set key (.table .header inner) entries)
  | some _ => none

/-- A header in two brackets adds an empty table to an array of tables. -/
def addTable (key : String) (entries : Entries) : Option Entries :=
  match find? key entries with
  | none => some (set key (.tables [] []) entries)
  | some (.tables earlier last) =>
    some (set key (.tables (earlier ++ [.obj (entriesToJson last)]) []) entries)
  | some _ => none

end Entries
end MetricEngine.Toml
