import MetricEngine.Toml.Node
import MetricEngine.Toml.Quoted
import MetricEngine.Toml.Scalar

/-!
Reading TOML documents.
-/
namespace MetricEngine.Toml
open Text

def isWordChar (c : Char) : Bool :=
  c.isAlphanum || c = '_' || c = '+' || c = '-' || c = '.' || c = ':'

/-- A boolean, a number or a date. Nothing that is read here has use for a date, so it becomes a record
without fields. -/
def readScalar? (s : List Char) : Option (Json × List Char) :=
  let word := s.takeWhile isWordChar
  let rest := s.dropWhile isWordChar
  match String.ofList word with
  | "true" => some (.bool true, rest)
  | "false" => some (.bool false, rest)
  | _ =>
    match integer? word, float? word with
    | some n, _ => some (.int n, rest)
    | none, some x => some (.double x, rest)
    | none, none => (dropDateTime? s).map fun rest => (.obj [], rest)

mutual

/-- A value with at most so many levels of arrays and inline tables. -/
def readValue? : Nat → Nat → List Char → Option (Json × List Char)
  | 0, _, _ => none
  | fuel + 1, levels, s =>
    match s, levels with
    | '"' :: rest, _ => (readString? '"' rest).map fun (text, rest) => (.str text, rest)
    | '\'' :: rest, _ => (readString? '\'' rest).map fun (text, rest) => (.str text, rest)
    | '[' :: rest, levels + 1 => readItems? fuel levels [] rest
    | '{' :: rest, levels + 1 =>
      match skipSpace rest with
      | '}' :: rest => some (.obj [], rest)
      | rest => readFields? fuel levels [] rest
    | _, _ => readScalar? s

/-- The items of an array behind those that have been read; a comma may follow the last one. -/
def readItems? : Nat → Nat → List Json → List Char → Option (Json × List Char)
  | 0, _, _, _ => none
  | fuel + 1, levels, items, s => do
    match ← skipLines? s.length s with
    | ']' :: rest => return (.arr items, rest)
    | s =>
      let (item, rest) ← readValue? fuel levels s
      let items := items ++ [item]
      match ← skipLines? rest.length rest with
      | ',' :: rest => readItems? fuel levels items rest
      | ']' :: rest => return (.arr items, rest)
      | _ => none

/-- The fields of an inline table behind those that have been read. -/
def readFields? : Nat → Nat → Entries → List Char → Option (Json × List Char)
  | 0, _, _, _ => none
  | fuel + 1, levels, entries, s => do
    let (path, rest) ← readKey? s
    let (value, rest) ← readValue? fuel levels (skipSpace (← dropChar? '=' rest))
    let entries ← Entries.assign value path entries
    match skipSpace rest with
    | ',' :: rest => readFields? fuel levels entries rest
    | '}' :: rest => return (.obj (entriesToJson entries), rest)
    | _ => none

end

/-- What has been read: the tree, and the path of the table that assignments go to. -/
structure Draft where
  root : Entries
  current : List String

/-- Opens the table of a header, whose last part `openLast` takes care of. -/
def Draft.open? (draft : Draft) (openLast : String → Entries → Option Entries)
    (path : List String) : Option Draft := do
  let root ← Entries.reach (openLast (← path.getLast?)) path.dropLast draft.root
  return ⟨root, path⟩

def readHeader? (draft : Draft) (s : List Char) : Option (Draft × List Char) :=
  match s with
  | '[' :: rest => do
    let (path, rest) ← readKey? rest
    let rest ← endLine? (← dropChar? ']' (← dropChar? ']' rest))
    return (← draft.open? Entries.addTable path, rest)
  | _ => do
    let (path, rest) ← readKey? s
    let rest ← endLine? (← dropChar? ']' rest)
    return (← draft.open? Entries.openTable path, rest)

def readAssignment? (draft : Draft) (s : List Char) : Option (Draft × List Char) := do
  let (path, rest) ← readKey? s
  let rest := skipSpace (← dropChar? '=' rest)
  let (value, rest) ← readValue? (2 * rest.length + 1) deepest rest
  let rest ← endLine? rest
  let root ← Entries.reach (Entries.assign value path) draft.current draft.root
  return ({ draft with root }, rest)

/-- One line: blank, a header or an assignment, whose value may go on over more lines. -/
def readLine? (draft : Draft) (s : List Char) : Option (Draft × List Char) :=
  match skipSpace s, endLine? s with
  | _, some rest => some (draft, rest)
  | '[' :: rest, none => readHeader? draft rest
  | rest, none => readAssignment? draft rest

def readLines? : Nat → Draft → List Char → Option Draft
  | _, draft, [] => some draft
  | 0, _, _ => none
  | fuel + 1, draft, s => do
    let (draft, rest) ← readLine? draft s
    readLines? fuel draft rest

/-- A byte order mark at the start of a document is no part of it. -/
def dropByteOrderMark (s : List Char) : List Char :=
  match s with
  | '\ufeff' :: rest => rest
  | rest => rest

/-- The document as a JSON object. -/
def parse? (text : String) : Option Json :=
  let chars := dropByteOrderMark text.toList
  (readLines? (chars.length + 1) ⟨[], []⟩ chars).map fun draft => .obj (entriesToJson draft.root)

end MetricEngine.Toml
