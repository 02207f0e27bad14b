import MetricEngine.Toml.Line
import MetricEngine.Text.Integer

/-!
Reading strings and keys of TOML documents. A string stands between marks, with escapes or without,
on one line or over several.
-/
namespace MetricEngine.Toml
open Text

def hexDigits? (count : Nat) (s : List Char) : Option (Nat × List Char) :=
  let digits := s.take count
  if digits.length < count then none
  else (digits.mapM hexValue?).map fun values =>
    (values.foldl (fun n v => 16 * n + v) 0, s.drop count)

/-- A code point that is no surrogate. -/
def scalarValue? (n : Nat) : Option Char :=
  if n.isValidChar then some (Char.ofNat n) else none

def readEscape? : List Char → Option (Char × List Char)
  | 'b' :: rest => some ('\x08', rest)
  | 't' :: rest => some ('\t', rest)
  | 'n' :: rest => some ('\n', rest)
  | 'f' :: rest => some ('\x0c', rest)
  | 'r' :: rest => some ('\r', rest)
  | '"' :: rest => some ('"', rest)
  | '\\' :: rest => some ('\\', rest)
  | 'u' :: rest => do
    let (n, rest) ← hexDigits? 4 rest
    return (← scalarValue? n, rest)
  | 'U' :: rest => do
    let (n, rest) ← hexDigits? 8 rest
    return (← scalarValue? n, rest)
  | _ => none

/-- The four ways to write a string. -/
structure Quoting where
  mark : Char
  escapes : Bool
  multiline : Bool

/-- After a backslash at the end of a line, skips line breaks and blanks. -/
def skipFolded : Nat → List Char → List Char
  | fuel + 1, s =>
    match dropBreak? s, s with
    | some rest, _ => skipFolded fuel rest
    | none, c :: rest => if isSpace c then skipFolded fuel rest else s
    | none, [] => []
  | 0, s => s

/-- Of a run of marks that ends a multiline string the last three close it; at most two before them
are content. -/
def closeRun (mark : Char) (s : List Char) : Nat × List Char :=
  let run := (s.take 5).takeWhile (· = mark)
  (run.length, s.drop run.length)

/-- The characters up to the closing mark, with the collected ones in reverse. -/
def readChars? (q : Quoting) : Nat → List Char → List Char → Option (String × List Char)
  | 0, _, _ => none
  | _, _, [] => none
  | fuel + 1, collected, c :: rest =>
    if c = q.mark then
      if q.multiline then
        let (count, after) := closeRun q.mark (c :: rest)
        if 3 ≤ count then
          some (String.ofList (collected.reverse ++ List.replicate (count - 3) c), after)
        else readChars? q fuel (c :: collected) rest
      else some (String.ofList collected.reverse, rest)
    else if c = '\\' && q.escapes then
      let line := skipSpace rest
      if q.multiline && (dropBreak? line).isSome then
        readChars? q fuel collected (skipFolded fuel line)
      else do
        let (escaped, rest) ← readEscape? rest
        readChars? q fuel (escaped :: collected) rest
    else
      match q.multiline, dropBreak? (c :: rest) with
      | true, some rest => readChars? q fuel ('\n' :: collected) rest
      | _, _ => if isForbidden c then none else readChars? q fuel (c :: collected) rest

/-- The rest of a string whose first mark has been read. -/
def readString? (mark : Char) (s : List Char) : Option (String × List Char) :=
  let escapes := mark = '"'
  match s with
  | a :: b :: rest =>
    if a = mark && b = mark then
      let rest := (dropBreak? rest).getD rest
      readChars? ⟨mark, escapes, true⟩ (rest.length + 1) [] rest
    else readChars? ⟨mark, escapes, false⟩ (s.length + 1) [] s
  | _ => readChars? ⟨mark, escapes, false⟩ (s.length + 1) [] s

def isBareKey (c : Char) : Bool :=
  c.isAlphanum || c = '_' || c = '-'

/-- A key on one line: a bare word or a quoted string. -/
def readSimpleKey? (s : List Char) : Option (String × List Char) :=
  match s with
  | '"' :: rest => readChars? ⟨'"', true, false⟩ (rest.length + 1) [] rest
  | '\'' :: rest => readChars? ⟨'\'', false, false⟩ (rest.length + 1) [] rest
  | _ =>
    let word := s.takeWhile isBareKey
    if word.isEmpty then none else some (String.ofList word, s.dropWhile isBareKey)

/-- The most parts that a key can have, and the most arrays and inline tables that can stand in one
another. -/
def deepest : Nat := 79

/-- Simple keys joined by points, at most so many. -/
def readParts? : Nat → List Char → Option (List String × List Char)
  | 0, _ => none
  | most + 1, s => do
    let (key, rest) ← readSimpleKey? (skipSpace s)
    match skipSpace rest with
    | '.' :: rest =>
      let (path, rest) ← readParts? most rest
      return (key :: path, rest)
    | rest => return ([key], rest)

def readKey? (s : List Char) : Option (List String × List Char) :=
  readParts? deepest s

end MetricEngine.Toml
