import MetricEngine.Json.Basic
import MetricEngine.Text.Integer

/-!
Writing TOML. A string has four forms: with escapes or literal, on one line or over several. The
first form that shows the text without escapes is taken, and a form with escapes if there is none.
-/
namespace MetricEngine.Toml
open Text

/-- How a string is written. -/
structure Form where
  literal : Bool
  multiline : Bool
deriving DecidableEq

namespace Form

def mark (form : Form) : Char :=
  if form.literal then '\'' else '"'

/-- The most marks in a row that a string of this form can hold as they are. -/
def mostMarks (form : Form) : Nat :=
  if form.multiline then 2 else 0

end Form

def longestRun (mark : Char) (s : List Char) : Nat :=
  (s.foldl
    (fun (current, longest) c =>
      if c = mark then (current + 1, Nat.max longest (current + 1)) else (0, longest))
    (0, 0)).2

/-- Line breaks and tabs stand as they are, other control characters do not. -/
def needsEscape (c : Char) : Bool :=
  (c.toNat < 0x20 && c ≠ '\t' && c ≠ '\n') || c.toNat = 0x7f

/-- Whether a form shows a text without escapes. -/
def Form.fits (form : Form) (s : List Char) : Bool :=
  !s.any needsEscape && longestRun form.mark s ≤ form.mostMarks &&
    (form.multiline || !s.contains '\n') && (form.literal || !s.contains '\\')

/-- The forms in order of preference. -/
def forms : List Form :=
  [⟨false, false⟩, ⟨true, false⟩, ⟨false, true⟩, ⟨true, true⟩]

def formOf (s : List Char) : Form :=
  (forms.find? (·.fits s)).getD ⟨false, s.contains '\n'⟩

def hexUpper (n : Nat) : Char :=
  (hexDigit n).toUpper

/-- A character other than a quote in a string with escapes. -/
def escape (multiline : Bool) (c : Char) : List Char :=
  match c with
  | '\x08' => ['\\', 'b']
  | '\t' => ['\\', 't']
  | '\n' => if multiline then ['\n'] else ['\\', 'n']
  | '\x0c' => ['\\', 'f']
  | '\r' => ['\\', 'r']
  | '\\' => ['\\', '\\']
  | c =>
    if needsEscape c then
      ['\\', 'u', '0', '0', hexUpper (c.toNat / 16), hexUpper (c.toNat % 16)]
    else [c]

/-- The text of a string with escapes, after `quotes` plain quotes in a row; one more than the form can
hold is escaped. -/
def escapeAll (form : Form) (quotes : Nat) : List Char → List Char
  | [] => []
  | c :: rest =>
    if c = '"' then
      if quotes < form.mostMarks then '"' :: escapeAll form (quotes + 1) rest
      else '\\' :: '"' :: escapeAll form 0 rest
    else escape form.multiline c ++ escapeAll form 0 rest

/-- A line break right behind the opening marks is not part of the text; one is put there if the text
has several lines. -/
def quote (text : String) : String :=
  let s := text.toList
  let form := formOf s
  let run := List.replicate (if form.multiline then 3 else 1) form.mark
  let first := if form.multiline && s.contains '\n' then ['\n'] else []
  String.ofList (run ++ first ++ (if form.literal then s else escapeAll form 0 s) ++ run)

/-- The text of a value; there is none for integers that do not fit 64 bits with a sign. -/
def renderValue? : Json → Option String
  | .str text => some (quote text)
  | .bool b => some (if b then "true" else "false")
  | .int n => if fitsInt64 n then some (toString n) else none
  | _ => none

def renderField? (field : String × Json) : Option String :=
  (renderValue? field.2).map fun text => field.1 ++ " = " ++ text ++ "\n"

def renderSection? (name : String) (fields : List (String × Json)) : Option String :=
  (fields.mapM renderField?).map fun lines => "[" ++ name ++ "]\n" ++ String.join lines

/-- Sections with their fields, a blank line between two. -/
def render? (sections : List (String × List (String × Json))) : Option String :=
  (sections.mapM fun (name, fields) => renderSection? name fields).map (String.intercalate "\n")

end MetricEngine.Toml
