import MetricEngine.Json.Basic
import MetricEngine.Binary64.Text

/-!
JSON texts: the compact form without spaces and the form indented by two blanks. Characters
outside ASCII stand as they are.
-/
namespace MetricEngine.Json
open Text

def escape (c : Char) : List Char :=
  match c with
  | '"' => ['\\', '"']
  | '\\' => ['\\', '\\']
  | '\n' => ['\\', 'n']
  | '\r' => ['\\', 'r']
  | '\t' => ['\\', 't']
  | '\x08' => ['\\', 'b']
  | '\x0c' => ['\\', 'f']
  | c =>
    if c.toNat < 0x20 then ['\\', 'u', '0', '0', hexDigit (c.toNat / 16), hexDigit (c.toNat % 16)]
    else [c]

def quote (s : String) : String :=
  String.ofList ('"' :: (s.toList.flatMap escape ++ ['"']))

def scalar : Json → String
  | null => "null"
  | bool true => "true"
  | bool false => "false"
  | int n => toString n
  | double x => x.jsonText
  | str s => quote s
  | arr _ | obj _ => ""

mutual

/-- The compact text. -/
def render : Json → String
  | arr items => "[" ++ renderItems items ++ "]"
  | obj fields => "\x7b" ++ renderFields fields ++ "\x7d"
  | value => scalar value

def renderItems : List Json → String
  | [] => ""
  | [item] => render item
  | item :: rest => render item ++ "," ++ renderItems rest

def renderFields : List (String × Json) → String
  | [] => ""
  | [(key, value)] => quote key ++ ":" ++ render value
  | (key, value) :: rest => quote key ++ ":" ++ render value ++ "," ++ renderFields rest

end

def indentation (depth : Nat) : String :=
  "\n" ++ String.ofList (List.replicate (2 * depth) ' ')

mutual

/-- The indented text of a value that stands at some depth; empty brackets stay closed. -/
def renderIndented (depth : Nat) : Json → String
  | arr [] => "[]"
  | arr items => "[" ++ indentedItems (depth + 1) items ++ indentation depth ++ "]"
  | obj [] => "\x7b\x7d"
  | obj fields => "\x7b" ++ indentedFields (depth + 1) fields ++ indentation depth ++ "\x7d"
  | value => scalar value

def indentedItems (depth : Nat) : List Json → String
  | [] => ""
  | [item] => indentation depth ++ renderIndented depth item
  | item :: rest =>
    indentation depth ++ renderIndented depth item ++ "," ++ indentedItems depth rest

def indentedFields (depth : Nat) : List (String × Json) → String
  | [] => ""
  | [(key, value)] => indentation depth ++ quote key ++ ": " ++ renderIndented depth value
  | (key, value) :: rest =>
    indentation depth ++ quote key ++ ": " ++ renderIndented depth value ++ "," ++
      indentedFields depth rest

end

def pretty (value : Json) : String :=
  renderIndented 0 value

end MetricEngine.Json
