/-!
The parts of TOML documents that carry no value: blanks, comments and line breaks.
-/
namespace MetricEngine.Toml

def isSpace (c : Char) : Bool :=
  c = ' ' || c = '\t'

def skipSpace (s : List Char) : List Char :=
  s.dropWhile isSpace

/-- Control characters other than the tab stand only in escaped form. -/
def isForbidden (c : Char) : Bool :=
  (c.toNat < 0x20 && c ≠ '\t') || c.toNat = 0x7f

/-- A line break, with or without a carriage return. -/
def dropBreak? : List Char → Option (List Char)
  | '\n' :: rest => some rest
  | '\r' :: '\n' :: rest => some rest
  | _ => none

def isInLine (c : Char) : Bool :=
  c ≠ '\n' && c ≠ '\r'

/-- Blanks and a comment up to the end of the line. -/
def endLine? (s : List Char) : Option (List Char) :=
  let s := skipSpace s
  let (comment, rest) :=
    match s with
    | '#' :: rest => (rest.takeWhile isInLine, rest.dropWhile isInLine)
    | rest => ([], rest)
  if comment.any isForbidden then none
  else if rest.isEmpty then some []
  else dropBreak? rest

/-- Blanks, comments and line breaks up to the next other character. -/
def skipLines? : Nat → List Char → Option (List Char)
  | 0, s => some s
  | fuel + 1, s =>
    match skipSpace s with
    | [] => some []
    | c :: rest =>
      if c = '#' || !isInLine c then (endLine? (c :: rest)).bind (skipLines? fuel)
      else some (c :: rest)

end MetricEngine.Toml
