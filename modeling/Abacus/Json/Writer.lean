import Abacus.Json.Basic
import Abacus.Number.Layout
import Abacus.Text.Quoted

/-!
# Writing JSON

A value is written on one line, or spread over lines with every part of a list or an object on a line
of its own, further in than what it is a part of. In strings only what must be escaped is: quotes,
backslashes, control characters and surrogates.
-/

namespace Abacus

namespace Json

/-- One character of a string. -/
def writeChar (c : Char) : String :=
  if c = '"' then "\\\""
  else if c = '\\' then "\\\\"
  else if c = '\n' then "\\n"
  else if c = '\r' then "\\r"
  else if c = '\t' then "\\t"
  else if c = '\x08' then "\\b"
  else if c = '\x0c' then "\\f"
  else if c.toNat < 0x20 then "\\u" ++ hexPadded 4 c.toNat
  else c.toString

/-- One code point of a string. -/
def writePoint (p : CodePoint) : String :=
  match p.char? with
  | some c => writeChar c
  | none => "\\u" ++ hexPadded 4 p.number

def writeString (text : Text) : String :=
  "\"" ++ String.join (text.points.map writePoint) ++ "\""

/-- Doubles have the fewest digits that read back. -/
def number : Layout :=
  { Layout.exact with nan := "NaN", infinity := "Infinity" }

/-- How the parts of a list or an object are laid out. -/
inductive Spread where
  | oneLine
  /-- Every part has a line; `step` is how much further in it stands. -/
  | lines (step : Nat)

namespace Spread

/-- The start of a line `depth` steps in. -/
def lineStart (step depth : Nat) : String :=
  "\n" ++ String.ofList (List.replicate (step * depth) ' ')

/-- Puts parts between two brackets that stand `depth` steps in. -/
def enclose (spread : Spread) (depth : Nat) (opening closing : String) (parts : List String) :
    String :=
  if parts.isEmpty then opening ++ closing
  else
    match spread with
    | oneLine => opening ++ String.intercalate ", " parts ++ closing
    | lines step =>
      opening ++ lineStart step (depth + 1) ++
        String.intercalate ("," ++ lineStart step (depth + 1)) parts ++
        lineStart step depth ++ closing

end Spread

mutual

/-- A value that stands `depth` steps in. -/
def writeAt (spread : Spread) (depth : Nat) : Json → String
  | null => "null"
  | bool b => if b then "true" else "false"
  | int n => toString n
  | float x => number.write x
  | str s => writeString s
  | arr items => spread.enclose depth "[" "]" (writeItems spread (depth + 1) items)
  | obj members => spread.enclose depth "\x7b" "\x7d" (writeMembers spread (depth + 1) members)

def writeItems (spread : Spread) (depth : Nat) : List Json → List String
  | [] => []
  | item :: items => writeAt spread depth item :: writeItems spread depth items

def writeMembers (spread : Spread) (depth : Nat) : List (Text × Json) → List String
  | [] => []
  | (key, value) :: members =>
    (writeString key ++ ": " ++ writeAt spread depth value) :: writeMembers spread depth members

end

/-- A value as a text. -/
def write (spread : Spread) (value : Json) : String := value.writeAt spread 0

end Json

end Abacus
