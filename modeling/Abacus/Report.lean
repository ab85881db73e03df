import Abacus.Grammar.Fault

/-!
# Reports

What a failed run tells the world: a name for the kind of failure and a message. Failures of a script
are told apart from failures of what surrounds it (a file that is no tree, a tree that is no program),
and a text that is no program says where it goes wrong.
-/

namespace Abacus

/-- A message about an offset of a text. The line and the column may be unknown. -/
structure Remark where
  message : String
  offset : Int
  line : Option Int
  column : Option Int

namespace Remark

def numberOrNone : Option Int → String
  | some n => toString n
  | none => "None"

/-- The message with the place it speaks of. -/
def text (r : Remark) : String :=
  let place :=
    match r.line with
    | some line => " (line " ++ toString line ++ ", column " ++ numberOrNone r.column ++ ")"
    | none => ""
  r.message ++ " at offset " ++ toString r.offset ++ place

/-- A message about an offset of a text that is known. -/
def ofOffset (message : String) (text : List Char) (offset : Nat) : Remark :=
  let place := Place.ofOffset text offset
  ⟨message, offset, some place.line, some place.column⟩

end Remark

/-- What is told of a failure. -/
inductive Report where
  /-- The script failed while it ran. -/
  | script (name : String) (message : Text)
  /-- The text is no program. -/
  | refused (remark : Remark)
  /-- Something around the script failed. -/
  | host (name : String) (message : Text)

namespace Report

/-- The kind of failure. -/
def name : Report → String
  | script name _ => name
  | refused _ => "SyntaxError"
  | host name _ => name

def message : Report → Text
  | script _ message => message
  | refused remark => remark.text
  | host _ message => message

/-- The kind and the message on one line. -/
def summary (r : Report) : Text := r.name ++ ": " ++ r.message

end Report

/-- What is told of a numeral that is too long. -/
def tooManyDigits (limit digits : Nat) : Report :=
  .host "ValueError" ("Exceeds the limit (" ++ toString limit ++
    " digits) for integer string conversion: value has " ++ toString digits ++
    " digits; use sys.set_int_max_str_digits() to increase the limit")

end Abacus
