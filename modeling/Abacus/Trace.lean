import Abacus.Value.Basic

/-!
# Trace lines

A run can tell what it does, line by line. Each kind of line has a threshold, and a line is told if the
level of the trace reaches it: declarations from level one, assignments from two, conditions from
three, look-ups and calls from four. The lines go to a file, if there is one and as long as it is open;
after that, and without a file, they go to the error output.
-/

namespace Abacus

/-- One thing that a run does. -/
inductive TraceLine where
  | define (name : Name) (params : List Name)
  | assign (name : Name) (value : Value)
  | ifCondition (value : Value)
  | whileCondition (value : Value)
  | lookup (name : Name) (value : Value)
  | call (name : Name) (arguments : Nat)

namespace TraceLine

/-- The level from which on a line is told. -/
def threshold : TraceLine → Nat
  | define _ _ => 1
  | assign _ _ => 2
  | ifCondition _ => 3
  | whileCondition _ => 3
  | lookup _ _ => 4
  | call _ _ => 4

/-- How a condition turned out. -/
def truth (value : Value) : String :=
  if value.isTrue then "True" else "False"

/-- The line as it is written. -/
def text : TraceLine → Text
  | define name params =>
    "define function " ++ name.display ++ "(" ++
      Text.intercalate ", " (params.map Json.display) ++ ")"
  | assign name value => "assign " ++ name.display ++ ": " ++ value.kind ++ " = " ++ value.text
  | ifCondition value => "if condition " ++ value.text ++ " -> " ++ truth value
  | whileCondition value => "while condition " ++ value.text ++ " -> " ++ truth value
  | lookup name value => "lookup " ++ name.display ++ " -> " ++ value.text
  | call name arguments =>
    "call " ++ name.display ++ " with " ++ toString arguments ++ " argument(s)"

/-- Lines as a text. The last line comes first in the list. -/
def join (lines : List TraceLine) : Text :=
  Text.join (lines.reverse.map fun line => line.text ++ "\n")

end TraceLine

/-- The lines told so far, the last one first. -/
structure Trace where
  level : Nat
  /-- The lines in the file, if there is one. -/
  file : Option (List TraceLine)
  /-- Whether the file is still open. -/
  filing : Bool
  /-- The lines on the error output. -/
  shown : List TraceLine

namespace Trace

/-- A trace that has told nothing. There is no file at level zero. -/
def start (level : Nat) (withFile : Bool) : Trace :=
  let filing := withFile && 0 < level
  { level, file := if filing then some [] else none, filing, shown := [] }

/-- Whether a line goes to the file. -/
def files (trace : Trace) (line : TraceLine) : Bool :=
  trace.filing && line.threshold ≤ trace.level

/-- Tells a line, if the level reaches its threshold. -/
def tell (trace : Trace) (line : TraceLine) : Trace :=
  if trace.level < line.threshold then trace
  else if trace.filing then { trace with file := trace.file.map (line :: ·) }
  else { trace with shown := line :: trace.shown }

/-- Closes the file. -/
def close (trace : Trace) : Trace := { trace with filing := false }

end Trace

end Abacus
