import Abacus.Eval.Interpreter
import Abacus.Grammar.Report
import Abacus.Tree.Decode

/-!
# Sessions

A session is one machine on which a host takes step after step: it runs texts and trees, calls
functions, reads and sets variables, and moves between scopes. A step that fails leaves the session as
it is at that moment, and the next step goes on from there. What a step prints and tells is handed out
with its answer.
-/

namespace Abacus

/-- A program as it is handed in. -/
inductive Script where
  | text (chars : List Char) (offset : Nat)
  | tree (json : Json)

namespace Script

/-- The program, or why it is none. -/
def read : Script → Reading
  | .text chars offset => readProgram chars offset
  | .tree json => { program := (Node.decode json).mapError DecodeFault.report, warnings := [] }

end Script

/-- What a host can do. -/
inductive Step where
  | run (script : Script)
  | block (script : Script) (newScope : Bool) (bindings : List (Name × Value))
  | call (name : Name) (arguments : List Value)
  | get (name : Name)
  | set (name : Name) (value : Value)
  | has (name : Name)
  | push
  | pop

/-- What comes of a step. -/
inductive Answer where
  | value (value : Value)
  | truth (holds : Bool)
  | done
  | failed (report : Report)

/-- One machine and the scope its host works in. -/
structure Session where
  machine : Machine
  current : Nat
  warnings : List String

namespace Session

/-- A new session, in the scope of programs. Its trace may go to a file, and what it prints to a strict
stream. -/
def start (level : Nat) (tracesToFile printsStrictly : Bool) : Session :=
  { machine := .start level tracesToFile printsStrictly, current := Store.globalId, warnings := [] }

/-- Carries out a computation on the machine. -/
def perform {α : Type} (s : Session) (action : Eval α) (answer : α → Answer) : Answer × Session :=
  let (outcome, machine) := action s.machine
  let answer :=
    match outcome with
    | .ok value => answer value
    | .error fault => .failed fault.report
  (answer, { s with machine })

/-- Carries out a computation on a program, if there is one. -/
def performOn (s : Session) (script : Script) (action : Node → Eval Value) : Answer × Session :=
  let reading := script.read
  let s := { s with warnings := s.warnings ++ reading.warnings }
  match reading.program with
  | .ok program => s.perform (action program) .value
  | .error report => (.failed report, s)

/-- Takes one step. -/
def step (s : Session) (step : Step) : Answer × Session :=
  match step with
  | .run script => s.performOn script fun program => Machine.run .standard program s.current
  | .block script newScope bindings =>
    s.performOn script fun program =>
      Machine.runBlock .standard program s.current newScope bindings
  | .call name arguments => s.perform (Machine.call .standard name arguments s.current) .value
  | .get name => s.perform (Eval.lookup s.current name) .value
  | .set name value => s.perform (Eval.assign s.current name value) fun _ => .done
  | .has name =>
    if name.isKey then (.truth (s.machine.store.has s.current name), s)
    else (.failed (EvalFault.notKey name).report, s)
  | .push =>
    let (current, store) := s.machine.store.push s.current
    (.done, { s with machine := { s.machine with store }, current })
  | .pop =>
    if s.current = Store.globalId then (.done, s)
    else (.done, { s with current := (s.machine.store.parent? s.current).getD Store.globalId })

/-- What was printed and what was told on the error output since the last time, and the session
without them. -/
def flush (s : Session) : Text × Text × Session :=
  let m := s.machine
  (m.output, TraceLine.join m.trace.shown,
    { s with machine := { m with printed := [], trace := { m.trace with shown := [] } } })

/-- The variables of each scope, from the current one up to the one of programs. -/
def scopes (s : Session) : List (List (Name × Value)) :=
  (s.machine.store.chain s.current).map Scope.listing

/-- The text of the trace file, if there is one. -/
def traceFile? (s : Session) : Option Text :=
  s.machine.trace.file.map TraceLine.join

end Session

end Abacus
