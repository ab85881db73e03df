import Abacus.Scope.Store
import Abacus.Trace
import Abacus.Value.Arithmetic

/-!
# The machine

A machine is what a run changes: the scopes, the text that was printed and the trace. A computation
takes a machine and gives a value or a fault, and in both cases the machine it leaves behind.

What is printed goes to a stream. A file and a standard output encode the text they are given, and a
surrogate has no code, so they refuse a text that has one. Such a stream is *strict*. A stream in memory
keeps every text as it is. Of the trace, the part that goes to a file is encoded; the rest is shown with
its surrogates escaped, which no text fails at.
-/

namespace Abacus

/-- Why a run ends without a value. -/
inductive EvalFault where
  | undefined (name : Name)
  | operand (fault : OperandFault)
  | argumentCount (function : Name) (expected given : Nat)
  | notCallable (name : Name)
  | tooDeep
  /-- A name that cannot be a variable. -/
  | notKey (name : Name)
  /-- A node where a statement is due. -/
  | notStatement (tag : String)
  /-- A node where an expression is due. -/
  | notExpression (tag : String)
  /-- A node where a block is due. -/
  | notBlock (tag : String)
  /-- A value that a host calls and that is no function. -/
  | notFunction (value : Value)
  /-- A parameter that cannot be shown in the trace. -/
  | notText (index : Nat) (kind : String)
  /-- A loop that went on for more rounds than were allowed. -/
  | unfinished
  /-- A text with surrogates, which no strict stream takes. -/
  | notWritable (run : Text.SurrogateRun)

namespace EvalFault

def report : EvalFault → Report
  | undefined name => .script "NameError" ("undefined variable " ++ name.display)
  | operand fault => fault.report
  | argumentCount function expected given =>
    .script "TypeError" (function.display ++ " expects " ++ toString expected ++
      " arguments, got " ++ toString given)
  | notCallable name =>
    .script "TypeError" (name.display ++ " is not a function or built-in function")
  | tooDeep => .script "RecursionError" "maximum recursion depth exceeded"
  | notKey name => .host "TypeError" ("unhashable type: '" ++ name.kindName ++ "'")
  | notStatement tag =>
    .host "NotImplementedError" ("execute: unexpected node type <class 'calcscript.ast." ++ tag ++ "'>")
  | notExpression tag =>
    .host "NotImplementedError" ("evaluate: unexpected node type <class 'calcscript.ast." ++ tag ++ "'>")
  | notBlock tag => .host "AttributeError" ("'" ++ tag ++ "' object has no attribute 'statements'")
  | notFunction value =>
    .host "AttributeError" ("'" ++ value.representation ++ "' object has no attribute 'decl'")
  | notText index kind =>
    .host "TypeError" ("sequence item " ++ toString index ++ ": expected str instance, " ++ kind ++
      " found")
  | unfinished => .host "TimeoutError" "the loop did not end"
  | notWritable run =>
    let place :=
      if run.count = 1 then
        " '" ++ codeEscape run.first.number ++ "' in position " ++ toString run.position
      else
        "s in position " ++ toString run.position ++ "-" ++ toString (run.position + run.count - 1)
    .host "UnicodeEncodeError"
      ("'utf-8' codec can't encode character" ++ place ++ ": surrogates not allowed")

end EvalFault

/-- What a run changes. -/
structure Machine where
  store : Store
  /-- The pieces of text that were printed, the last one first. -/
  printed : List Text
  /-- Whether the stream they go to is strict: a file, or a standard output that encodes. -/
  printsStrictly : Bool
  trace : Trace

namespace Machine

/-- A machine that has done nothing. Its trace may go to a file, and what it prints to a strict stream. -/
def start (level : Nat) (tracesToFile printsStrictly : Bool) : Machine :=
  { store := .initial, printed := [], printsStrictly, trace := .start level tracesToFile }

/-- The text that was printed. -/
def output (m : Machine) : Text := Text.join m.printed.reverse

end Machine

/-- A computation on a machine. -/
def Eval (α : Type) : Type := Machine → Except EvalFault α × Machine

namespace Eval

variable {α β : Type}

protected def pure (a : α) : Eval α := fun m => (.ok a, m)

/-- One computation and then another, unless the first ends in a fault. -/
protected def bind (p : Eval α) (f : α → Eval β) : Eval β := fun m =>
  match p m with
  | (.ok a, m) => f a m
  | (.error fault, m) => (.error fault, m)

instance : Monad Eval where
  pure := Eval.pure
  bind := Eval.bind

/-- Ends in a fault. -/
def fail (fault : EvalFault) : Eval α := fun m => (.error fault, m)

/-- Does something with the machine, unless a text is to be encoded for it that has no code. -/
def putting (text : Option Text) (put : Machine → Machine) : Eval Unit := fun m =>
  match text.bind Text.surrogates? with
  | some run => (.error (.notWritable run), m)
  | none => (.ok (), put m)

/-- Tells a trace line. -/
def tell (line : TraceLine) : Eval Unit := fun m =>
  let encoded := if m.trace.files line then some line.text else none
  putting encoded (fun m => { m with trace := m.trace.tell line }) m

/-- Whether lines of this threshold are told. -/
def tells (threshold : Nat) : Eval Bool := fun m => (.ok (threshold ≤ m.trace.level), m)

/-- Prints a text, if there is one. -/
def write (text : Option Text) : Eval Unit := fun m =>
  let encoded := if m.printsStrictly then text else none
  putting encoded (fun m => { m with printed := text.toList ++ m.printed }) m

/-- The value of a variable, as seen from a scope. -/
def lookup (scope : Nat) (name : Name) : Eval Value := fun m =>
  if name.isKey then
    match m.store.lookup? scope name with
    | some value => (.ok value, m)
    | none => (.error (.undefined name), m)
  else (.error (.notKey name), m)

/-- Sets a variable of a scope. -/
def assign (scope : Nat) (name : Name) (value : Value) : Eval Unit := fun m =>
  if name.isKey then (.ok (), { m with store := m.store.set scope name value })
  else (.error (.notKey name), m)

/-- Runs a computation in a new scope that hangs off `parent`. The scope is dropped afterwards,
however the computation ends. -/
def inNewScope (parent : Nat) (body : Nat → Eval α) : Eval α := fun m =>
  let (scope, store) := m.store.push parent
  let (outcome, m) := body scope { m with store }
  (outcome, { m with store := m.store.pop })

/-- A built-in operation on values. -/
def native (op : NativeOp) (arguments : List Value) : Eval Value :=
  match op.call arguments with
  | .ok (value, text) => do
    write text
    return value
  | .error fault => fail (.operand fault)

end Eval

end Abacus
