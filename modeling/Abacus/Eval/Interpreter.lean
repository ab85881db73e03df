import Abacus.Eval.Evaluate

/-!
# Running programs

What a host can do with a machine: run a program in a scope, run a block with or without a scope of its
own, call a function by its name. Running a program closes the trace file, however the run ends.
-/

namespace Abacus

/-- The bounds of a run. -/
structure Limits where
  /-- How deep evaluation may nest. -/
  levels : Nat
  /-- How many rounds a loop may take. -/
  rounds : Nat

namespace Limits

/-- The bounds that hosts use. -/
def standard : Limits where
  levels := 3000
  rounds := Nat.pow 2 60

end Limits

namespace Machine

/-- Runs a block, in the scope itself or in a new one that hangs off it, with some variables set. The
value is what the block returns, or `void`. -/
def runBlock (limits : Limits) (program : Node) (scope : Nat) (newScope : Bool)
    (bindings : List (Name × Value)) : Eval Value :=
  let body (scope : Nat) : Eval Value := do
    Eval.bindAll scope bindings
    let returned ← Eval.runBlock (Eval.execute limits.rounds limits.levels · scope) program
    return returned.getD .void
  if newScope then Eval.inNewScope scope body else body scope

/-- Runs a program in a scope. -/
def run (limits : Limits) (program : Node) (scope : Nat) : Eval Value := fun m =>
  let (outcome, m) := runBlock limits program scope false [] m
  (outcome, { m with trace := m.trace.close })

/-- Calls whatever has this name, as seen from a scope. -/
def call (limits : Limits) (name : Name) (arguments : List Value) (scope : Nat) : Eval Value := do
  match ← Eval.lookup scope name with
  | .builtin op => Eval.native op arguments
  | .function name params body =>
    Eval.callFunction (Eval.execute limits.rounds limits.levels) name params body arguments scope
  | value => Eval.fail (.notFunction value)

end Machine

end Abacus
