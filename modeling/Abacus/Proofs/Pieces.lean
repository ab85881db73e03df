import Mathlib
import Abacus.Proofs.Joined
import Abacus.Proofs.SortedRun
import Abacus.Proofs.Upholds

/-!
# Programs in pieces

A program can be cut into pieces at the end of any statement. The pieces are programs, and running them
one after the other in one scope is running the whole: nothing but the machine is handed on from one
statement to the next. A piece that returns or fails is the last one to run.

A run closes the trace file at its end, so this needs that no file is open. No step of a run opens one
(`Machine.runStatements_filing`).
-/

namespace Abacus

/-- Whether the trace goes to a file that is open. -/
def Machine.Filing (open? : Bool) (m : Machine) : Prop := m.trace.filing = open?

namespace Eval

/-! ## Statements in a row -/

/-- The statements of one list and then those of another, unless a value has been returned. -/
theorem runStatements_append (execute : Node → Eval (Option Value)) (nodes nodes' : List Node) :
    runStatements execute (nodes ++ nodes')
      = runStatements execute nodes >>= unlessReturned (runStatements execute nodes') := by
  induction nodes with
  | nil => rfl
  | cons node nodes ih =>
    funext m
    rw [List.cons_append, runStatements_cons, runStatements_cons, ih]
    rcases eq : execute node m with ⟨fault | _ | value, m'⟩
    · rw [bind_of_error eq, bind_of_error (bind_of_error eq _)]
    · rw [bind_of_ok eq]
      have first : (execute node >>= unlessReturned (runStatements execute nodes)) m
          = runStatements execute nodes m' := bind_of_ok eq _
      show Eval.bind _ _ m' = Eval.bind _ _ m
      rw [Eval.bind, Eval.bind, first]
    · rw [bind_of_ok eq, bind_of_ok (bind_of_ok eq _)]
      rfl

end Eval

namespace Machine

/-- A program that runs to its end: no statement of it returns, and none fails. -/
def Finishes (limits : Limits) (program : Node) (scope : Nat) (m : Machine) : Prop :=
  (Eval.runBlock (Eval.execute limits.rounds limits.levels · scope) program m).1 = .ok none

/-- What a run gives and leaves behind, told from its statements. -/
theorem run_block (limits : Limits) (nodes : List Node) (scope : Nat) (m : Machine) :
    let ran := Eval.runStatements (Eval.execute limits.rounds limits.levels · scope) nodes m
    run limits (.block nodes) scope m
      = (ran.1.map fun returned => returned.getD .void, { ran.2 with trace := ran.2.trace.close }) := by
  intro ran
  have body : runBlock limits (.block nodes) scope false [] m
      = (ran.1.map fun returned => returned.getD .void, ran.2) := by
    show (Eval.runStatements (Eval.execute limits.rounds limits.levels · scope) nodes >>=
      fun returned => pure (returned.getD .void)) m = _
    rcases eq : ran with ⟨fault | returned, m'⟩
    · exact Eval.bind_of_error eq _
    · exact Eval.bind_of_ok eq _
  rw [run, body]

theorem Finishes.iff_statements {limits : Limits} {nodes : List Node} {scope : Nat} {m : Machine} :
    Finishes limits (.block nodes) scope m ↔
      ∃ m', Eval.runStatements (Eval.execute limits.rounds limits.levels · scope) nodes m
        = (.ok none, m') :=
  ⟨fun h => ⟨_, Prod.ext h rfl⟩, fun ⟨_, h⟩ => congrArg Prod.fst h⟩

/-- Without a file to close, a run leaves behind what its statements do. -/
theorem close_of_filing {m : Machine} (quiet : m.Filing false) :
    { m with trace := m.trace.close } = m := by
  unfold Trace.close
  rw [← quiet]

/-- No statement opens or closes the file. -/
theorem runStatements_filing {m : Machine} (quiet : m.Filing false) (limits : Limits) (nodes : List Node)
    (scope : Nat) :
    (Eval.runStatements (Eval.execute limits.rounds limits.levels · scope) nodes m).2.Filing false :=
  have told (trace : Trace) (line : TraceLine) (closed : trace.filing = false) :
      (trace.tell line).filing = false := (Trace.filing_tell trace line).trans closed
  (Eval.runStatements_upholds (fun node _ =>
    (Eval.evaluate_execute_traced told limits.rounds limits.levels).2 node scope) m quiet).1

section

variable {limits : Limits} {nodes nodes' : List Node} {scope : Nat} {m : Machine}

/-- What comes after a program that finishes runs as if it were a program of its own. -/
theorem run_append_of_finishes (quiet : m.Filing false)
    (finishes : Finishes limits (.block nodes) scope m) :
    run limits (.block (nodes ++ nodes')) scope m
      = run limits (.block nodes') scope (run limits (.block nodes) scope m).2 := by
  obtain ⟨m', ran⟩ := Finishes.iff_statements.1 finishes
  have still : m'.Filing false := by
    have := runStatements_filing quiet limits nodes scope
    rwa [ran] at this
  have left : (run limits (.block nodes) scope m).2 = m' := by
    rw [run_block, ran]
    exact close_of_filing still
  rw [left, run_block, run_block, Eval.runStatements_append, Eval.bind_of_ok ran]
  rfl

/-- What comes after a program that returns or fails has no part in the run. -/
theorem run_append_of_not_finishes (stops : ¬ Finishes limits (.block nodes) scope m) :
    run limits (.block (nodes ++ nodes')) scope m = run limits (.block nodes) scope m := by
  rw [run_block, run_block, Eval.runStatements_append]
  rcases ran : Eval.runStatements (Eval.execute limits.rounds limits.levels · scope) nodes m with
    ⟨fault | _ | value, m'⟩
  · rw [Eval.bind_of_error ran]
  · exact absurd (Finishes.iff_statements.2 ⟨m', ran⟩) stops
  · rw [Eval.bind_of_ok ran]
    rfl

end

/-- Two programs that are written one right after the other are a program, under every limit of nesting
under which each of them is one, with the statements of both. On a machine that writes no trace file,
and in any scope, it runs like the first program and then the second if the first runs to its end; if
that returns or fails, the second has no part in the run. -/
theorem whole_runs_like_its_pieces {a b : List Char} {levels : Nat} {first second : Node}
    (ha : readWithin levels a 0 = .ok first) (hb : readWithin levels b 0 = .ok second) :
    (∀ text, (readProgram text 0).program = readWithin nestingLimit text 0) ∧
    ∃ nodes nodes', first = .block nodes ∧ second = .block nodes' ∧
      readWithin levels (a ++ b) 0 = .ok (.block (nodes ++ nodes')) ∧
      ∀ (limits : Limits) (scope : Nat) (m : Machine), m.Filing false →
        (Finishes limits first scope m →
          run limits (.block (nodes ++ nodes')) scope m
            = run limits second scope (run limits first scope m).2) ∧
        (¬ Finishes limits first scope m →
          run limits (.block (nodes ++ nodes')) scope m = run limits first scope m) := by
  obtain ⟨nodes, nodes', rfl, rfl, read⟩ := readWithin_append ha hb
  refine ⟨fun _ => rfl, nodes, nodes', rfl, rfl, read, fun limits scope m quiet => ⟨?_, ?_⟩⟩
  · exact run_append_of_finishes quiet
  · exact run_append_of_not_finishes

/-- A branch, after which an arm could follow. -/
def branching : Node := .block [.branch [(.int 0, .block [])]]

/-- A program that sets a variable. -/
def assigning : Node := .block [.assignment (.str "x") (.int 2)]

/-- A program that returns. -/
def returning : Node := .block [.returns (.int 3)]

theorem whole_runs_like_its_pieces_branching :
    readWithin 2 "if 0\x7b\x7d".toList 0 = .ok branching ∧
    readWithin 2 "x=2;".toList 0 = .ok assigning ∧
    readWithin 2 "return 3;".toList 0 = .ok returning ∧
    Finishes ⟨9, 0⟩ branching Store.globalId (start 4 false true) ∧
    ¬ Finishes ⟨9, 0⟩ returning Store.globalId (start 4 false true) ∧
    (∃ both, readWithin 2 ("if 0\x7b\x7d".toList ++ "x=2;".toList) 0 = .ok both ∧
      run ⟨9, 0⟩ both Store.globalId (start 4 false true)
        = run ⟨9, 0⟩ assigning Store.globalId
            (run ⟨9, 0⟩ branching Store.globalId (start 4 false true)).2) ∧
    ∃ both, readWithin 2 ("return 3;".toList ++ "x=2;".toList) 0 = .ok both ∧
      run ⟨9, 0⟩ both Store.globalId (start 4 false true)
        = run ⟨9, 0⟩ returning Store.globalId (start 4 false true) := by
  have first : readWithin 2 "if 0\x7b\x7d".toList 0 = .ok branching := by cbv
  have second : readWithin 2 "x=2;".toList 0 = .ok assigning := by cbv
  have third : readWithin 2 "return 3;".toList 0 = .ok returning := by cbv
  have finishes : Finishes ⟨9, 0⟩ branching Store.globalId (start 4 false true) := by
    unfold Finishes
    cbv
  have stops : ¬ Finishes ⟨9, 0⟩ returning Store.globalId (start 4 false true) := by
    intro finishes
    have returned : (Eval.runBlock (Eval.execute 0 9 · Store.globalId) returning
      (start 4 false true)).1 = .ok (some (.int 3)) := by cbv
    cases returned.symm.trans finishes
  have quiet : (start 4 false true).Filing false := rfl
  refine ⟨first, second, third, finishes, stops, ?_, ?_⟩
  · obtain ⟨-, _, _, -, -, both, runs⟩ := whole_runs_like_its_pieces first second
    exact ⟨_, both, (runs _ _ _ quiet).1 finishes⟩
  · obtain ⟨-, _, _, -, -, both, runs⟩ := whole_runs_like_its_pieces third second
    exact ⟨_, both, (runs _ _ _ quiet).2 stops⟩

end Machine

end Abacus
