import Mathlib
import Abacus.Proofs.FlatComplete

/-!
# Scopes refine a single map

Both directions together: on a machine that is ready, a well-sorted program ends in some way if and only
if it does so in the semantics without scopes, from the map that the scope sees. That the chain of scopes
shares its variables among calls, shadows them and is cut back after each call cannot be told from what a
program does.

Limits are left aside: the semantics knows of none, and a run that hits one says nothing. What cannot be
left aside is that a strict stream does not take every text. A machine that prints to a standard output
that encodes, or into a file, or that tells its trace into one, can fail where the semantics does not. A
machine that is ready has such a stream only where no name has a surrogate.
-/

namespace Abacus

namespace Flat

variable {α β : Type}

/-- No limit was hit. -/
def Ended (r : Except EvalFault α) : Prop := ∀ f, r = .error f → f.isLimit = false

theorem Ended.map {r : Except EvalFault α} (h : Ended r) (g : α → β) : Ended (r.map g) := by
  cases r with
  | error f => exact fun f' eq => h f' (by cases eq; rfl)
  | ok a => exact nofun

mutual

theorem Evaluates.ended {env node r lines} : Evaluates env node r lines → Ended r
  | .int => nofun
  | .float => nofun
  | .bool => nofun
  | .reference _ => nofun
  | .unbound _ => by rintro _ ⟨⟩; rfl
  | .noCallee _ => by rintro _ ⟨⟩; rfl
  | .argumentFault _ arguments => fun f eq => arguments.ended f (by cases eq; rfl)
  | .notCallable _ _ _ => by rintro _ ⟨⟩; rfl
  | .native _ _ _ => nofun
  | .nativeFault _ _ _ => by rintro _ ⟨⟩; rfl
  | .wrongCount _ _ _ => by rintro _ ⟨⟩; rfl
  | .call _ _ _ body => body.ended.map _

theorem EvaluatesAll.ended {env nodes r lines} : EvaluatesAll env nodes r lines → Ended r
  | .nil => nofun
  | .fault first => fun f eq => first.ended f (by cases eq; rfl)
  | .cons _ rest => rest.ended.map _

theorem Executes.ended {env node r lines env'} : Executes env node r lines env' → Ended r
  | .assignment _ => nofun
  | .assignmentFault value => fun f eq => value.ended f (by cases eq; rfl)
  | .expression value => value.ended.map _
  | .returns value => value.ended.map _
  | .function => nofun
  | .branch arms => arms.ended
  | .loop rounds => rounds.ended
  | .empty => nofun

theorem ExecutesArms.ended {env arms r lines env'} : ExecutesArms env arms r lines env' → Ended r
  | .nil => nofun
  | .fault condition => fun f eq => condition.ended f (by cases eq; rfl)
  | .taken _ _ body => body.ended
  | .skipped _ _ rest => rest.ended

theorem ExecutesLoop.ended {env c b r lines env'} : ExecutesLoop env c b r lines env' → Ended r
  | .fault condition => fun f eq => condition.ended f (by cases eq; rfl)
  | .done _ _ => nofun
  | .stopped _ _ body _ => body.ended
  | .next _ _ _ rest => rest.ended

theorem ExecutesBlock.ended {env node r lines env'} : ExecutesBlock env node r lines env' → Ended r
  | .block statements => statements.ended

theorem ExecutesAll.ended {env nodes r lines env'} : ExecutesAll env nodes r lines env' → Ended r
  | .nil => nofun
  | .stopped first _ => first.ended
  | .next _ rest => rest.ended

end

end Flat

/-- Any integers, any values, and names of which no more is known than that they are texts. -/
def Vocabulary.loose (names : Text → Prop) : Vocabulary where
  name := names
  integer _ := True
  foreign := True
  integer_of_fits _ := trivial

namespace Machine

open Eval Flat

variable {k : Vocabulary} {program : Node} {scope : Nat} {m : Machine}

theorem run_eq (limits : Limits) (program : Node) (scope : Nat) (m : Machine) :
    run limits program scope m
      = (bodyValue (runBlockIn scope program limits m).1,
          { (runBlockIn scope program limits m).2 with
            trace := (runBlockIn scope program limits m).2.trace.close }) := by
  have body : runBlock limits program scope false [] m = _ :=
    body_eq (show bindAll scope [] m = (.ok (), m) from rfl) (executeIn scope · limits) program
  rw [run, body]

/-- Under these limits the program ends like this in the scope: with this value or fault, after these
lines, and the scope then sees this map. No limit is hit. -/
def EndsWithin (limits : Limits) (m : Machine) (program : Node) (scope : Nat)
    (r : Except EvalFault Value) (lines : List Text) (env' : Env) : Prop :=
  ∃ m', run limits program scope m = (r, m') ∧ Ended r ∧ Printed m lines m' ∧
    m'.store.view scope = env'

/-- What the machine gives within some limits, the flat semantics gives as well. -/
theorem runs_of_endsWithin (block : program.IsBlock k) (ready : m.Ready k scope) {limits : Limits}
    {r : Except EvalFault Value} {lines : List Text} {env' : Env}
    (h : m.EndsWithin limits program scope r lines env') :
    Runs (m.store.view scope) program r lines env' := by
  obtain ⟨m', eq, ended, printed, rfl⟩ := h
  rw [run_eq] at eq
  have shows : Shows _ m (runBlockIn scope program limits m) :=
    runBlock_shows (evaluate_execute_shows k limits.rounds limits.levels).2 block ready
  generalize runBlockIn scope program limits m = outcome at eq shows
  cases eq
  cases shows with
  | limit reached => exact absurd (ended _ rfl) (by simp [reached])
  | @ended ending _ lines' printed' means =>
    have same : lines' = lines := by
      have eq : lines'.reverse ++ m.printed = lines.reverse ++ m.printed := printed'.symm.trans printed
      exact List.reverse_inj.1 (List.append_cancel_right eq)
    exact ⟨ending, same ▸ means, rfl⟩

theorem endsWithin_of_runs (block : program.IsBlock k) (ready : m.Ready k scope)
    {r : Except EvalFault Value} {lines : List Text} {env' : Env}
    (h : Runs (m.store.view scope) program r lines env') :
    ∃ n, ∀ limits : Limits, n ≤ limits.levels → n ≤ limits.rounds →
      m.EndsWithin limits program scope r lines env' := by
  obtain ⟨ending, body, rfl⟩ := h
  obtain ⟨m', printed, view, n, settled⟩ := executesBlock_settles body block ready rfl
  refine ⟨n, fun limits levels rounds => ⟨{ m' with trace := m'.trace.close }, ?_, ?_, printed, view⟩⟩
  · rw [run_eq, settled limits levels rounds]
  · exact body.ended.map _

/-- A function that sets a variable of its own, and one that sees it. -/
def shadowing : Node := .block [
  .function (.str "g") [] (.block [.returns (.reference (.str "x"))]),
  .function (.str "f") [.str "a", .str "a"]
    (.block [.assignment (.str "x") (.reference (.str "a")), .returns (.call (.str "g") [])]),
  .assignment (.str "x") (.int 1),
  .expression (.call (.str "print") [.call (.str "f") [.int 2, .int 3]]),
  .returns (.reference (.str "x"))]

theorem shadowing_isBlock : shadowing.IsBlock (.loose Text.Plain) := by
  have named (s : String) : (Vocabulary.loose Text.Plain).Names (.str s) := .str (Text.plain_ofString s)
  have inner : (Node.block [.returns (.reference (.str "x"))]).IsBlock (.loose Text.Plain) :=
    .block (List.forall_mem_singleton.2 (.returns (.reference (named "x"))))
  have outer : (Node.block [.assignment (.str "x") (.reference (.str "a")),
      .returns (.call (.str "g") [])]).IsBlock (.loose Text.Plain) := .block <|
    List.forall_mem_cons.2 ⟨.assignment (named "x") (.reference (named "a")),
      List.forall_mem_singleton.2 (.returns (.call (named "g") (List.forall_mem_nil _)))⟩
  have twoThree : ∀ e ∈ [Node.int 2, .int 3], e.IsExpression (.loose Text.Plain) :=
    List.forall_mem_cons.2 ⟨.int trivial, List.forall_mem_singleton.2 (.int trivial)⟩
  refine .block ?_
  simp only [List.forall_mem_cons]
  exact ⟨.function (named "g") (List.forall_mem_nil _) inner,
    .function (named "f") (by simpa using named "a") outer,
    .assignment (named "x") (.int trivial),
    .expression (.call (named "print") (List.forall_mem_singleton.2 (.call (named "f") twoThree))),
    .returns (.reference (named "x")), List.forall_mem_nil _⟩

/-- A function with a surrogate for a name, and what it is shown as. -/
def showsSurrogate : Node := .block [
  .function (.str Text.loneSurrogate) [] (.block []),
  .expression (.call (.str "print") [.reference (.str Text.loneSurrogate)])]

theorem showsSurrogate_isBlock : showsSurrogate.IsBlock (.loose fun _ => True) := by
  have named (t : Text) : (Vocabulary.loose fun _ => True).Names (.str t) := .str trivial
  refine .block (List.forall_mem_cons.2 ⟨.function (named _) nofun (.block nofun), ?_⟩)
  exact List.forall_mem_singleton.2
    (.expression (.call (named "print") (List.forall_mem_singleton.2 (.reference (named _)))))

theorem run_showsSurrogate (limits : Limits) :
    ∃ f, (run limits showsSurrogate Store.globalId (start 0 false true)).1 = .error f := by
  obtain ⟨_ | _ | _ | levels, rounds⟩ := limits
  · exact ⟨.tooDeep, by cbv⟩
  · exact ⟨.tooDeep, by cbv⟩
  · exact ⟨.tooDeep, by cbv⟩
  · exact ⟨.notWritable ⟨.ofNat 0xD800, 4, 1⟩, by cbv⟩

end Machine

end Abacus
