import Mathlib
import Abacus.Proofs.ParsedSorts
import Abacus.Proofs.Provenance
import Abacus.Proofs.SortedPoints

/-!
# Integers have thirty-two bits

Whatever texts are run one after the other on a machine, in whatever scopes, and however the runs end:
at every point of every run, all values are ones that scripts have names for. Integers have thirty-two
bits, and so have the literals of every function, which may be called much later and from another scope
(`Value.Genuine`).

The parser checks literals and the operations check results, and nothing checks what is assigned, passed
or returned. So this is an invariant: what is well-sorted stays well-sorted from point to point, in the
vocabulary of scripts, and all its values are genuine.
-/

namespace Abacus

/-! ## Literals -/

namespace Node

mutual

/-- The integer literals of a tree. -/
def integers : Node → List Int
  | int n => [n]
  | call _ arguments => integersOfEach arguments
  | assignment _ value => value.integers
  | expression value => value.integers
  | returns value => value.integers
  | function _ _ body => body.integers
  | branch arms => integersOfArms arms
  | loop condition body => condition.integers ++ body.integers
  | block statements => integersOfEach statements
  | reference _ => []
  | float _ => []
  | bool _ => []
  | empty => []

def integersOfEach : List Node → List Int
  | [] => []
  | node :: nodes => node.integers ++ integersOfEach nodes

def integersOfArms : List (Node × Node) → List Int
  | [] => []
  | (condition, body) :: arms => condition.integers ++ body.integers ++ integersOfArms arms

end

theorem mem_integersOfEach {n : Int} {nodes : List Node} :
    n ∈ integersOfEach nodes ↔ ∃ node ∈ nodes, n ∈ node.integers := by
  induction nodes with
  | nil => simp [integersOfEach]
  | cons node nodes ih => simp [integersOfEach, ih]

theorem mem_integersOfArms {n : Int} {arms : List (Node × Node)} :
    n ∈ integersOfArms arms ↔ ∃ arm ∈ arms, n ∈ arm.1.integers ∨ n ∈ arm.2.integers := by
  induction arms with
  | nil => simp [integersOfArms]
  | cons arm arms ih =>
    obtain ⟨condition, body⟩ := arm
    simp [integersOfArms, ih, or_assoc]

variable {k : Vocabulary}

theorem IsExpression.integers {node : Node} (h : node.IsExpression k) :
    ∀ n ∈ node.integers, k.integer n := by
  induction h with
  | int mem => exact List.forall_mem_singleton.2 mem
  | call named _ ih =>
    intro n mem
    obtain ⟨e, he, within⟩ := mem_integersOfEach.1 mem
    exact ih e he n within
  | _ => exact List.forall_mem_nil _

mutual

theorem IsStatement.integers {node : Node} : node.IsStatement k → ∀ n ∈ node.integers, k.integer n
  | .assignment _ value => value.integers
  | .expression value => value.integers
  | .returns value => value.integers
  | .function _ _ body => body.integers
  | .branch conditions bodies => by
    intro n mem
    obtain ⟨arm, ha, inCondition | inBody⟩ := mem_integersOfArms.1 mem
    · exact (conditions arm ha).integers n inCondition
    · exact (bodies arm ha).integers n inBody
  | .loop condition body => by
    intro n mem
    rcases List.mem_append.1 mem with inCondition | inBody
    · exact condition.integers n inCondition
    · exact body.integers n inBody
  | .empty => List.forall_mem_nil _

theorem IsBlock.integers {node : Node} : node.IsBlock k → ∀ n ∈ node.integers, k.integer n
  | .block each => by
    intro n mem
    obtain ⟨s, hs, within⟩ := mem_integersOfEach.1 mem
    exact (each s hs).integers n within

end

end Node

/-! ## Values -/

/-- A value that a script can have. No truth value, error or pending result is one. -/
inductive Value.Genuine : Value → Prop
  | int {n} (lower : -2147483648 ≤ n) (upper : n ≤ 2147483647) : Genuine (.int n)
  | float {x} : Genuine (.float x)
  | void : Genuine .void
  | builtin {op} : Genuine (.builtin op)
  | function {name params body}
      (literals : ∀ n ∈ (Node.function name params body).integers,
        -2147483648 ≤ n ∧ n ≤ 2147483647) : Genuine (.function name params body)

/-- All variables have genuine values. -/
def Machine.Genuine (m : Machine) : Prop := ∀ v, m.Bears (.bound v) → v.Genuine

theorem fitsInt32_iff {n : Int} : fitsInt32 n = true ↔ -2147483648 ≤ n ∧ n ≤ 2147483647 := by
  rw [fitsInt32, Bool.and_eq_true_iff, decide_eq_true_iff, decide_eq_true_iff, minInt, maxInt]

/-- What scripts are made of, with any texts for names. -/
abbrev Vocabulary.scripts : Vocabulary := .script fun _ => True

theorem Value.Sorted.genuine {v : Value} (h : v.Sorted .scripts) : v.Genuine := by
  cases h with
  | int mem =>
    obtain ⟨lower, upper⟩ := fitsInt32_iff.1 mem
    exact .int lower upper
  | float => exact .float
  | void => exact .void
  | builtin => exact .builtin
  | function _ _ body => exact .function fun n mem => fitsInt32_iff.1 (body.integers n mem)
  | bool foreign => exact foreign.elim
  | error foreign => exact foreign.elim
  | returned foreign => exact foreign.elim

theorem Store.Sorted.genuine {m : Machine} (h : m.store.Sorted .scripts) : m.Genuine := by
  rintro v ⟨id, scope, found, b, mem, rfl⟩
  exact (h id scope found b mem).genuine

namespace Machine

theorem isBlock_of_read {text : List Char} {offset : Nat} {program : Node}
    (read : (readProgram text offset).program = .ok program) : program.IsBlock .scripts :=
  isBlock_of_readProgram (fun _ => trivial) read

theorem Played.sorted {m : Machine} (h : m.Played) : m.store.Sorted .scripts := by
  induction h with
  | start => exact Store.sorted_initial _
  | child _ parent ih => exact ih.push parent
  | run _ read limits scope ih =>
    have sorted : (Activity.run limits.levels _ scope).Sorted .scripts := isBlock_of_read read
    exact (Activity.perform_sorted limits.rounds sorted ih).2

/-- Every value is genuine that is bound, passed, printed or returned at any point of a run on a machine
that has run only what texts hold, and so is the value of the run. Whatever the run has bound or printed
was bound or printed at one of its points. -/
theorem values_are_genuine (m : Machine) (played : m.Played) (text : List Char) (offset : Nat)
    (program : Node) (read : (readProgram text offset).program = .ok program) (limits : Limits)
    (scope : Nat) :
    m.Genuine ∧
    (∀ activity point,
      Activity.Within limits.rounds (.run limits.levels program scope, m) (activity, point) →
      point.Genuine ∧
      (∀ v ∈ activity.given, v.Genuine) ∧
      (∀ vs, (activity.perform limits.rounds point).1 = .ok vs → ∀ v ∈ vs, v.Genuine) ∧
      (activity.perform limits.rounds point).2.Genuine) ∧
    (∀ v, (run limits program scope m).1 = .ok v → v.Genuine) ∧
    (run limits program scope m).2.Genuine ∧
    ∀ mark, (run limits program scope m).2.Bears mark → m.Bears mark ∨
      ∃ activity point,
        Activity.Within limits.rounds (.run limits.levels program scope, m) (activity, point) ∧
        activity.Makes mark := by
  have store := played.sorted
  have sorted : (Activity.run limits.levels program scope).Sorted .scripts :=
    isBlock_of_read read
  have whole := Activity.perform_sorted limits.rounds sorted store
  refine ⟨store.genuine, fun activity point within => ?_, fun v returned => ?_, whole.2.genuine,
    Activity.perform_sourced (.run limits.levels program scope) m⟩
  · obtain ⟨activity_sorted, point_sorted⟩ := within.sorted sorted store
    obtain ⟨results, after⟩ := Activity.perform_sorted limits.rounds activity_sorted point_sorted
    exact ⟨point_sorted.genuine, fun v mem => (activity_sorted.given v mem).genuine,
      fun vs done v mem => (results vs done v mem).genuine, after.genuine⟩
  · refine (whole.1 [v] ?_ v List.mem_cons_self).genuine
    exact congrArg (Except.map fun v => [v]) returned

/-- A program that declares a function. -/
def declaring : Node := .block [.function (.str "f") [.str "n"]
  (.block [.returns (.call (.str "+") [.reference (.str "n"), .int 1])])]

/-- A program that has it add to the largest integer. -/
def overflowing : Node := .block [.assignment (.str "a") (.int 2147483647),
  .expression (.call (.str "f") [.reference (.str "a")])]

/-- The function has been declared, and there is a new scope. -/
def declared : Machine :=
  let m := (run ⟨9, 0⟩ declaring Store.globalId (start 0 false false)).2
  { m with store := (m.store.push Store.globalId).2 }

set_option maxRecDepth 5000 in
theorem values_are_genuine_overflowing :
    declared.Played ∧
      (readProgram "a=2147483647;f(a);".toList 0).program = .ok overflowing ∧
      (run ⟨9, 0⟩ overflowing 2 declared).1 = .error (.operand (.overflow .add)) ∧
      (run ⟨9, 0⟩ overflowing 2 declared).2.Genuine ∧
      Activity.Within 0 (.run 9 overflowing 2, declared)
        (.assign 2 (.str "a") (.int 2147483647), declared) ∧
      (Value.int 2147483647).Genuine := by
  have first : (readProgram "fn f(n)\x7breturn n+1;\x7d".toList 0).program = .ok declaring := by cbv
  have second : (readProgram "a=2147483647;f(a);".toList 0).program = .ok overflowing := by cbv
  have played : declared.Played := .child (.run (.start 0 false false) first ⟨9, 0⟩ Store.globalId) _
  have within : Activity.Within 0 (.run 9 overflowing 2, declared)
      (.assign 2 (.str "a") (.int 2147483647), declared) :=
    .head .program (.head .block (.head .statement (.single (.assigns rfl))))
  have genuine := values_are_genuine declared played _ 0 overflowing second ⟨9, 0⟩ 2
  refine ⟨played, second, by cbv, genuine.2.2.2.1, within, ?_⟩
  exact (genuine.2.1 _ _ within).2.1 _ List.mem_cons_self

end Machine

end Abacus
