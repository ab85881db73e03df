import Mathlib
import Abacus.Proofs.MoreRoom
import Abacus.Proofs.ParsedSorts
import Abacus.Proofs.SortedRun

/-!
# Well-sorted programs end well

A well-sorted program that runs among values that scripts compute goes on forever, or gives a value, or
ends in one of five errors that scripts are told of. It never stumbles over a node, a name or a value that
cannot be where it is. Programs from texts are well-sorted.

Rounds stand for time: a run that goes on forever is one that no number of rounds is enough for. If some
number is enough, then every larger one gives the same outcome, so there is one outcome to speak of.

A tree from a file can have a name with a surrogate. When it is to be printed where texts are encoded, on
a standard output or into a file, or traced into a file, that fails, and the script is not to blame.
-/

namespace Abacus

namespace Machine

/-- How a run of a well-sorted program ends. -/
inductive EndsWell (k : Vocabulary) (strict : Bool) : Except EvalFault Value → Prop
  | value {v} (sorted : v.Sorted k) : EndsWell k strict (.ok v)
  | scriptError {f name message} (reported : f.report = .script name message)
      (known : name ∈ ["NameError", "TypeError", "OverflowError", "ZeroDivisionError", "RecursionError"]) :
      EndsWell k strict (.error f)
  | notWritable {run t} (writes : strict = true) (named : k.name t) (odd : ¬ t.Plain) :
      EndsWell k strict (.error (.notWritable run))

/-- The run goes on forever, or it ends well and with variables as they should be. -/
def RunsSafely (k : Vocabulary) (levels : Nat) (m : Machine) (program : Node) (scope : Nat) : Prop :=
  (∀ rounds, (run ⟨levels, rounds⟩ program scope m).1 = .error .unfinished) ∨
    ∃ enough r m', (∀ rounds, enough ≤ rounds → run ⟨levels, rounds⟩ program scope m = (r, m')) ∧
      EndsWell k m.strict r ∧ m'.store.Sorted k

variable {k : Vocabulary} {strict : Bool} {program : Node} {scope : Nat} {m : Machine}

theorem endsWell_of_expected {f : EvalFault} (h : f.Expected k strict) (finished : f ≠ .unfinished) :
    EndsWell k strict (.error f) := by
  cases h with
  | undefined => exact .scriptError rfl (by decide)
  | @operand fault => cases fault <;> exact .scriptError rfl (by decide)
  | argumentCount => exact .scriptError rfl (by decide)
  | notCallable => exact .scriptError rfl (by decide)
  | tooDeep => exact .scriptError rfl (by decide)
  | unfinished => exact absurd rfl finished
  | notWritable writes named odd => exact .notWritable writes named odd

/-- A run that is over has ended well. -/
theorem run_endsWell (block : program.IsBlock k) (store : m.store.Sorted k) {limits : Limits}
    (finished : (run limits program scope m).1 ≠ .error .unfinished) :
    EndsWell k m.strict (run limits program scope m).1 ∧
      (run limits program scope m).2.store.Sorted k := by
  have fine := runBlock_sound block limits scope m ⟨store, rfl⟩
  unfold run at finished ⊢
  generalize runBlock limits program scope false [] m = outcome at fine finished ⊢
  cases fine with
  | value sorted after => exact ⟨.value sorted, after.store⟩
  | fault expected after =>
    exact ⟨endsWell_of_expected expected fun eq => finished (by rw [eq]), after.store⟩

/-- More rounds do not change how a run has ended. -/
theorem run_eq_of_rounds_le {levels rounds rounds' : Nat} (le : rounds ≤ rounds')
    (finished : (run ⟨levels, rounds⟩ program scope m).1 ≠ .error .unfinished) :
    run ⟨levels, rounds'⟩ program scope m = run ⟨levels, rounds⟩ program scope m := by
  have longer : Eval.Extends (· = .unfinished) (run ⟨levels, rounds⟩ program scope)
      (run ⟨levels, rounds'⟩ program scope) := by
    refine run_extends le (fun _ => ?_) (Nat.le_refl levels) (fun lt => ?_) program scope
    · rfl
    · exact absurd lt (Nat.lt_irrefl levels)
  rcases longer m with ⟨f, eq, rfl⟩ | same
  · exact absurd eq finished
  · exact same

theorem runsSafely (block : program.IsBlock k) (store : m.store.Sorted k) (levels : Nat) :
    m.RunsSafely k levels program scope := by
  by_cases forever : ∀ rounds, (run ⟨levels, rounds⟩ program scope m).1 = .error .unfinished
  · exact .inl forever
  · obtain ⟨enough, finished⟩ := not_forall.1 forever
    obtain ⟨well, after⟩ := run_endsWell block store finished
    exact .inr ⟨enough, _, _, fun rounds le => run_eq_of_rounds_le le finished, well, after⟩

/-- Every program that a text holds is well-sorted, and every well-sorted program runs safely, under any
number of levels, with any trace and wherever it prints. -/
theorem well_sorted_runs_safely :
    (∀ text offset program (names : Text → Prop), (∀ s : String, names s) →
      (readProgram text offset).program = .ok program → program.IsBlock (.script names)) ∧
    ∀ (names : Text → Prop) (program : Node) (m : Machine) (scope levels : Nat),
      program.IsBlock (.script names) → m.store.Sorted (.script names) →
        m.RunsSafely (.script names) levels program scope :=
  ⟨fun _ _ _ _ words read => isBlock_of_readProgram words read,
    fun _ _ _ _ levels block store => runsSafely block store levels⟩

/-- A program that divides by zero. -/
def dividing : Node := .block [.assignment (.str "x") (.call (.str "/") [.int 1, .int 0])]

set_option maxRecDepth 1500 in
theorem well_sorted_runs_safely_dividing :
    (readProgram "x = 1 / 0;".toList 0).program = .ok dividing ∧
      dividing.IsBlock (.script Text.Plain) ∧
      (start 4 true true).store.Sorted (.script Text.Plain) ∧
      (start 4 true true).RunsSafely (.script Text.Plain) Limits.standard.levels dividing
        Store.globalId := by
  have read : (readProgram "x = 1 / 0;".toList 0).program = .ok dividing := by cbv
  have block := well_sorted_runs_safely.1 _ 0 dividing Text.Plain Text.plain_ofString read
  have store := Store.sorted_initial (.script Text.Plain)
  exact ⟨read, block, store, well_sorted_runs_safely.2 _ dividing (start 4 true true) Store.globalId
    Limits.standard.levels block store⟩

/-- A program that declares a function with a surrogate for a name. -/
def declaresSurrogate : Node := .block [.function (.str Text.loneSurrogate) [] (.block [])]

/-- With a trace file, the declaration fails, and not by an error of the script. -/
theorem tracing_surrogate_fails :
    declaresSurrogate.IsBlock (.script fun _ => True) ∧
      (start 1 true false).store.Sorted (.script fun _ => True) ∧
      ∀ levels rounds, ∃ f message,
        (run ⟨levels + 1, rounds⟩ declaresSurrogate Store.globalId (start 1 true false)).1 = .error f ∧
          f.report = .host "UnicodeEncodeError" message := by
  refine ⟨.block ?_, Store.sorted_initial _, fun levels rounds => ?_⟩
  · exact List.forall_mem_singleton.2 (.function (.str trivial) nofun (.block nofun))
  · exact ⟨.notWritable ⟨.ofNat 0xD800, 16, 1⟩, _, by cbv, rfl⟩

end Machine

end Abacus
