import Mathlib
import Abacus.Proofs.ParsedSorts
import Abacus.Proofs.SortedRun
import Abacus.Proofs.Tandem

/-!
# Tracing only watches

A run tells the same lines to any trace, and the trace keeps those that its level reaches. So the level of
the trace changes nothing of what a well-sorted program does, and the lines of a lower level are those of
the highest one whose threshold the lower level reaches (`Machine.tracing_only_watches`).

The loudest trace has level four, and a file if any trace that it is compared with has one. It can fail
where another one does not: a parameter that is no text cannot be told, and a name with a surrogate cannot
be filed. A well-sorted program has no such parameters, and with a file its names have to be plain.
-/

namespace Abacus

/-! ## What a trace keeps -/

theorem TraceLine.threshold_le_four (line : TraceLine) : line.threshold ≤ 4 := by
  cases line <;> simp [threshold]

namespace Trace

/-- The lines that were told, from the first to the last: those in the file, and then those on the error
output. -/
def lines (trace : Trace) : List TraceLine := (trace.shown ++ trace.file.getD []).reverse

/-- Tells lines, one after the other. -/
def tellAll (trace : Trace) (told : List TraceLine) : Trace := told.foldl tell trace

/-- Puts lines where lines go, whatever the level. -/
def keep (trace : Trace) (kept : List TraceLine) : Trace :=
  if trace.filing then { trace with file := trace.file.map (kept.reverse ++ ·) }
  else { trace with shown := kept.reverse ++ trace.shown }

@[simp] theorem keep_nil (trace : Trace) : trace.keep [] = trace := by
  unfold keep
  split <;> simp

theorem keep_keep (trace : Trace) (first second : List TraceLine) :
    (trace.keep first).keep second = trace.keep (first ++ second) := by
  unfold keep
  cases trace with
  | mk level file filing shown => cases filing <;> cases file <;> simp

@[simp] theorem level_keep (trace : Trace) (kept : List TraceLine) :
    (trace.keep kept).level = trace.level := by
  unfold keep
  split <;> rfl

@[simp] theorem filing_keep (trace : Trace) (kept : List TraceLine) :
    (trace.keep kept).filing = trace.filing := by
  unfold keep
  split <;> rfl

theorem tell_of_le {trace : Trace} {line : TraceLine} (h : line.threshold ≤ trace.level) :
    trace.tell line = trace.keep [line] := by
  rw [tell, if_neg (Nat.not_lt.2 h)]
  rfl

theorem tell_of_lt {trace : Trace} {line : TraceLine} (h : trace.level < line.threshold) :
    trace.tell line = trace := by
  rw [tell, if_pos h]

/-- Of the lines it is told, a trace keeps those that its level reaches. -/
theorem tellAll_eq_keep (trace : Trace) (told : List TraceLine) :
    trace.tellAll told = trace.keep (told.filter (·.threshold ≤ trace.level)) := by
  induction told generalizing trace with
  | nil => exact (keep_nil trace).symm
  | cons line told ih =>
    show (trace.tell line).tellAll told = _
    rw [ih]
    by_cases reached : line.threshold ≤ trace.level
    · rw [tell_of_le reached, level_keep, keep_keep, List.filter_cons_of_pos (by simpa using reached)]
      rfl
    · rw [tell_of_lt (Nat.not_le.1 reached), List.filter_cons_of_neg (by simpa using reached)]

theorem lines_keep_start (level : Nat) (withFile : Bool) (kept : List TraceLine) :
    ((start level withFile).keep kept).lines = kept := by
  unfold keep lines start
  cases withFile && decide (0 < level) <;> simp

theorem lines_tellAll_start (level : Nat) (withFile : Bool) (told : List TraceLine) :
    ((start level withFile).tellAll told).lines = told.filter (·.threshold ≤ level) := by
  rw [tellAll_eq_keep, lines_keep_start]
  rfl

/-- Nothing is above the highest level. -/
theorem lines_tellAll_loudest (withFile : Bool) (told : List TraceLine) :
    ((start 4 withFile).tellAll told).lines = told := by
  rw [lines_tellAll_start, List.filter_eq_self]
  intro line _
  exact decide_eq_true line.threshold_le_four

end Trace

/-! ## Beside the loudest trace -/

/-- The faults that are due to the trace, and not to what the program does. -/
inductive EvalFault.OfTrace (withFile : Bool) : EvalFault → Prop
  | notText {index kind} : OfTrace withFile (.notText index kind)
  | notWritable {run} (file : withFile = true) : OfTrace withFile (.notWritable run)

/-- A well-sorted program does not end in them. -/
theorem EvalFault.Expected.not_ofTrace {k : Vocabulary} {strict withFile : Bool} {f : EvalFault}
    (expected : f.Expected k strict) (plain : withFile = true → k.Plain) : ¬ f.OfTrace withFile := by
  intro ofTrace
  cases ofTrace with
  | notText => cases expected
  | notWritable file =>
    cases expected with
    | notWritable _ named odd => exact odd (plain file _ named)

/-- A trace that has been told what the loudest one has been told. -/
def Trace.Follows (withFile : Bool) (origin loudest trace : Trace) : Prop :=
  ∃ told, loudest = (Trace.start 4 withFile).tellAll told ∧ trace = origin.tellAll told

namespace Trace.Follows

variable {withFile : Bool} {origin loudest trace : Trace}

theorem tell (h : Follows withFile origin loudest trace) (line : TraceLine) :
    Follows withFile origin (loudest.tell line) (trace.tell line) := by
  obtain ⟨told, rfl, rfl⟩ := h
  exact ⟨told ++ [line], by simp [tellAll], by simp [tellAll]⟩

theorem level_eq (h : Follows withFile origin loudest trace) : loudest.level = 4 := by
  obtain ⟨told, rfl, -⟩ := h
  rw [tellAll_eq_keep, level_keep]
  rfl

theorem files_loudest (h : Follows withFile origin loudest trace) (line : TraceLine) :
    loudest.files line = withFile := by
  obtain ⟨told, rfl, -⟩ := h
  rw [tellAll_eq_keep, files, filing_keep, level_keep]
  simp [start, line.threshold_le_four]

theorem filing_eq (h : Follows withFile origin loudest trace) : trace.filing = origin.filing := by
  obtain ⟨told, -, rfl⟩ := h
  rw [tellAll_eq_keep, filing_keep]

end Trace.Follows

namespace Eval

theorem tell_of_writable {m : Machine} {line : TraceLine}
    (h : m.trace.files line = true → line.text.surrogates? = none) :
    tell line m = (.ok (), { m with trace := m.trace.tell line }) := by
  unfold tell putting
  cases files : m.trace.files line with
  | false => rfl
  | true => simp [h files]

theorem tell_of_odd {m : Machine} {line : TraceLine} {run : Text.SurrogateRun}
    (files : m.trace.files line = true) (odd : line.text.surrogates? = some run) :
    tell line m = (.error (.notWritable run), m) := by
  unfold tell putting
  simp [files, odd]

/-- A line is told, or it is to go to a file that cannot hold it. -/
theorem tell_cases (line : TraceLine) (m : Machine) :
    (m.trace.files line = true → line.text.surrogates? = none) ∧
        tell line m = (.ok (), { m with trace := m.trace.tell line }) ∨
      ∃ run, m.trace.files line = true ∧ line.text.surrogates? = some run ∧
        tell line m = (.error (.notWritable run), m) := by
  by_cases writable : m.trace.files line = true → line.text.surrogates? = none
  · exact .inl ⟨writable, tell_of_writable writable⟩
  · obtain ⟨files, odd⟩ := Classical.not_imp.1 writable
    obtain ⟨run, odd⟩ := Option.ne_none_iff_exists'.1 odd
    exact .inr ⟨run, files, odd, tell_of_odd files odd⟩

/-- What can be told to the loudest trace can be told to any. -/
theorem listening_follows {withFile : Bool} {origin : Trace}
    (file : origin.filing = true → withFile = true) :
    Listening (Trace.Follows withFile origin) (fun f _ => f.OfTrace withFile) where
  told line m n beside := by
    have follows := beside.trace
    rcases tell_cases line m with ⟨writable, told⟩ | ⟨run, files, -, failed⟩
    · have right : n.trace.files line = true → line.text.surrogates? = none := by
        intro files
        refine writable ((follows.files_loudest line).trans (file ?_))
        rw [← follows.filing_eq]
        exact (Bool.and_eq_true_iff.1 files).1
      rw [told, tell_of_writable right]
      exact .same ⟨beside.store, beside.printed, beside.printsStrictly, follows.tell line⟩
    · rw [failed]
      exact .excused (.notWritable ((follows.files_loudest line).symm.trans files))
  reach line follows _ := by
    rw [follows.level_eq]
    exact line.threshold_le_four
  keeps _ _ excuse := excuse
  check _ _ _ := .inr fun _ _ _ => .notText

end Eval

/-! ## Runs -/

namespace Machine

open Eval

variable {k : Vocabulary} {program : Node} {m : Machine} {withFile : Bool}

/-- What a well-sorted program does, and the lines it tells, are the same for every trace. -/
theorem run_eq_of_sorted (block : program.IsBlock k) (store : m.store.Sorted k)
    (plain : withFile = true → k.Plain) (limits : Limits) (scope : Nat) :
    ∃ (r : Except EvalFault Value) (m' : Machine) (told : List TraceLine),
      ∀ trace : Trace, (trace.filing = true → withFile = true) → run limits program scope { m with trace }
        = (r, { m' with trace := (trace.tellAll told).close }) := by
  -- What there is to say of the run is read off the run with the loudest trace.
  have fine := runBlock_sound block limits scope { m with trace := .start 4 withFile } ⟨store, rfl⟩
  rcases loudest : runBlock limits program scope false [] { m with trace := .start 4 withFile }
    with ⟨r, m'⟩
  rw [loudest] at fine
  refine ⟨r, m', m'.trace.lines, fun trace file => ?_⟩
  have together := runBlock_together (listening_follows file) (Nat.le_refl limits.rounds)
    (fun lt => absurd lt (Nat.lt_irrefl _)) (Nat.le_refl limits.levels)
    (fun lt => absurd lt (Nat.lt_irrefl _)) program scope false []
  have agree := @together.agree { m with trace := .start 4 withFile } { m with trace }
    ⟨rfl, rfl, rfl, [], rfl, rfl⟩
  rw [loudest] at agree
  unfold run
  generalize runBlock limits program scope false [] { m with trace } = outcome at agree ⊢
  cases agree with
  | same beside =>
    obtain ⟨told, heard, followed⟩ := beside.trace
    rw [beside.eq, heard, Trace.lines_tellAll_loudest, ← followed]
  | excused excuse =>
    cases fine with
    | fault expected => exact absurd excuse (expected.not_ofTrace plain)

/-- A run with a trace of its own, which has told nothing before. -/
def runTraced (limits : Limits) (program : Node) (scope : Nat) (m : Machine) (withFile : Bool)
    (level : Nat) : Except EvalFault Value × Machine :=
  run limits program scope { m with trace := .start level withFile }

/-- Every program that a text holds is well-sorted and has plain names. A well-sorted program, whose names
have to be plain only if they may go to a trace file, does the same at any two levels. However it ends, the
lines it has told are those of level four whose threshold the level reaches. -/
theorem tracing_only_watches :
    (∀ text offset program, (readProgram text offset).program = .ok program →
      program.IsBlock (.script Text.Plain)) ∧
    ∀ (names : Text → Prop) (program : Node) (m : Machine) (scope : Nat) (limits : Limits)
      (withFile : Bool), program.IsBlock (.script names) → m.store.Sorted (.script names) →
      (withFile = true → ∀ t, names t → t.Plain) → ∀ level level' : Nat,
        let traced := runTraced limits program scope m withFile
        (traced level).1 = (traced level').1 ∧
          (traced level).2.printed = (traced level').2.printed ∧
          (traced level).2.store = (traced level').2.store ∧
          (traced level).2.trace.lines = (traced 4).2.trace.lines.filter (·.threshold ≤ level) := by
  refine ⟨fun _ _ _ => isBlock_of_readProgram Text.plain_ofString, ?_⟩
  intro names program m scope limits withFile block store plain level level' traced
  obtain ⟨r, m', told, same⟩ := run_eq_of_sorted block store plain limits scope
  have at_level (level : Nat) : traced level
      = (r, { m' with trace := ((Trace.start level withFile).tellAll told).close }) :=
    same _ fun filing => (Bool.and_eq_true_iff.1 filing).1
  have lines : (traced level).2.trace.lines = told.filter (·.threshold ≤ level) := by
    rw [at_level]
    exact Trace.lines_tellAll_start level withFile told
  have loudest : (traced 4).2.trace.lines = told := by
    rw [at_level]
    exact Trace.lines_tellAll_loudest withFile told
  rw [lines, loudest, at_level level, at_level level']
  exact ⟨rfl, rfl, rfl, rfl⟩

/-- A function that divides by zero. -/
def dividingFunction : Value :=
  .function (.str "f") [.str "n"] (.block [
    .assignment (.str "x") (.reference (.str "n")),
    .returns (.call (.str "/") [.reference (.str "n"), .int 0])])

/-- A machine that has the function. -/
def withDividing : Machine :=
  { start 0 false false with store := Store.initial.set Store.globalId (.str "f") dividingFunction }

/-- A program that calls it where a condition is due. -/
def callingDividing : Node := .block [.branch [(.call (.str "f") [.int 1], .block [])]]

set_option maxRecDepth 10000 in
theorem tracing_only_watches_dividing :
    (readProgram "if f(1)\x7b\x7d".toList 0).program = .ok callingDividing ∧
      callingDividing.IsBlock (.script Text.Plain) ∧
      withDividing.store.Sorted (.script Text.Plain) ∧
      let traced := runTraced ⟨6, 0⟩ callingDividing Store.globalId withDividing true
      (traced 4).2.trace.lines = [.call (.str "f") 1, .lookup (.str "n") (.int 1),
          .assign (.str "x") (.int 1), .call (.str "/") 2, .lookup (.str "n") (.int 1)] ∧
        (traced 2).2.trace.lines = [.assign (.str "x") (.int 1)] ∧
        (traced 2).1 = (traced 0).1 ∧ (traced 2).2.store = (traced 0).2.store := by
  have read : (readProgram "if f(1)\x7b\x7d".toList 0).program = .ok callingDividing := by cbv
  have loudest : (runTraced ⟨6, 0⟩ callingDividing Store.globalId withDividing true 4).2.trace.lines
      = [.call (.str "f") 1, .lookup (.str "n") (.int 1), .assign (.str "x") (.int 1),
        .call (.str "/") 2, .lookup (.str "n") (.int 1)] := by cbv
  have named (s : String) : (Vocabulary.script Text.Plain).Names (.str s) := .str (Text.plain_ofString s)
  have body : dividingFunction.Sorted (.script Text.Plain) := by
    refine .function (named "f") (List.forall_mem_singleton.2 (named "n")) (.block ?_)
    refine List.forall_mem_cons.2 ⟨.assignment (named "x") (.reference (named "n")), ?_⟩
    refine List.forall_mem_singleton.2 (.returns (.call (named "/") ?_))
    exact List.forall_mem_cons.2 ⟨.reference (named "n"), List.forall_mem_singleton.2 (.int rfl)⟩
  have block := tracing_only_watches.1 _ 0 callingDividing read
  have store : withDividing.store.Sorted (.script Text.Plain) :=
    (Store.sorted_initial _).set Store.globalId (.str "f") body
  obtain ⟨outcome, -, scopes, lines⟩ := tracing_only_watches.2 _ callingDividing withDividing
    Store.globalId ⟨6, 0⟩ true block store (fun _ _ plain => plain) 2 0
  rw [loudest] at lines
  exact ⟨read, block, store, loudest, lines, outcome, scopes⟩

end Machine

end Abacus
