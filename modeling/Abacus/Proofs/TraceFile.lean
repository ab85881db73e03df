import Mathlib
import Abacus.Eval.Session
import Abacus.Proofs.Safety
import Abacus.Proofs.Tracing
import Abacus.Proofs.TreeRoundTrip

/-!
# The trace file

The lines of a trace go to a file until the first run has ended, and to the error output from then on. A
session without a file tells all of them on the error output. Side by side, the two sessions do the same
things, and the trace of the second one is cut in two by the first one (`trace_file_splits_trace`).

A file takes only texts without surrogates. A line that has some is an error where there is a file, and
none where there is not, and that is the only difference (`filing_surrogate_fails`). What is printed goes
the same way in both sessions, so a text that cannot be printed is an error in both.
-/

namespace Abacus

/-! ## Hosts -/

/-- What a host does with a session and the functions it holds. -/
inductive Deed where
  | step (step : Step)
  /-- Goes on in another scope. -/
  | enter (scope : Nat)
  | apply (name : Name) (params : List Name) (body : Node) (arguments : List Value)

namespace Deed

/-- Whether a program is run. A text that cannot be read is not. -/
def runs : Deed → Bool
  | .step (.run script) => script.read.program.isOk
  | _ => false

/-- What is done until the first run has ended. -/
def throughFirstRun : List Deed → List Deed
  | [] => []
  | deed :: deeds => deed :: if deed.runs then [] else throughFirstRun deeds

end Deed

namespace Session

/-- A session on a new machine, in some scope. -/
def fresh (level : Nat) (tracesToFile printsStrictly : Bool) (scope : Nat) : Session :=
  { machine := .start level tracesToFile printsStrictly, current := scope, warnings := [] }

def act (s : Session) : Deed → Answer × Session
  | .step step => s.step step
  | .enter scope => (.done, { s with current := scope })
  | .apply name params body arguments =>
    s.perform (Eval.callFunction (Eval.execute Limits.standard.rounds Limits.standard.levels)
      name params body arguments s.current) .value

/-- One deed after the other, whatever comes of them. -/
def play (s : Session) : List Deed → List Answer × Session
  | [] => ([], s)
  | deed :: deeds =>
    let first := s.act deed
    let rest := first.2.play deeds
    (first.1 :: rest.1, rest.2)

end Session

/-! ## Traces -/

/-- A trace that had a file, and one that has none. The lines of the file are those before the cut. -/
inductive Trace.Split : Option (List TraceLine) → Trace → Trace → Prop
  | filing (level : Nat) (lines : List TraceLine) :
      Split none ⟨level, some lines, true, []⟩ ⟨level, none, false, lines⟩
  | closed (level : Nat) (lines later : List TraceLine) :
      Split (some lines) ⟨level, some lines, false, later⟩ ⟨level, none, false, later ++ lines⟩

namespace Trace.Split

variable {cut : Option (List TraceLine)} {filed plain : Trace}

theorem start {level : Nat} (pos : 0 < level) : Split none (.start level true) (.start level false) := by
  have filing : Trace.start level true = ⟨level, some [], true, []⟩ := by simp [Trace.start, pos]
  rw [filing]
  exact .filing level []

theorem level_eq (h : Split cut filed plain) : plain.level = filed.level := by
  cases h <;> rfl

theorem files_plain (h : Split cut filed plain) (line : TraceLine) : plain.files line = false := by
  cases h <;> rfl

/-- A line that goes to the file of the one is shown by the other. -/
theorem mem_shown_tell (h : Split cut filed plain) {line : TraceLine} (files : filed.files line = true) :
    line ∈ (plain.tell line).shown := by
  obtain ⟨-, reached⟩ := Bool.and_eq_true_iff.1 files
  have loud : ¬ plain.level < line.threshold := by
    rw [h.level_eq]
    exact Nat.not_lt.2 (of_decide_eq_true reached)
  have shown : (plain.tell line).shown = line :: plain.shown := by
    unfold Trace.tell
    rw [if_neg loud]
    cases h <;> rfl
  rw [shown]
  exact List.mem_cons_self

theorem files_of_some {lines : List TraceLine} (h : Split (some lines) filed plain) (line : TraceLine) :
    filed.files line = false := by
  cases h
  rfl

/-- A line goes to the file on one side and to the console on the other, until the file is closed. -/
theorem tell (h : Split cut filed plain) (line : TraceLine) :
    Split cut (filed.tell line) (plain.tell line) := by
  cases h with
  | filing level lines =>
    unfold Trace.tell
    by_cases quiet : level < line.threshold
    · simp only [quiet, if_true]
      exact .filing level lines
    · simp only [quiet, if_false, if_true, Option.map_some]
      exact .filing level (line :: lines)
  | closed level lines later =>
    unfold Trace.tell
    by_cases quiet : level < line.threshold
    · simp only [quiet, if_true]
      exact .closed level lines later
    · simp only [quiet, if_false, Bool.false_eq_true]
      exact .closed level lines (line :: later)

/-- A file that is closed stays as it is. -/
theorem close (h : Split cut filed plain) :
    Split (some (cut.getD plain.shown)) filed.close plain.close := by
  cases h with
  | filing level lines => exact .closed level lines []
  | closed level lines later => exact .closed level lines later

theorem file_eq (h : Split cut filed plain) : filed.file = some (cut.getD plain.shown) := by
  cases h <;> rfl

theorem file_plain (h : Split cut filed plain) : plain.file = none := by
  cases h <;> rfl

theorem shown_eq (h : Split cut filed plain) : plain.shown = filed.shown ++ cut.getD plain.shown := by
  cases h <;> rfl

end Trace.Split

theorem TraceLine.join_append (later earlier : List TraceLine) :
    join (later ++ earlier) = join earlier ++ join later := by
  simp only [join, Text.join, List.reverse_append, List.map_append, List.flatMap_append]
  rfl

/-! ## Steps -/

namespace Trace

/-- A line was shown that no file can hold. -/
def Odd (trace : Trace) : Prop := ∃ line ∈ trace.shown, line.text.surrogates? ≠ none

theorem Odd.tell {trace : Trace} (odd : trace.Odd) (line : TraceLine) : (trace.tell line).Odd := by
  obtain ⟨told, mem, hasSurrogates⟩ := odd
  refine ⟨told, ?_, hasSurrogates⟩
  unfold Trace.tell
  split
  · exact mem
  · split
    · exact mem
    · exact List.mem_cons_of_mem _ mem

/-- What excuses a fault: a file is open, and a line was shown beside it that it cannot hold. -/
def Unfiled (cut : Option (List TraceLine)) (_ : EvalFault) (trace : Trace) : Prop :=
  cut = none ∧ trace.Odd

end Trace

namespace Eval

variable {cut : Option (List TraceLine)}

theorem listening_split : Listening (Trace.Split cut) (Trace.Unfiled cut) where
  told line m n beside := by
    have shown : tell line n = (.ok (), { n with trace := n.trace.tell line }) := by
      refine tell_of_writable fun files => ?_
      rw [beside.trace.files_plain] at files
      cases files
    rcases tell_cases line m with ⟨-, told⟩ | ⟨run, files, odd, failed⟩
    · rw [told, shown]
      exact .same ⟨beside.store, beside.printed, beside.printsStrictly, beside.trace.tell line⟩
    · rw [failed, shown]
      cases cut with
      | none =>
        have hasSurrogates : line.text.surrogates? ≠ none := Option.ne_none_iff_exists'.2 ⟨run, odd⟩
        exact .excused ⟨rfl, line, beside.trace.mem_shown_tell files, hasSurrogates⟩
      | some lines =>
        rw [beside.trace.files_of_some] at files
        cases files
  keeps _ line excuse := ⟨excuse.1, excuse.2.tell line⟩
  reach line split reached := split.level_eq ▸ reached
  check line split reached := .inl (split.level_eq.symm ▸ reached)

theorem execute_split (limits : Limits) (node : Node) (scope : Nat) :
    Together (Trace.Split cut) (Trace.Unfiled cut)
      (execute limits.rounds limits.levels node scope)
      (execute limits.rounds limits.levels node scope) :=
  (evaluate_execute_together listening_split (Nat.le_refl _) (fun lt => absurd lt (Nat.lt_irrefl _))
    (Nat.le_refl _) fun lt => absurd lt (Nat.lt_irrefl _)).2 node scope

end Eval

namespace Machine

open Eval

variable {cut : Option (List TraceLine)} (limits : Limits)

theorem runBlock_split (program : Node) (scope : Nat) (newScope : Bool)
    (bindings : List (Name × Value)) :
    Together (Trace.Split cut) (Trace.Unfiled cut)
      (runBlock limits program scope newScope bindings)
      (runBlock limits program scope newScope bindings) :=
  runBlock_together listening_split (Nat.le_refl _) (fun lt => absurd lt (Nat.lt_irrefl _))
    (Nat.le_refl _) (fun lt => absurd lt (Nat.lt_irrefl _)) program scope newScope bindings

theorem call_split (name : Name) (arguments : List Value) (scope : Nat) :
    Together (Trace.Split cut) (Trace.Unfiled cut) (call limits name arguments scope)
      (call limits name arguments scope) := by
  refine (lookup_together scope name).bind fun value => ?_
  cases value with
  | builtin op => exact native_together op arguments
  | function name params body =>
    exact callFunction_together (execute_split limits) name params body arguments scope
  | _ => exact together_fail _

/-- A run cuts the trace where it ends, if nothing has done so before. -/
theorem run_split (program : Node) (scope : Nat) {m n : Machine} (beside : Beside (Trace.Split cut) m n) :
    Agree (Trace.Split (some (cut.getD (run limits program scope n).2.trace.shown)))
      (Trace.Unfiled cut) (run limits program scope m) (run limits program scope n) := by
  have agree := (runBlock_split limits program scope false []).agree beside
  unfold run
  generalize runBlock limits program scope false [] m = left at agree ⊢
  generalize runBlock limits program scope false [] n = right at agree ⊢
  cases agree with
  | same beside =>
    exact .same ⟨beside.store, beside.printed, beside.printsStrictly, beside.trace.close⟩
  | excused excuse => exact .excused excuse

end Machine

namespace Session

variable {cut before after : Option (List TraceLine)} {s p : Session}

/-- The same session but for the trace. -/
structure Beside (cut : Option (List TraceLine)) (s p : Session) : Prop where
  machine : Machine.Beside (Trace.Split cut) s.machine p.machine
  current : p.current = s.current
  warnings : p.warnings = s.warnings

/-- The same answer, from sessions that are still beside each other, or a line that cannot be filed. -/
inductive Agree (before after : Option (List TraceLine)) : Answer × Session → Answer × Session → Prop
  | same {answer s p} (beside : Beside after s p) : Agree before after (answer, s) (answer, p)
  | unfiled {left right} (filing : before = none) (odd : right.2.machine.trace.Odd) :
      Agree before after left right

theorem perform_agree {α : Type} {action action' : Eval α}
    (agree : Eval.Agree (Trace.Split after) (Trace.Unfiled before) (action s.machine)
      (action' p.machine))
    (current : p.current = s.current) (warnings : p.warnings = s.warnings) (answer : α → Answer) :
    Agree before after (s.perform action answer) (p.perform action' answer) := by
  unfold perform
  generalize action s.machine = left at agree ⊢
  generalize action' p.machine = right at agree ⊢
  cases agree with
  | @same r m n beside => cases r <;> exact .same ⟨beside, current, warnings⟩
  | excused excuse => exact .unfiled excuse.1 excuse.2

/-- A script that cannot be read leaves both sides as they were; otherwise the action decides. -/
theorem performOn_agree (beside : Beside before s p) {script : Script} {action action' : Node → Eval Value}
    (agree : ∀ program, script.read.program = .ok program →
      Eval.Agree (Trace.Split after) (Trace.Unfiled before) (action program s.machine)
        (action' program p.machine))
    (unread : script.read.program.isOk = false → after = before) :
    Agree before after (s.performOn script action) (p.performOn script action') := by
  have warnings : p.warnings ++ script.read.warnings = s.warnings ++ script.read.warnings :=
    congrArg (· ++ script.read.warnings) beside.warnings
  cases reading : script.read.program with
  | ok program =>
    simp only [performOn, reading]
    exact perform_agree (s := { s with warnings := s.warnings ++ script.read.warnings })
      (p := { p with warnings := p.warnings ++ script.read.warnings }) (agree program reading)
      beside.current warnings .value
  | error report =>
    rw [unread (by rw [reading]; rfl)]
    simp only [performOn, reading]
    exact .same ⟨beside.machine, beside.current, warnings⟩

/-- What a deed that runs nothing comes to. -/
theorem act_agree_of_not_runs (beside : Beside cut s p) {deed : Deed}
    (still : ∀ script, deed ≠ .step (.run script)) : Agree cut cut (s.act deed) (p.act deed) := by
  have machine := beside.machine
  have performed {α : Type} {action : Eval α} (answer : α → Answer)
      (together : Eval.Together (Trace.Split cut) (Trace.Unfiled cut) action action) :
      Agree cut cut (s.perform action answer) (p.perform action answer) :=
    perform_agree (together.agree machine) beside.current beside.warnings answer
  cases deed with
  | enter scope => exact .same ⟨machine, rfl, beside.warnings⟩
  | apply name params body arguments =>
    simp only [act, beside.current]
    exact performed .value (Eval.callFunction_together (Eval.execute_split .standard) _ _ _ _ _)
  | step step =>
    cases step with
    | run script => exact absurd rfl (still script)
    | block script newScope bindings =>
      simp only [act, Session.step, beside.current]
      refine performOn_agree beside (fun program _ => ?_) fun _ => rfl
      exact (Machine.runBlock_split .standard program _ newScope bindings).agree machine
    | call name arguments =>
      simp only [act, Session.step, beside.current]
      exact performed .value (Machine.call_split .standard name arguments _)
    | get name =>
      simp only [act, Session.step, beside.current]
      exact performed .value (Eval.lookup_together _ name)
    | set name value =>
      simp only [act, Session.step, beside.current]
      exact performed (fun _ => .done) (Eval.assign_together _ name value)
    | has name =>
      simp only [act, Session.step, beside.current, machine.store]
      split <;> exact .same beside
    | push =>
      simp only [act, Session.step, beside.current, machine.store]
      exact .same ⟨⟨rfl, machine.printed, machine.printsStrictly, machine.trace⟩, rfl, beside.warnings⟩
    | pop =>
      simp only [act, Session.step, beside.current, machine.store]
      split
      · exact .same beside
      · exact .same ⟨machine, rfl, beside.warnings⟩

/-- What a deed comes to. A run cuts the trace. -/
theorem act_agree (beside : Beside cut s p) (deed : Deed) :
    Agree cut (if deed.runs then some (cut.getD (p.act deed).2.machine.trace.shown) else cut)
      (s.act deed) (p.act deed) := by
  by_cases run : ∃ script, deed = .step (.run script)
  · obtain ⟨script, rfl⟩ := run
    refine performOn_agree beside (fun program reading => ?_) fun unread => ?_
    · have shown : (p.act (.step (.run script))).2.machine.trace.shown
          = (Machine.run .standard program p.current p.machine).2.trace.shown := by
        simp only [act, step, performOn, reading, perform]
      rw [Deed.runs, reading, shown, beside.current]
      exact Machine.run_split .standard program s.current beside.machine
    · rw [Deed.runs, unread]
      rfl
  · have still := not_exists.1 run
    have quiet : deed.runs = false := by
      unfold Deed.runs
      split
      · exact absurd rfl (still _)
      · rfl
    rw [quiet]
    exact act_agree_of_not_runs beside still

/-! ## Whole sessions -/

/-- Once the file is closed, nothing more depends on it. -/
theorem play_of_closed {lines : List TraceLine} (beside : Beside (some lines) s p) (deeds : List Deed) :
    (s.play deeds).1 = (p.play deeds).1 ∧ Beside (some lines) (s.play deeds).2 (p.play deeds).2 := by
  induction deeds generalizing s p with
  | nil => exact ⟨rfl, beside⟩
  | cons deed deeds ih =>
    have agree := act_agree beside deed
    rw [Option.getD_some, ite_self] at agree
    unfold play
    dsimp only
    generalize s.act deed = left at agree ⊢
    generalize p.act deed = right at agree ⊢
    cases agree with
    | same beside =>
      obtain ⟨answers, rest⟩ := ih beside
      exact ⟨congrArg (_ :: ·) answers, rest⟩
    | unfiled filing => cases filing

/-- A line that was shown stays shown, whatever is done. -/
theorem odd_act (odd : p.machine.trace.Odd) (deed : Deed) : (p.act deed).2.machine.trace.Odd := by
  have performed {α : Type} {action : Eval α} (warnings : List String) (answer : α → Answer)
      (keeps : Eval.KeepsExcuses (Trace.Unfiled none) action) :
      (({ p with warnings }).perform action answer).2.machine.trace.Odd :=
    (keeps .unfinished p.machine ⟨rfl, odd⟩).1.2
  have performedOn {script : Script} {action : Node → Eval Value}
      (keeps : ∀ program, Eval.KeepsExcuses (Trace.Unfiled none) (action program)) :
      (p.performOn script action).2.machine.trace.Odd := by
    unfold performOn
    dsimp only
    split
    · exact performed _ _ (keeps _)
    · exact odd
  cases deed with
  | enter scope => exact odd
  | apply name params body arguments =>
    exact performed _ _ (Eval.callFunction_together (Eval.execute_split .standard) _ _ _ _ _).keeps
  | step step =>
    cases step with
    | run script =>
      refine performedOn fun program f m excuse => ⟨?_, fun _ _ => trivial⟩
      exact ((Machine.runBlock_split .standard program p.current false []).keeps f m excuse).1
    | block script newScope bindings =>
      exact performedOn fun program => (Machine.runBlock_split .standard program _ newScope bindings).keeps
    | call name arguments => exact performed _ _ (Machine.call_split .standard name arguments _).keeps
    | get name => exact performed _ _ fun _ => Eval.lookup_traced _ name
    | set name value => exact performed _ _ fun _ => Eval.assign_traced _ name value
    | has name =>
      simp only [act, Session.step]
      split <;> exact odd
    | push => exact odd
    | pop =>
      simp only [act, Session.step]
      split <;> exact odd

theorem odd_play (odd : p.machine.trace.Odd) (deeds : List Deed) :
    (p.play deeds).2.machine.trace.Odd := by
  induction deeds generalizing p with
  | nil => exact odd
  | cons deed deeds ih => exact ih (odd_act odd deed)

/-- If every line until the end of the first run can be written, the sessions go together, and the file has
what the other session has told until then. -/
theorem play_of_filing (beside : Beside none s p) (deeds : List Deed)
    (writable : ¬ (p.play (Deed.throughFirstRun deeds)).2.machine.trace.Odd) :
    (s.play deeds).1 = (p.play deeds).1 ∧
      ∃ cut, Beside cut (s.play deeds).2 (p.play deeds).2 ∧
        cut.getD (p.play deeds).2.machine.trace.shown
          = (p.play (Deed.throughFirstRun deeds)).2.machine.trace.shown := by
  induction deeds generalizing s p with
  | nil => exact ⟨rfl, none, beside, rfl⟩
  | cons deed deeds ih =>
    have agree := act_agree beside deed
    unfold Deed.throughFirstRun play at writable ⊢
    dsimp only at writable ⊢
    generalize s.act deed = left at agree ⊢
    generalize p.act deed = right at agree writable ⊢
    cases agree with
    | unfiled _ odd => exact absurd (odd_play odd _) writable
    | same beside =>
      by_cases runs : deed.runs = true
      · rw [if_pos runs] at beside ⊢
        obtain ⟨answers, rest⟩ := play_of_closed beside deeds
        exact ⟨congrArg (_ :: ·) answers, _, rest, rfl⟩
      · rw [if_neg runs] at beside writable ⊢
        obtain ⟨answers, rest⟩ := ih beside writable
        exact ⟨congrArg (_ :: ·) answers, rest⟩

theorem beside_fresh {level : Nat} (pos : 0 < level) (prints : Bool) (scope : Nat) :
    Beside none (fresh level true prints scope) (fresh level false prints scope) :=
  ⟨⟨rfl, rfl, rfl, .start pos⟩, rfl, rfl⟩

end Session

theorem Script.read_tree (program : Node) : (Script.tree program.encode).read.program = .ok program := by
  rw [read, Node.encode, Node.decode_encodeWith]
  rfl

/-- One run and no more. -/
theorem Session.play_run_tree (s : Session) (program : Node) :
    s.play [.step (.run (.tree program.encode))]
      = ([(s.perform (Machine.run .standard program s.current) .value).1],
          (s.perform (Machine.run .standard program s.current) .value).2) := by
  have warnings : (Script.tree program.encode).read.warnings = [] := rfl
  simp only [play, act, step, performOn, Script.read_tree, warnings, List.append_nil]

open Session

/-- It declares a function and prints another one, which the host has set. -/
def declaringThenPrinting : Node :=
  .block [.function (.str "g") [] (.block []),
    .expression (.call (.str "print") [.reference (.str "f")])]

/-- A run that fails where it prints a surrogate, and then a block. -/
def failingRun : List Deed :=
  [.step (.set (.str "f") (.function (.str Text.loneSurrogate) [] (.block []))),
    .step (.run (.tree declaringThenPrinting.encode)),
    .step (.block (.tree declaringThenPrinting.encode) true [])]

end Abacus
