import Mathlib
import Abacus.Proofs.MoreRoom
import Abacus.Proofs.WordsOnly

/-!
# Raising the limits

Brackets, blocks and calls may nest only so deep, and how deep is up to the host. A text that is read
under some limit, whether it holds a program or is refused, is read in the same way under every higher
one, and a program that has run under some limit runs in the same way under every higher one. The fault of
a limit is never taken for anything else: no rule of the grammar misses because of it, and no computation
goes on after it. So a limit that is raised can do no more than replace that fault by another outcome.
-/

namespace Abacus

/-! ## Texts -/

/-- One parser, and the same with `gap` levels more. -/
def Pairing.deeper (src : Source) (gap : Nat) : Pairing where
  left := src
  right := src
  stand ts m ts' m' := ts = ts' ∧ m = m'
  fault f f' := f = f'
  excused f := 0 < gap ∧ f = .nestedTooDeeply
  levels k l := l = k + gap
  look := by
    rintro ts m _ _ ⟨rfl, rfl⟩
    exact ⟨rfl, rfl, rfl⟩
  nil := by
    rintro m _ _ ⟨rfl, -⟩
    rfl
  cons := by
    rintro t ts m _ _ ⟨rfl, rfl⟩
    exact ⟨t, ts, rfl, rfl, rfl⟩
  back := by
    rintro ts m _ _ us n _ _ ⟨rfl, -⟩ - - ⟨-, rfl⟩
    exact ⟨rfl, rfl⟩
  rejected := by
    rintro ts m _ _ cause ⟨rfl, -⟩
    rfl
  trailing := by
    rintro ts m _ _ cause ⟨rfl, rfl⟩
    rfl
  numeral := numeral_of_eq
  bottom := bottom_of_gap
  descend := descend_of_gap

/-- The same outcome and the same tokens looked at, unless the lower limit was hit. -/
theorem parseWithin_eq_of_le {levels levels' : Nat} (le : levels ≤ levels') {peek : Peek}
    {text : List Char} {offset : Nat}
    (shallow : (parseWithin levels peek text offset).1 ≠ .error .nestedTooDeeply) :
    parseWithin levels' peek text offset = parseWithin levels peek text offset := by
  obtain ⟨gap, rfl⟩ := Nat.exists_eq_add_of_le le
  let s := Stream.ofText text offset
  let c := Pairing.deeper ⟨peek, s.final⟩ gap
  have start : c.stand s.tokens .empty s.tokens .empty := ⟨rfl, rfl⟩
  have raised : c.levels levels (levels + gap) := rfl
  rcases Pairing.program raised start with ⟨outcome, _, _, -, memos⟩ | ⟨_, hit, -, rfl⟩
  · refine Prod.ext ?_ memos.symm
    rcases outcome with ⟨tree, h, h'⟩ | ⟨f, _, h, h', rfl⟩
    · exact h'.trans h.symm
    · exact h'.trans h.symm
  · exact absurd hit shallow

/-- It is told of the text that its program is nested too deeply. -/
def Reading.TooDeep (r : Reading) : Prop :=
  ∃ remark, r.program = .error (.refused remark) ∧ remark.message = "program nested too deeply"

theorem readingWithin_tooDeep {levels : Nat} {text : List Char} {offset : Nat}
    (hit : (parseWithin levels Memo.remembering text offset).1 = .error .nestedTooDeeply) :
    (readingWithin levels text offset).TooDeep := by
  refine ⟨.ofOffset "program nested too deeply" text offset, ?_, rfl⟩
  rw [readingWithin, readWithin, hit]
  rfl

/-! ## Programs -/

/-- The run ends in the error that tells of a limit of nesting. -/
def Machine.EndsTooDeep (m : Machine) (limits : Limits) (program : Node) (scope : Nat) : Prop :=
  ∃ f, (run limits program scope m).1 = .error f ∧ f.report.name = "RecursionError"

namespace Machine

/-- The same value or fault, and the same machine, unless the lower limit was hit. -/
theorem run_eq_of_levels_le {levels levels' : Nat} (le : levels ≤ levels') {rounds : Nat}
    {program : Node} {scope : Nat} {m : Machine}
    (shallow : ¬ m.EndsTooDeep ⟨levels, rounds⟩ program scope) :
    run ⟨levels', rounds⟩ program scope m = run ⟨levels, rounds⟩ program scope m := by
  have deeper : Eval.Extends (· = .tooDeep) (run ⟨levels, rounds⟩ program scope)
      (run ⟨levels', rounds⟩ program scope) := by
    refine run_extends (Nat.le_refl rounds) (fun lt => ?_) le (fun _ => ?_) program scope
    · exact absurd lt (Nat.lt_irrefl rounds)
    · rfl
  rcases deeper m with ⟨f, ended, rfl⟩ | same
  · exact absurd ⟨.tooDeep, ended, rfl⟩ shallow
  · exact same

end Machine

/-- The bounds of a run on a host with a limit of its own, which counts where it is the higher one. -/
def Limits.onHost (levels : Nat) : Limits :=
  { Limits.standard with levels := max levels Limits.standard.levels }

/-- What is read from a text without hitting a limit of nesting is read under every higher limit: the same
program or the same refusal, and the same warnings. A run that does not end in the error of the limit is
the same under every higher limit, for any number of rounds: it gives the same value or fault and leaves
the same text, scopes and trace behind, or goes on in the same way. In particular the limit of a host has
no part in a run that the standard limit is enough for. -/
theorem raised_limit_keeps_outcome {levels levels' : Nat} (le : levels ≤ levels') :
    (∀ text offset, ¬ (readingWithin levels text offset).TooDeep →
      readingWithin levels' text offset = readingWithin levels text offset) ∧
    (∀ rounds program scope (m : Machine), ¬ m.EndsTooDeep ⟨levels, rounds⟩ program scope →
      Machine.run ⟨levels', rounds⟩ program scope m = Machine.run ⟨levels, rounds⟩ program scope m) ∧
    ∀ host program scope (m : Machine), ¬ m.EndsTooDeep .standard program scope →
      Machine.run (.onHost host) program scope m = Machine.run .standard program scope m := by
  refine ⟨fun text offset shallow => ?_, fun _ _ _ _ => Machine.run_eq_of_levels_le le, ?_⟩
  · have same := parseWithin_eq_of_le le (mt readingWithin_tooDeep shallow)
    rw [readingWithin, readWithin, same]
    rfl
  · intro host program scope m shallow
    exact Machine.run_eq_of_levels_le (Nat.le_max_right host _) shallow

/-- A call in a call, which one level is not enough for. -/
def nestedCall : List Char := ['f', '(', 'g', '(', ')', ')', ';']

/-- A program that prints what a function returns, which four levels are not enough for. -/
def printingCall : Node := .block [
  .function (.str "f") [] (.block [.returns (.int 5)]),
  .expression (.call (.str "print") [.call (.str "f") []])]

theorem raised_limit_keeps_outcome_nested :
    (readingWithin 1 nestedCall 0).TooDeep ∧
    ¬ (readingWithin 2 nestedCall 0).TooDeep ∧
    readingWithin 250 nestedCall 0 = readingWithin 2 nestedCall 0 ∧
    (Machine.start 0 false false).EndsTooDeep ⟨4, 0⟩ printingCall Store.globalId ∧
    ¬ (Machine.start 0 false false).EndsTooDeep ⟨5, 0⟩ printingCall Store.globalId ∧
    Machine.run ⟨3000, 0⟩ printingCall Store.globalId (.start 0 false false)
      = Machine.run ⟨5, 0⟩ printingCall Store.globalId (.start 0 false false) := by
  have refused : (parseWithin 1 Memo.remembering nestedCall 0).1 = .error .nestedTooDeeply := by cbv
  have read : (readingWithin 2 nestedCall 0).program
      = .ok (.block [.expression (.call (.str "f") [.call (.str "g") []])]) := by cbv
  have tooDeep : (Machine.run ⟨4, 0⟩ printingCall Store.globalId (.start 0 false false)).1
      = .error .tooDeep := by cbv
  have ran : (Machine.run ⟨5, 0⟩ printingCall Store.globalId (.start 0 false false)).1 = .ok .void := by cbv
  have shallow : ¬ (readingWithin 2 nestedCall 0).TooDeep := by
    rintro ⟨remark, told, -⟩
    cases read.symm.trans told
  have ends : ¬ (Machine.start 0 false false).EndsTooDeep ⟨5, 0⟩ printingCall Store.globalId := by
    rintro ⟨f, fault, -⟩
    cases ran.symm.trans fault
  have more : 2 ≤ 250 ∧ 5 ≤ 3000 := by decide
  exact ⟨readingWithin_tooDeep refused, shallow,
    (raised_limit_keeps_outcome more.1).1 _ _ shallow, ⟨.tooDeep, tooDeep, rfl⟩, ends,
    (raised_limit_keeps_outcome more.2).2.1 _ _ _ _ ends⟩

end Abacus
