import Mathlib
import Abacus.Command.Settings

/-!
# Command lines with verbose flags

The verbosity is raised once for each letter of `-v`, `-vv` and so on. Such words may stand before and
after the others: they change the verbosity and nothing else.
-/

namespace Abacus

/-- The word that raises the verbosity `n + 1` times. -/
def verboseWord (n : Nat) : String := String.ofList ('-' :: 'v' :: List.replicate n 'v')

/-- How often words raise the verbosity together. -/
def verbosityOf (raises : List Nat) : Nat := (raises.map (· + 1)).sum

theorem verbosityOf_cons (n : Nat) (raises : List Nat) :
    verbosityOf (n :: raises) = n + 1 + verbosityOf raises := by
  rw [verbosityOf, List.map_cons, List.sum_cons, verbosityOf]

theorem verbosityOf_append (before after : List Nat) :
    verbosityOf (before ++ after) = verbosityOf before + verbosityOf after := by
  rw [verbosityOf, List.map_append, List.sum_append, verbosityOf, verbosityOf]

namespace Word

/-- What a word that raises the verbosity is. -/
def verbose (n : Nat) : Word :=
  .flag .verbose true (if n = 0 then none else some (String.ofList (List.replicate n 'v')))

theorem ofSpelling?_verboseWord (n : Nat) : Flag.ofSpelling? (verboseWord (n + 1)) = none := by
  have others : Flag.table.all (fun entry => !(['-', 'v', 'v'].isPrefixOf entry.1.toList)) = true := by
    decide
  rw [Flag.ofSpelling?, Option.map_eq_none_iff, List.find?_eq_none]
  intro entry mem
  have other := List.all_eq_true.1 others entry mem
  intro same
  rw [of_decide_eq_true same] at other
  simp [verboseWord, List.replicate_succ] at other

theorem splitEquals_of_not_mem {text : List Char} (h : '=' ∉ text) : splitEquals text = (text, none) := by
  have all : text.dropWhile (· != '=') = [] := by
    rw [List.dropWhile_eq_nil_iff]
    intro x mem
    rw [bne_iff_ne]
    rintro rfl
    exact h mem
  rw [splitEquals, all]

theorem ofDashed_verboseWord (n : Nat) : ofDashed (verboseWord (n + 1)) = .ok (verbose (n + 1)) := by
  have noEquals : '=' ∉ (verboseWord (n + 1)).toList := by
    simp [verboseWord]
  have text : (verboseWord (n + 1)).toList = '-' :: 'v' :: List.replicate (n + 1) 'v' :=
    String.toList_ofList
  rw [ofDashed, splitEquals_of_not_mem noEquals, text]
  rfl

theorem ofText_verboseWord (n : Nat) : ofText (verboseWord n) = .ok (verbose n) := by
  cases n with
  | zero => rfl
  | succ n =>
    have dash : (verboseWord (n + 1)).toList.head? = some '-' := by simp [verboseWord]
    rw [ofText, if_pos dash, ofSpelling?_verboseWord, ofDashed_verboseWord]

theorem classify_verboseWords (raises : List Nat) (words : List String) :
    classify (raises.map verboseWord ++ words) = (classify words).map (raises.map verbose ++ ·) := by
  induction raises with
  | nil =>
    rw [List.map_nil, List.nil_append]
    cases classify words <;> rfl
  | cons n raises ih =>
    have other : verboseWord n ≠ "--" := by
      simp [verboseWord, ← String.toList_inj]
    rw [List.map_cons, List.cons_append, classify, if_neg other, ofText_verboseWord, ih]
    cases classify words <;> rfl

theorem classify_plain {text : String} (h : text.toList.head? ≠ some '-') (words : List String) :
    classify (text :: words) = (classify words).map (.plain text :: ·) := by
  have other : text ≠ "--" := by
    rintro rfl
    exact h rfl
  rw [classify, if_neg other, ofText, if_neg h]
  cases classify words <;> rfl

theorem classify_flag {text : String} {flag : Flag} (h : ofText text = .ok (.flag flag false none))
    (other : text ≠ "--") (words : List String) :
    classify (text :: words) = (classify words).map (.flag flag false none :: ·) := by
  rw [classify, if_neg other, h]
  cases classify words <;> rfl

theorem classify_verboses (raises : List Nat) :
    classify (raises.map verboseWord) = .ok (raises.map verbose) := by
  have all := classify_verboseWords raises []
  rwa [List.append_nil, classify, Except.map, List.append_nil] at all

end Word

namespace Intake

/-- Raises the verbosity. -/
def raise (intake : Intake) (n : Nat) : Intake := { intake with verbosity := intake.verbosity + n }

theorem raise_raise (intake : Intake) (m n : Nat) : (intake.raise m).raise n = intake.raise (m + n) := by
  simp only [raise, Nat.add_assoc]

theorem apply_raise (intake : Intake) (n : Nat) (use : Flag × String) :
    apply (intake.raise n) use = (apply intake use).map (·.raise n) := by
  obtain ⟨flag, value⟩ := use
  cases flag with
  | verbose => simp only [apply, raise, Except.map, Nat.add_right_comm]
  | emitTree => cases h : intake.runTree <;> simp [apply, raise, Except.map, h]
  | runTree => cases h : intake.emitTree <;> simp [apply, raise, Except.map, h]
  | _ => rfl

variable {flag : Flag} {isShort : Bool} {attached : Option String} {uses : List (Flag × String)}

theorem takeAll_flag (intake : Intake) (h : usesOf flag isShort attached = .ok (uses, none))
    (words : List Word) :
    takeAll intake (.flag flag isShort attached :: words)
      = uses.foldlM apply intake >>= (takeAll · words) := by
  rw [takeAll, h]
  rfl

theorem takeAll_flag_plain (intake : Intake) {last : Flag}
    (h : usesOf flag isShort attached = .ok (uses, some last)) (value : String) (words : List Word) :
    takeAll intake (.flag flag isShort attached :: .plain value :: words)
      = (uses ++ [(last, value)]).foldlM apply intake >>= (takeAll · words) := by
  rw [takeAll, h]
  rfl

theorem bundle_verbose (n : Nat) :
    bundle .verbose (List.replicate n 'v') = .ok (List.replicate (n + 1) (.verbose, ""), none) := by
  induction n with
  | zero => rfl
  | succ n ih =>
    have letter : Flag.ofLetter? 'v' = some .verbose := rfl
    rw [List.replicate_succ, bundle, letter]
    simp only [ih]
    rfl

theorem foldlM_apply_verbose (intake : Intake) (n : Nat) :
    (List.replicate n (Flag.verbose, "")).foldlM apply intake = .ok (intake.raise n) := by
  induction n generalizing intake with
  | zero => rfl
  | succ n ih =>
    rw [List.replicate_succ, List.foldlM_cons]
    exact (ih (intake.raise 1)).trans (by rw [raise_raise, Nat.add_comm])

theorem takeAll_verbose (intake : Intake) (n : Nat) (words : List Word) :
    takeAll intake (.verbose n :: words) = takeAll (intake.raise (n + 1)) words := by
  have uses : usesOf .verbose true (if n = 0 then none else some (String.ofList (List.replicate n 'v')))
      = .ok (List.replicate (n + 1) (.verbose, ""), none) := by
    cases n with
    | zero => rfl
    | succ n =>
      have filled : (String.ofList (List.replicate (n + 1) 'v')).isEmpty = false := by
        rw [← Bool.not_eq_true, String.isEmpty_iff, ← String.toList_eq_nil_iff]
        simp
      rw [if_neg n.succ_ne_zero, usesOf]
      simp only [filled, String.toList_ofList, bundle_verbose]
      rfl
  rw [Word.verbose, takeAll_flag intake uses, foldlM_apply_verbose]
  rfl

theorem takeAll_verboses (intake : Intake) (raises : List Nat) (words : List Word) :
    takeAll intake (raises.map .verbose ++ words) = takeAll (intake.raise (verbosityOf raises)) words := by
  induction raises generalizing intake with
  | nil => rfl
  | cons n raises ih =>
    rw [List.map_cons, List.cons_append, takeAll_verbose, ih, verbosityOf_cons, raise_raise]

theorem takeAll_nil (intake : Intake) : takeAll intake [] = .ok (intake.finish []) := rfl

theorem takeAll_verboses_nil (intake : Intake) (raises : List Nat) :
    takeAll intake (raises.map .verbose) = .ok ((intake.raise (verbosityOf raises)).finish []) := by
  rw [← takeAll_nil, ← takeAll_verboses, List.append_nil]

theorem takeAll_plain_verboses {intake : Intake} (fresh : intake.hasProgram = false) (text : String)
    (raises : List Nat) :
    takeAll intake (.plain text :: raises.map .verbose)
      = .ok { intake.raise (verbosityOf raises) with program := some text, hasProgram := true } := by
  cases raises with
  | nil =>
    have alone : takeAll intake [.plain text] = .ok (intake.finish [.plain text]) := rfl
    rw [List.map_nil, alone]
    simp [finish, fresh, raise, verbosityOf]
  | cons n raises =>
    have flags : ((Word.plain text :: (n :: raises).map .verbose).any Word.isFlag) = true := by
      simp [Word.isFlag, Word.verbose]
    rw [takeAll, if_pos flags, if_neg (Bool.eq_false_iff.1 fresh), takeAll_verboses_nil]
    rfl

@[simp] theorem given?_none : given? none = none := rfl

@[simp] theorem given?_some {text : String} (filled : text ≠ "") : given? (some text) = some text := by
  simp [given?, Option.filter, filled]

end Intake

namespace Settings

/-- Runs the program in a file, with words that raise the verbosity before and after it. -/
theorem ofWords_program {path : String} (h : path.toList.head? ≠ some '-') (before after : List Nat) :
    ofWords (before.map verboseWord ++ path :: after.map verboseWord)
      = .ok { verbosity := verbosityOf (before ++ after), output := none, task := .runFile path } := by
  have words : Word.classify (before.map verboseWord ++ path :: after.map verboseWord)
      = .ok (before.map .verbose ++ .plain path :: after.map .verbose) := by
    rw [Word.classify_verboseWords, Word.classify_plain h, Word.classify_verboses]
    rfl
  have taken : Intake.takeAll {} (before.map .verbose ++ .plain path :: after.map .verbose)
      = .ok { verbosity := verbosityOf (before ++ after), program := some path, hasProgram := true } := by
    rw [Intake.takeAll_verboses, Intake.takeAll_plain_verboses rfl, verbosityOf_append]
    simp [Intake.raise]
  rw [ofWords, words]
  simp only [Except.mapError, bind, Except.bind, taken]
  simp [Intake.settings, Intake.task]

/-- A flag with the path it needs, with words that raise the verbosity before and after it. -/
theorem ofWords_flag {word path : String} {flag : Flag}
    (spelt : Word.ofText word = .ok (.flag flag false none)) (long : word ≠ "--")
    (takes : flag.takesValue = true) (h : path.toList.head? ≠ some '-') (before after : List Nat) :
    ofWords (before.map verboseWord ++ word :: path :: after.map verboseWord)
      = (Intake.apply {} (flag, path)).bind fun intake =>
          ((intake.raise (verbosityOf (before ++ after))).finish []).settings.mapError .usage := by
  have words : Word.classify (before.map verboseWord ++ word :: path :: after.map verboseWord)
      = .ok (before.map .verbose ++ .flag flag false none :: .plain path :: after.map .verbose) := by
    rw [Word.classify_verboseWords, Word.classify_flag spelt long, Word.classify_plain h,
      Word.classify_verboses]
    rfl
  have bare : Intake.usesOf flag false none = .ok ([], some flag) := by
    rw [Intake.usesOf, Intake.bare, takes]
    rfl
  rw [ofWords, words]
  simp only [Except.mapError, bind, Except.bind, Intake.takeAll_verboses,
    Intake.takeAll_flag_plain _ bare, List.nil_append, List.foldlM_cons, List.foldlM_nil,
    Intake.apply_raise]
  cases Intake.apply {} (flag, path) with
  | error dismissal => rfl
  | ok intake =>
    simp only [Except.map, pure, Except.pure, Intake.takeAll_verboses_nil, Intake.raise_raise,
      verbosityOf_append]

/-- Runs a tree in a file, with words that raise the verbosity before and after it. -/
theorem ofWords_tree {path : String} (h : path.toList.head? ≠ some '-') (filled : path ≠ "")
    (before after : List Nat) :
    ofWords (before.map verboseWord ++ "--ast" :: path :: after.map verboseWord)
      = .ok { verbosity := verbosityOf (before ++ after), output := none, task := .runTree path } := by
  rw [ofWords_flag rfl (by decide) rfl h]
  simp [Except.bind, Intake.apply, Intake.raise, Intake.finish, Intake.settings, Intake.task, filled,
    Except.mapError]

/-- Writes the tree of a program. -/
theorem ofWords_emit {path : String} (h : path.toList.head? ≠ some '-') (filled : path ≠ "") :
    ofWords ["--emit-ast", path] = .ok { verbosity := 0, output := none, task := .emitTree path } := by
  have words := @ofWords_flag "--emit-ast" path .emitTree rfl (by decide) rfl h [] []
  rw [List.map_nil, List.nil_append] at words
  rw [words]
  simp [Except.bind, Intake.apply, Intake.raise, Intake.finish, Intake.settings, Intake.task, filled,
    Except.mapError, verbosityOf]

end Settings

end Abacus
