import Mathlib
import Abacus.Proofs.ClearFaults
import Abacus.Proofs.MoreRoom
import Abacus.Proofs.NamedFaults
import Abacus.Proofs.Reloading

/-!
# One line for every failure

The command fails where it cannot read its program, where it cannot open a file to write to, or where the
program stops (`Command.Fails`); a program that prints a surrogate stops if its output is strict, be it a
file or the standard output. The command then ends with the status one, it has put out what was printed,
and one line tells of the failure (`Diagnosis`). A program in a text always gets such a line, since its
names stand on one line. A tree in a file can have a name or a tag with a line break: four messages show it
as it is, and then the line is broken.
-/

namespace Abacus

/-- What the line of a failure begins with. -/
def diagnosisHeads : List String := ["Error: ", "Runtime error: "]

/-- A line that tells of a failure, with its only line break at its end. -/
def Diagnosis (line : Text) : Prop :=
  ∃ head ∈ diagnosisHeads, ∃ message : Text, line = head ++ message ++ "\n" ∧ message.OneLine

/-- A line in which a text is shown as it is. -/
def Diagnosis.Shows (t line : Text) : Prop :=
  ∃ head ∈ diagnosisHeads, ∃ report : Report, line = head ++ report.summary ++ "\n" ∧ report.Splices t

theorem Diagnosis.countP_isLineBreak {line : Text} (h : Diagnosis line) :
    line.chars.countP isLineBreak = 1 := by
  obtain ⟨head, mem, message, rfl, calm⟩ := h
  have none {cs : List Char} (h : OneLine cs) : cs.countP isLineBreak = 0 :=
    List.countP_eq_zero.2 fun c mem => Bool.eq_false_iff.1 (oneLine_iff.1 h c mem)
  have heads : ∀ head ∈ diagnosisHeads, OneLine head.toList := by decide +kernel
  rw [Text.chars_append, Text.chars_append, Text.chars_ofString, Text.chars_ofString, List.countP_append,
    List.countP_append, none (heads head mem), none calm]
  rfl

namespace Complaint

theorem line_failed (report : Report) :
    ∃ head ∈ diagnosisHeads, (failed report).line = Text.ofString head ++ report.summary ++ "\n" := by
  cases report with
  | script => exact ⟨"Error: ", List.mem_cons_self, rfl⟩
  | refused => exact ⟨"Error: ", List.mem_cons_self, rfl⟩
  | host => exact ⟨"Runtime error: ", List.mem_cons_of_mem _ List.mem_cons_self, rfl⟩

theorem diagnosis_failed {report : Report} (h : report.OneLine) : Diagnosis (failed report).line := by
  obtain ⟨head, mem, eq⟩ := line_failed report
  exact ⟨head, mem, report.summary, eq, h⟩

theorem shows_failed {report : Report} {t : Text} (h : report.Splices t) :
    Diagnosis.Shows t (failed report).line := by
  obtain ⟨head, mem, eq⟩ := line_failed report
  exact ⟨head, mem, report, eq, h⟩

/-- A complaint that tells its report, where only texts that may be said can have a line break. -/
inductive Tells (said : Text → Prop) : Complaint → Prop
  | failed {report : Report} (tells : report.Tells said) : Tells said (.failed report)

theorem Tells.diagnosis {said : Text → Prop} {complaint : Complaint} (h : complaint.Tells said) :
    Diagnosis complaint.line ∨ ∃ t, said t ∧ ¬ t.OneLine ∧ Diagnosis.Shows t complaint.line := by
  obtain ⟨calm | ⟨t, spoken, broken, splices⟩⟩ := h
  · exact .inl (diagnosis_failed calm)
  · exact .inr ⟨t, spoken, broken, shows_failed splices⟩

end Complaint

/-- The file that a task begins with. -/
def Task.file? : Task → Option String
  | .emitTree path | .runTree path | .runFile path => some path
  | .runInput => none

namespace Command

/-! ## Failures -/

/-- The text of a program, for a task that begins with one. -/
def sourceText (disk : Disk) (console : Console) : Task → Option (Except Complaint (List Char))
  | .emitTree path => some (readFile disk path)
  | .runFile path => some (readFile disk path)
  | .runInput => some ((readText console.input).mapError .failed)
  | .runTree _ => none

/-- What a task gets for a program, and the warnings on the way. -/
inductive Obtains (disk : Disk) (console : Console) : Task → List String → Except Complaint Node → Prop
  | noText {task complaint} (source : sourceText disk console task = some (.error complaint)) :
      Obtains disk console task [] (.error complaint)
  | text {task text} (source : sourceText disk console task = some (.ok text)) :
      Obtains disk console task (readProgram text 0).warnings
        ((readProgram text 0).program.mapError .failed)
  | tree {path} : Obtains disk console (.runTree path) [] (readTree disk path)

/-- A failure of the command: the warnings before it, what the program printed before it, and why. -/
structure Failure where
  warnings : List String
  printed : Text
  complaint : Complaint

/-- How the command fails. -/
inductive Fails (settings : Settings) (disk : Disk) (console : Console) : Failure → Prop
  /-- There is no program. -/
  | unread {warnings complaint} (obtained : Obtains disk console settings.task warnings (.error complaint)) :
      Fails settings disk console ⟨warnings, "", complaint⟩
  /-- The file for the tree cannot be opened. -/
  | noTreeFile {path warnings program fault} (emitting : settings.task = .emitTree path)
      (obtained : Obtains disk console settings.task warnings (.ok program))
      (refused : disk.create (tidyPath path ++ ".ast.json") = .error fault) :
      Fails settings disk console ⟨warnings, "", .failed fault.report⟩
  /-- The file for the printed text cannot be opened. -/
  | noOutput {warnings program fault} (running : ∀ path, settings.task ≠ .emitTree path)
      (obtained : Obtains disk console settings.task warnings (.ok program))
      (refused : openOutput disk settings = .error fault) :
      Fails settings disk console ⟨warnings, "", .failed fault.report⟩
  /-- The trace file cannot be opened. -/
  | noTrace {warnings program files opened fault} (running : ∀ path, settings.task ≠ .emitTree path)
      (obtained : Obtains disk console settings.task warnings (.ok program))
      (output : openOutput disk settings = .ok (files, opened))
      (refused : openTrace opened settings files = .error fault) :
      Fails settings disk console ⟨warnings, "", .failed fault.report⟩
  /-- The program stops. -/
  | stopped {warnings program files opened files' opened' fault machine}
      (running : ∀ path, settings.task ≠ .emitTree path)
      (obtained : Obtains disk console settings.task warnings (.ok program))
      (output : openOutput disk settings = .ok (files, opened))
      (trace : openTrace opened settings files = .ok (files', opened'))
      (ended : Machine.run .standard program Store.globalId
          (Machine.start settings.verbosity true (settings.output.isSome || console.strict))
        = (.error fault, machine)) :
      Fails settings disk console ⟨warnings, machine.output, .failed fault.report⟩

/-- What goes to the standard output of what is printed. -/
def Failure.shown (settings : Settings) (failure : Failure) : Text :=
  if settings.output.isSome then "" else failure.printed

variable {settings : Settings} {disk : Disk} {console : Console}

/-! ## The end of the command -/

theorem exists_obtains (disk : Disk) (console : Console) (task : Task) :
    ∃ warnings program, Obtains disk console task warnings program := by
  rcases source : sourceText disk console task with _ | complaint | text
  · cases task with
    | runTree path => exact ⟨_, _, .tree⟩
    | _ => cases source
  · exact ⟨_, _, .noText source⟩
  · exact ⟨_, _, .text source⟩

/-- What is done with a program, or without one. -/
def proceed (settings : Settings) (disk : Disk) (console : Console) (warnings : List String) :
    Except Complaint Node → Exit
  | .error complaint => fail disk warnings "" complaint
  | .ok program =>
    match settings.task with
    | .emitTree path => emitTree disk path warnings program
    | _ => runTree disk console settings warnings program

theorem perform_eq_withProgram {text : Except Complaint (List Char)}
    (source : sourceText disk console settings.task = some text) :
    perform settings disk console
      = withProgram disk text fun warnings program =>
          proceed settings disk console warnings (.ok program) := by
  unfold perform proceed
  cases task : settings.task with
  | runTree path =>
    rw [task] at source
    cases source
  | _ =>
    rw [task] at source
    cases source
    rfl

/-- Whatever the task is, it comes down to a program that is obtained and what is done with it. -/
theorem perform_of_obtains {warnings : List String} {program : Except Complaint Node}
    (obtained : Obtains disk console settings.task warnings program) :
    perform settings disk console = proceed settings disk console warnings program := by
  generalize task : settings.task = t at obtained
  cases obtained with
  | noText source =>
    rw [perform_eq_withProgram (task ▸ source)]
    rfl
  | text source =>
    rw [perform_eq_withProgram (task ▸ source), withProgram]
    cases (readProgram _ 0).program <;> rfl
  | @tree path =>
    unfold perform
    rw [task]
    cases read : readTree disk path with
    | error complaint => simp only [read, proceed]
    | ok program => simp only [read, proceed, task]

theorem proceed_of_running (running : ∀ path, settings.task ≠ .emitTree path) (warnings : List String)
    (program : Node) :
    proceed settings disk console warnings (.ok program)
      = runTree disk console settings warnings program := by
  unfold proceed
  cases task : settings.task with
  | emitTree path => exact absurd task (running path)
  | _ => rfl

/-- The output file is open if and only if one is asked for. -/
theorem isSome_output {files files' : OpenFiles} {opened opened' : Disk}
    (output : openOutput disk settings = .ok (files, opened))
    (trace : openTrace opened settings files = .ok (files', opened')) :
    files'.output.isSome = settings.output.isSome := by
  have same : files'.output = files.output := by
    unfold openTrace at trace
    split at trace
    · cases trace
      rfl
    · cases h : opened.create tracePath with
      | error fault => rw [h] at trace; cases trace
      | ok made => rw [h] at trace; cases trace; rfl
  rw [same]
  unfold openOutput at output
  split at output
  · next none => cases output; rw [none]; rfl
  · next path some =>
    rw [some]
    cases h : disk.create path with
    | error fault => rw [h] at output; cases output
    | ok made => rw [h] at output; cases output; rfl

/-- A command that fails ends with its failure. -/
theorem perform_of_fails {failure : Failure} (h : Fails settings disk console failure) :
    ∃ disk', perform settings disk console
      = fail disk' failure.warnings (failure.shown settings) failure.complaint := by
  have nothing (warnings : List String) (complaint : Complaint) :
      Failure.shown settings ⟨warnings, "", complaint⟩ = "" := ite_self _
  cases h with
  | unread obtained =>
    rw [perform_of_obtains obtained, nothing]
    exact ⟨disk, rfl⟩
  | noTreeFile emitting obtained refused =>
    rw [perform_of_obtains obtained, nothing]
    refine ⟨disk, ?_⟩
    simp only [proceed, emitting, emitTree, refused]
  | noOutput running obtained refused =>
    rw [perform_of_obtains obtained, nothing, proceed_of_running running]
    refine ⟨disk, ?_⟩
    simp only [runTree, refused]
  | @noTrace _ _ _ opened _ running obtained output refused =>
    rw [perform_of_obtains obtained, nothing, proceed_of_running running]
    refine ⟨opened, ?_⟩
    simp only [runTree, output, refused]
  | stopped running obtained output trace ended =>
    rw [perform_of_obtains obtained, proceed_of_running running]
    simp only [runTree, output, trace, runOpened, isSome_output output trace, ended]
    exact ⟨_, rfl⟩

/-- A command that does not fail succeeds. -/
theorem perform_of_not_fails (h : ∀ failure, ¬ Fails settings disk console failure) :
    (perform settings disk console).status = 0 := by
  obtain ⟨warnings, program, obtained⟩ := exists_obtains disk console settings.task
  cases program with
  | error complaint => exact absurd (.unread obtained) (h _)
  | ok program =>
    rw [perform_of_obtains obtained]
    by_cases emitting : ∃ path, settings.task = .emitTree path
    · obtain ⟨path, emitting⟩ := emitting
      cases created : disk.create (tidyPath path ++ ".ast.json") with
      | error fault => exact absurd (.noTreeFile emitting obtained created) (h _)
      | ok made => simp only [proceed, emitting, emitTree, created]
    · have running : ∀ path, settings.task ≠ .emitTree path := not_exists.1 emitting
      rw [proceed_of_running running, runTree]
      rcases output : openOutput disk settings with fault | ⟨files, opened⟩
      · exact absurd (.noOutput running obtained output) (h _)
      · rcases trace : openTrace opened settings files with fault | ⟨files', opened'⟩
        · exact absurd (.noTrace running obtained output trace) (h _)
        · simp only [trace, runOpened, isSome_output output trace]
          rcases ended : Machine.run .standard program Store.globalId
              (Machine.start settings.verbosity true (settings.output.isSome || console.strict))
            with ⟨fault | value, machine⟩
          · exact absurd (.stopped running obtained output trace ended) (h _)
          · rfl

/-! ## What the line shows -/

/-- The text stands in the value of a tree file. -/
def InTreeFile (disk : Disk) (path : String) (t : Text) : Prop :=
  ∃ text json, readFile disk path = .ok text ∧ Json.parse jsonLevels text = .ok json ∧ json.Holds t

/-- The texts that a task can be asked to show: those in its tree file. -/
def Shown (disk : Disk) (task : Task) (t : Text) : Prop :=
  ∃ path, task = .runTree path ∧ InTreeFile disk path t

theorem oneLine_of_readText {bytes : ByteArray} {report : Report} (refused : readText bytes = .error report) :
    report.OneLine := by
  unfold readText at refused
  cases decoded : Utf8.decode bytes with
  | error fault =>
    rw [decoded] at refused
    cases refused
    exact fault.oneLine_report
  | ok text =>
    rw [decoded] at refused
    cases refused

variable {said : Text → Prop}

/-- A file that is there but cannot be read is complained of in one line. -/
theorem readFile_tells {path : String} (present : disk.has (tidyPath path) = true) {complaint : Complaint}
    (refused : readFile disk path = .error complaint) : complaint.Tells said := by
  rw [readFile, if_pos present] at refused
  cases read : disk.read (tidyPath path) with
  | error fault =>
    rw [read] at refused
    cases refused
    exact .failed (.inl fault.oneLine_report)
  | ok bytes =>
    simp only [read, Except.mapError, bind, Except.bind] at refused
    cases text : readText bytes with
    | error report =>
      rw [text] at refused
      cases refused
      exact .failed (.inl (oneLine_of_readText text))
    | ok text' =>
      rw [text] at refused
      cases refused

/-- The same for whatever gives the text of a program. -/
theorem sourceText_tells {task : Task}
    (present : ∀ path, task.file? = some path → disk.has (tidyPath path) = true) {complaint : Complaint}
    (source : sourceText disk console task = some (.error complaint)) : complaint.Tells said := by
  cases task with
  | runInput =>
    have refused : (readText console.input).mapError .failed = .error complaint := Option.some.inj source
    cases text : readText console.input with
    | error report =>
      rw [text] at refused
      cases refused
      exact .failed (.inl (oneLine_of_readText text))
    | ok text' =>
      rw [text] at refused
      cases refused
  | runTree path => cases source
  | _ => exact readFile_tells (present _ rfl) (Option.some.inj source)

/-- A program whose names may be said, or a complaint that says no other texts. -/
inductive Speaking (said : Text → Prop) : Except Complaint Node → Prop
  | program {program : Node} (named : program.Named said) : Speaking said (.ok program)
  | complaint {complaint : Complaint} (tells : complaint.Tells said) : Speaking said (.error complaint)

/-- A tree file gives a program with names of the file, or a complaint that shows nothing else of it. -/
theorem readTree_speaking {path : String} (present : disk.has (tidyPath path) = true)
    (inside : ∀ t, InTreeFile disk path t → said t) : Speaking said (readTree disk path) := by
  unfold readTree
  cases read : readFile disk path with
  | error complaint => exact .complaint (readFile_tells present read)
  | ok text =>
    simp only [bind, Except.bind]
    cases parsed : Json.parse jsonLevels text with
    | error fault => exact .complaint (.failed (.inl (fault.oneLine_report text)))
    | ok json =>
      have held (t : Text) (holds : json.Holds t) : said t := inside t ⟨text, json, read, parsed, holds⟩
      have decoded := Node.decoded_decode json
      simp only [Except.mapError]
      generalize Node.decode json = outcome at decoded ⊢
      cases decoded with
      | ok named => exact .program (named.mono held)
      | error tells => exact .complaint (.failed (tells.mono held))

theorem readProgram_speaking (calm : ∀ t, t.OneLine → said t) (text : List Char) :
    Speaking said ((readProgram text 0).program.mapError .failed) := by
  cases read : (readProgram text 0).program with
  | error report => exact .complaint (.failed (.inl (oneLine_of_readProgram read)))
  | ok program => exact .program ((calm_of_readProgram read).mono calm)

/-- What a failure of the command shows besides texts on one line stands in a tree file. -/
theorem fails_tells (present : ∀ path, settings.task.file? = some path → disk.has (tidyPath path) = true)
    {failure : Failure} (h : Fails settings disk console failure) :
    failure.complaint.Tells fun t => t.OneLine ∨ Shown disk settings.task t := by
  have speaking {warnings : List String} {program : Except Complaint Node}
      (obtained : Obtains disk console settings.task warnings program) :
      Speaking (fun t => t.OneLine ∨ Shown disk settings.task t) program := by
    generalize settings.task = task at obtained present
    cases obtained with
    | noText source => exact .complaint (sourceText_tells present source)
    | text source => exact readProgram_speaking (fun _ => .inl) _
    | @tree path => exact readTree_speaking (present path rfl) fun t inside => .inr ⟨path, rfl, inside⟩
  have opening (fault : DiskFault) :
      (Complaint.failed fault.report).Tells fun t => t.OneLine ∨ Shown disk settings.task t :=
    .failed (.inl fault.oneLine_report)
  cases h with
  | unread obtained =>
    cases speaking obtained with
    | complaint tells => exact tells
  | noTreeFile => exact opening _
  | noOutput => exact opening _
  | noTrace => exact opening _
  | stopped running obtained output trace ended =>
    cases speaking obtained with
    | program named => exact .failed (Machine.run_tells named rfl ended)

/-- What every failure comes to, whether or not the standard output is strict. The command line is
understood, and the file that it begins with is there. If the command fails, then its status is one, the
standard output has what was printed before, and the error output has the warnings and one line. The line
has its only line break at its end, unless a text with a line break stands in the tree file that is run and
the line shows it as it is. If the command does not fail, its status is zero. -/
theorem failure_is_told_in_one_line {words : List String} {settings : Settings} {disk : Disk}
    (understood : Settings.ofWords words = .ok settings)
    (present : ∀ path, settings.task.file? = some path → disk.has (tidyPath path) = true)
    (console : Console) :
    let exit := run words disk console
    (∀ failure, Fails settings disk console failure →
      exit.status = 1 ∧ exit.output = failure.shown settings ∧
      exit.errors = warningLines failure.warnings ++ failure.complaint.line ∧
      (Diagnosis failure.complaint.line ∨
        ∃ path t, settings.task = .runTree path ∧ InTreeFile disk path t ∧ ¬ t.OneLine ∧
          Diagnosis.Shows t failure.complaint.line)) ∧
    ((∀ failure, ¬ Fails settings disk console failure) → exit.status = 0) := by
  intro exit
  have exit_eq : exit = perform settings disk console := by
    simp only [exit, run, understood]
  rw [exit_eq]
  refine ⟨fun failure fails => ?_, perform_of_not_fails⟩
  obtain ⟨disk', ends⟩ := perform_of_fails fails
  rw [ends]
  refine ⟨rfl, rfl, rfl, ?_⟩
  refine (fails_tells present fails).diagnosis.imp_right ?_
  rintro ⟨t, calm | ⟨path, task, inside⟩, broken, shows⟩
  · exact absurd calm broken
  · exact ⟨path, t, task, inside, broken, shows⟩

/-- The program `print(1);x;`, which prints and then fails. -/
def printingThenUnbound : Node :=
  .block [.expression (.call (.str "print") [.int 1]), .expression (.reference (.str "x"))]

set_option maxRecDepth 10000 in
theorem printingThenUnbound_stops :
    (Machine.run .standard printingThenUnbound Store.globalId (.start 0 true true)).1
      = .error (.undefined (.str "x")) ∧
    (Machine.run .standard printingThenUnbound Store.globalId (.start 0 true true)).2.output = "1\n" := by
  have ended : (Machine.run ⟨5, 0⟩ printingThenUnbound Store.globalId (.start 0 true true)).1
      = .error (.undefined (.str "x")) := by cbv
  have printed : (Machine.run ⟨5, 0⟩ printingThenUnbound Store.globalId (.start 0 true true)).2.output
      = "1\n" := by cbv
  -- the run needs far less than the limits allow
  have raised : Eval.Extends (fun f => f = .tooDeep ∨ f = .unfinished)
      (Machine.run ⟨5, 0⟩ printingThenUnbound Store.globalId)
      (Machine.run .standard printingThenUnbound Store.globalId) :=
    Machine.run_extends (Nat.zero_le _) (fun _ => .inr rfl) (by decide) (fun _ => .inl rfl) _ _
  rcases raised (.start 0 true true) with ⟨f, limited, tooDeep | unfinished⟩ | same
  · rw [ended, tooDeep] at limited
    cases limited
  · rw [ended, unfinished] at limited
    cases limited
  · rw [same]
    exact ⟨ended, printed⟩

set_option maxRecDepth 10000 in
theorem failure_is_told_in_one_line_unbound :
    let settings : Settings := ⟨0, none, .runFile "p"⟩
    let failure : Failure := ⟨[], "1\n", .failed (EvalFault.undefined (.str "x")).report⟩
    let exit := run ["p"] (diskWith "print(1);x;") idle
    Settings.ofWords ["p"] = .ok settings ∧ (diskWith "print(1);x;").has (tidyPath "p") = true ∧
    Fails settings (diskWith "print(1);x;") idle failure ∧
    exit.status = 1 ∧ exit.output = "1\n" ∧
    exit.errors = "Error: NameError: undefined variable x\n" ∧ Diagnosis failure.complaint.line := by
  intro settings failure exit
  have understood : Settings.ofWords ["p"] = .ok settings := by cbv
  have tidy : tidyPath "p" = "p" := by cbv
  have found : (diskWith "print(1);x;").read (tidyPath "p") = .ok "print(1);x;".toUTF8 := by
    rw [tidy]
    rfl
  have present : (diskWith "print(1);x;").has (tidyPath "p") = true := Disk.has_of_read found
  have read : (readProgram "print(1);x;".toList 0).program = .ok printingThenUnbound := by cbv
  have quiet : (readProgram "print(1);x;".toList 0).warnings = [] := by cbv
  have source : sourceText (diskWith "print(1);x;") idle (.runFile "p")
      = some (.ok "print(1);x;".toList) := by
    rw [sourceText, readFile_of_read found, readText_toUTF8 (by decide)]
    rfl
  have obtained : Obtains (diskWith "print(1);x;") idle settings.task [] (.ok printingThenUnbound) := by
    have text := Obtains.text source
    rwa [read, quiet] at text
  have running (path : String) : settings.task ≠ .emitTree path := by
    intro emitting
    cases emitting
  obtain ⟨ended, printed⟩ := printingThenUnbound_stops
  have fails : Fails settings (diskWith "print(1);x;") idle failure := by
    have stopped := Fails.stopped running obtained rfl rfl (Prod.ext ended rfl)
    simp only [settings, idle, Option.isSome_none, Bool.false_or, printed] at stopped
    exact stopped
  have told := (failure_is_told_in_one_line understood (by rintro _ ⟨⟩; exact present) idle).1 failure fails
  obtain ⟨status, output, errors, calm | ⟨path, t, task, -⟩⟩ := told
  · exact ⟨understood, present, fails, status, output, errors.trans (by decide +kernel), calm⟩
  · cases task

/-- A tree file with nothing but a tag, in which a line break is spelt out. -/
def brokenTag : String := "\x7b\"type\":\"a\\nb\"\x7d"

set_option maxRecDepth 10000 in
/-- A tag with a line break breaks the line that tells of it. -/
theorem brokenTag_breaks_line :
    (run ["--ast", "p"] (diskWith brokenTag) idle).status = 1 ∧
    (run ["--ast", "p"] (diskWith brokenTag) idle).errors
      = "Runtime error: ValueError: Unknown AST node type: a\nb\n" ∧
    ¬ Diagnosis (run ["--ast", "p"] (diskWith brokenTag) idle).errors := by
  have tidy : tidyPath "p" = "p" := by cbv
  have found : (diskWith brokenTag).read (tidyPath "p") = .ok brokenTag.toUTF8 := by
    rw [tidy]
    rfl
  have tree : Json.parse jsonLevels brokenTag.toList = .ok (.obj [("type", .str "a\nb")]) := by cbv
  have refused : readTree (diskWith brokenTag) "p"
      = .error (.failed (.host "ValueError" "Unknown AST node type: a\nb")) := by
    rw [readTree, readFile_of_read found, readText_toUTF8 (by decide)]
    have decoded : Node.decode (.obj [("type", .str "a\nb")]) = .error (.unknownTag (.str "a\nb")) := by
      simp [Node.decode, throw, throwThe, MonadExceptOf.throw]
    simp only [Except.mapError, bind, Except.bind, tree, decoded]
    rfl
  have settings : Settings.ofWords ["--ast", "p"] = .ok ⟨0, none, .runTree "p"⟩ := by cbv
  have ends : run ["--ast", "p"] (diskWith brokenTag) idle
      = fail (diskWith brokenTag) [] "" (.failed (.host "ValueError" "Unknown AST node type: a\nb")) := by
    simp only [run, settings, perform, refused]
  have errors : (run ["--ast", "p"] (diskWith brokenTag) idle).errors
      = "Runtime error: ValueError: Unknown AST node type: a\nb\n" := by
    rw [ends]
    decide +kernel
  refine ⟨by rw [ends]; rfl, errors, fun diagnosis => ?_⟩
  have one := diagnosis.countP_isLineBreak
  rw [errors] at one
  revert one
  decide +kernel

end Command

end Abacus
