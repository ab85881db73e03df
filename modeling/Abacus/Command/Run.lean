import Abacus.Command.Disk
import Abacus.Command.Settings
import Abacus.Eval.Interpreter
import Abacus.Grammar.Report
import Abacus.Json.Reader
import Abacus.Json.Writer
import Abacus.Text.Utf8
import Abacus.Tree.Decode
import Abacus.Tree.Encode

/-!
# The command

The command takes its words, a disk and a console, and leaves a status, two texts and the disk as it is
afterwards. Whatever fails is told in one line on the error output, after the warnings about the program's
text. The error output takes every text. The standard output of a console is strict, unless someone put a
stream in memory in its place.

The file for the printed text is opened first, then the trace file, so a run that cannot have its trace
file leaves an empty output file behind.
-/

namespace Abacus

/-- The console that the command is called from. -/
structure Console where
  /-- What the standard input has. -/
  input : ByteArray
  /-- Whether the standard output is strict. -/
  strict : Bool

/-- What the command leaves. -/
structure Exit where
  status : Nat
  output : Text
  errors : Text
  disk : Disk

/-- Why the command fails. -/
inductive Complaint where
  | notFound (path : String)
  | failed (report : Report)

namespace Complaint

/-- The line that tells of a failure. -/
def line : Complaint → Text
  | notFound path => "Error: file " ++ tidyPath path ++ " not found\n"
  | failed (.host name message) => "Runtime error: " ++ (Report.host name message).summary ++ "\n"
  | failed report => "Error: " ++ report.summary ++ "\n"

end Complaint

namespace Command

/-- How deep the lists and objects of a tree file may nest. -/
def jsonLevels : Nat := 980

/-- The name of the trace file. -/
def tracePath : String := "debug.txt"

/-- Lines as a text. -/
def joinLines (lines : List String) : String :=
  String.join (lines.map fun line => line ++ "\n")

/-- How the command is called. -/
def usage : String :=
  joinLines [
    "usage: calcscript [-h] [-v] [-i FILE] [-o FILE]",
    "                  [--emit-ast PROGRAM_FILE | --ast AST_JSON_FILE]",
    "                  [program]"]

/-- The usage, and what each word does. -/
def help : String :=
  usage ++ joinLines [
    "",
    "calcscript interpreter",
    "",
    "positional arguments:",
    "  program               program file to execute (default: stdin)",
    "",
    "options:",
    "  -h, --help            show this help message and exit",
    "  -v                    increase debug verbosity (can be repeated)",
    "  -i FILE, --input FILE",
    "                        program file to execute",
    "  -o FILE, --output FILE",
    "                        write print output to FILE",
    "  --emit-ast PROGRAM_FILE",
    "                        emit AST JSON for the given program file",
    "  --ast AST_JSON_FILE   execute AST from a JSON file"]

/-- The lines for warnings. -/
def warningLines (warnings : List String) : String :=
  joinLines (warnings.map fun warning => "WARNING calcscript.lexer: " ++ warning)

/-- The end of a command that fails. -/
def fail (disk : Disk) (warnings : List String) (output : Text) (complaint : Complaint) : Exit :=
  { status := 1, output, errors := warningLines warnings ++ complaint.line, disk }

/-- The text of a file that must be there. -/
def readFile (disk : Disk) (path : String) : Except Complaint (List Char) :=
  if disk.has (tidyPath path) then do
    let bytes ← (disk.read (tidyPath path)).mapError fun fault => .failed fault.report
    (readText bytes).mapError .failed
  else .error (.notFound path)

/-- The tree in a file. -/
def readTree (disk : Disk) (path : String) : Except Complaint Node := do
  let text ← readFile disk path
  let json ← (Json.parse jsonLevels text).mapError fun fault => .failed (fault.report text)
  (Node.decode json).mapError fun fault => .failed fault.report

/-- The places of the output file and the trace file, both empty. -/
structure OpenFiles where
  output : Option (List String) := none
  trace : Option (List String) := none

/-- Opens the output file, if there is one. -/
def openOutput (disk : Disk) (settings : Settings) : Except DiskFault (OpenFiles × Disk) :=
  match settings.output with
  | none => .ok ({}, disk)
  | some path => (disk.create path).map fun (place, disk) => ({ output := some place }, disk)

/-- Opens the trace file, if there is to be a trace. -/
def openTrace (disk : Disk) (settings : Settings) (files : OpenFiles) :
    Except DiskFault (OpenFiles × Disk) :=
  if settings.verbosity = 0 then .ok (files, disk)
  else (disk.create tracePath).map fun (place, disk) => ({ files with trace := some place }, disk)

/-- Writes to a file, if it is open. -/
def storeAt (disk : Disk) (place : Option (List String)) (text : Text) : Disk :=
  match place with
  | some place => disk.store place (text.render codeEscape).toUTF8
  | none => disk

/-- Runs a tree with its files open. -/
def runOpened (disk : Disk) (console : Console) (files : OpenFiles) (verbosity : Nat)
    (warnings : List String) (program : Node) : Exit :=
  let (outcome, machine) :=
    Machine.run .standard program Store.globalId
      (Machine.start verbosity true (files.output.isSome || console.strict))
  let disk := storeAt disk files.trace (TraceLine.join (machine.trace.file.getD []))
  let disk := storeAt disk files.output machine.output
  let output : Text := if files.output.isSome then "" else machine.output
  match outcome with
  | .ok _ => { status := 0, output, errors := warningLines warnings, disk }
  | .error fault => fail disk warnings output (.failed fault.report)

/-- Runs a tree. -/
def runTree (disk : Disk) (console : Console) (settings : Settings) (warnings : List String)
    (program : Node) : Exit :=
  match openOutput disk settings with
  | .error fault => fail disk warnings "" (.failed fault.report)
  | .ok (files, disk) =>
    match openTrace disk settings files with
    | .error fault => fail disk warnings "" (.failed fault.report)
    | .ok (files, disk) => runOpened disk console files settings.verbosity warnings program

/-- Goes on with the program in a text. -/
def withProgram (disk : Disk) (text : Except Complaint (List Char))
    (next : List String → Node → Exit) : Exit :=
  match text with
  | .error complaint => fail disk [] "" complaint
  | .ok text =>
    let reading := readProgram text 0
    match reading.program with
    | .error report => fail disk reading.warnings "" (.failed report)
    | .ok program => next reading.warnings program

/-- Writes the tree of a program beside its file. -/
def emitTree (disk : Disk) (path : String) (warnings : List String) (program : Node) : Exit :=
  let target := tidyPath path ++ ".ast.json"
  match disk.create target with
  | .error fault => fail disk warnings "" (.failed fault.report)
  | .ok (place, disk) =>
    { status := 0
      output := target ++ "\n"
      errors := warningLines warnings
      disk := disk.store place (program.encode.write (.lines 2)).toUTF8 }

/-- Does what the settings ask for. -/
def perform (settings : Settings) (disk : Disk) (console : Console) : Exit :=
  match settings.task with
  | .emitTree path => withProgram disk (readFile disk path) (emitTree disk path)
  | .runTree path =>
    match readTree disk path with
    | .error complaint => fail disk [] "" complaint
    | .ok program => runTree disk console settings [] program
  | .runFile path => withProgram disk (readFile disk path) (runTree disk console settings)
  | .runInput =>
    withProgram disk ((readText console.input).mapError .failed) (runTree disk console settings)

/-- The end of a command that has nothing to do. -/
def dismiss (disk : Disk) : Dismissal → Exit
  | .help => { status := 0, output := help, errors := "", disk }
  | .usage fault =>
    { status := 2
      output := ""
      errors := usage ++ "calcscript: error: " ++ fault.message ++ "\n"
      disk }

/-- The whole command. -/
def run (words : List String) (disk : Disk) (console : Console) : Exit :=
  match Settings.ofWords words with
  | .ok settings => perform settings disk console
  | .error dismissal => dismiss disk dismissal

end Command

end Abacus
