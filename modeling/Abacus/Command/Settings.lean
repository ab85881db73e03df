import Abacus.Command.Flag

/-!
# Settings

What a command line asks for. Flags take effect from left to right, and the flags of one word together
once the whole word is understood. A plain word that no flag takes is the program; only the first one
in a row counts, and words that nobody takes are refused in the end. An empty value is the same as none.
-/

namespace Abacus

/-- What is to be done. -/
inductive Task where
  | emitTree (path : String)
  | runTree (path : String)
  | runFile (path : String)
  | runInput
deriving DecidableEq

/-- What a command line asks for. -/
structure Settings where
  verbosity : Nat
  /-- The file for the printed text, if it is not the standard output. -/
  output : Option String
  task : Task
deriving DecidableEq

/-- Why nothing is to be done. -/
inductive Dismissal where
  | help
  | usage (fault : UsageFault)

/-- The words taken so far. -/
structure Intake where
  verbosity : Nat := 0
  input : Option String := none
  output : Option String := none
  emitTree : Option String := none
  runTree : Option String := none
  program : Option String := none
  /-- Whether the program was given; it may be given as nothing at all. -/
  hasProgram : Bool := false
  /-- The words that nobody takes, the last one first. -/
  extras : List String := []

namespace Intake

/-- A flag takes effect. -/
def apply (intake : Intake) (use : Flag × String) : Except Dismissal Intake :=
  match use with
  | (.help, _) => .error .help
  | (.verbose, _) => .ok { intake with verbosity := intake.verbosity + 1 }
  | (.input, value) => .ok { intake with input := some value }
  | (.output, value) => .ok { intake with output := some value }
  | (.emitTree, value) =>
    if intake.runTree.isSome then .error (.usage (.exclusive .emitTree .runTree))
    else .ok { intake with emitTree := some value }
  | (.runTree, value) =>
    if intake.emitTree.isSome then .error (.usage (.exclusive .runTree .emitTree))
    else .ok { intake with runTree := some value }

/-- A word that nobody takes. -/
def leave (intake : Intake) (text : String) : Intake :=
  { intake with extras := text :: intake.extras }

/-- A value as it is attached: the divider is no value. -/
def attachedValue (value : String) : String := if value = "--" then "" else value

/-- The uses of flags in one word, and the flag at its end that still needs a value. -/
abbrev Uses := List (Flag × String) × Option Flag

/-- The use of a flag with nothing attached. -/
def bare (flag : Flag) : Uses :=
  if flag.takesValue then ([], some flag) else ([(flag, "")], none)

/-- The uses in a word with short spellings, from `flag` on, if `letters` follow it. -/
def bundle (flag : Flag) (letters : List Char) : Except UsageFault Uses :=
  match letters with
  | [] => .ok (bare flag)
  | letter :: letters =>
    if flag.takesValue then
      .ok ([(flag, attachedValue (String.ofList (letter :: letters)))], none)
    else
      match Flag.ofLetter? letter with
      | some next => do
        let (uses, pending) ← bundle next letters
        return ((flag, "") :: uses, pending)
      | none => .error (.needlessValue flag (String.ofList (letter :: letters)))

/-- The uses in a word. -/
def usesOf (flag : Flag) (isShort : Bool) (attached : Option String) : Except UsageFault Uses :=
  match attached with
  | none => .ok (bare flag)
  | some value =>
    if flag.takesValue then .ok ([(flag, attachedValue value)], none)
    else if isShort && !value.isEmpty then bundle flag value.toList
    else .error (.needlessValue flag value)

/-- The text of a word that nobody takes. -/
def leftText : Word → String
  | .plain text | .unknown text => text
  | .divider => "--"
  | .flag flag _ _ => flag.title

/-- Takes the words after the last flag: the program, with `--` before or after it. -/
def finish (intake : Intake) (words : List Word) : Intake :=
  if intake.hasProgram then words.foldl (fun intake word => intake.leave (leftText word)) intake
  else
    let (program, rest) : Option String × List Word :=
      match words with
      | .divider :: .plain text :: rest => (some text, rest)
      | .divider :: rest => (none, rest)
      | .plain text :: .divider :: rest => (some text, rest)
      | .plain text :: rest => (some text, rest)
      | rest => (none, rest)
    rest.foldl (fun intake word => intake.leave (leftText word))
      { intake with program, hasProgram := true }

/-- Takes words from left to right. A flag that needs a value takes the plain word after it. -/
def takeAll (intake : Intake) (words : List Word) : Except Dismissal Intake :=
  if words.any Word.isFlag then
    match words with
    | .plain text :: rest =>
      if intake.hasProgram then takeAll (intake.leave text) rest
      else takeAll { intake with program := some text, hasProgram := true } rest
    | .unknown text :: rest => takeAll (intake.leave text) rest
    | .flag flag isShort attached :: rest => do
      let (uses, pending) ← (usesOf flag isShort attached).mapError .usage
      match pending with
      | none => takeAll (← uses.foldlM apply intake) rest
      | some last =>
        match rest with
        | .plain value :: rest => takeAll (← (uses ++ [(last, value)]).foldlM apply intake) rest
        | _ => throw (.usage (.missingValue last))
    | words => .ok (intake.finish words)
  else .ok (intake.finish words)

/-- A value, unless it is empty. -/
def given? (value : Option String) : Option String := value.filter fun text => !text.isEmpty

/-- What is to be done in the end. -/
def task (intake : Intake) : Task :=
  match given? intake.emitTree, given? intake.runTree, given? intake.input, intake.program with
  | some path, _, _, _ => .emitTree path
  | none, some path, _, _ => .runTree path
  | none, none, some path, _ => .runFile path
  | none, none, none, some path => .runFile path
  | none, none, none, none => .runInput

/-- The settings, if every word was taken. -/
def settings (intake : Intake) : Except UsageFault Settings :=
  if !intake.extras.isEmpty then .error (.unrecognized intake.extras.reverse)
  else if (given? intake.input).isSome && (given? intake.program).isSome then .error .twoPrograms
  else .ok { verbosity := intake.verbosity, output := given? intake.output, task := intake.task }

end Intake

namespace Settings

/-- The settings of a command line. -/
def ofWords (words : List String) : Except Dismissal Settings := do
  let words ← (Word.classify words).mapError .usage
  let intake ← Intake.takeAll {} words
  intake.settings.mapError .usage

end Settings

end Abacus
