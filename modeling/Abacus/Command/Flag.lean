import Abacus.Text.Quoted
import Abacus.Text.Script

/-!
# Flags and words

The words of a command line are told apart before any of them takes effect. A word is a flag if it
spells one out, shortens the long spelling of exactly one, or begins with a short spelling; the rest of
such a word, or what follows an equals sign in it, is attached to the flag. A word that looks like a
flag and is none is unknown, but negative numbers and words with a space are plain. After `--` every
word is plain.
-/

namespace Abacus

/-- The flags of the command line. -/
inductive Flag where
  | help
  | verbose
  | input
  | output
  | emitTree
  | runTree
deriving DecidableEq

namespace Flag

/-- All flags, in the order in which the help lists them. -/
def all : List Flag := [help, verbose, input, output, emitTree, runTree]

/-- The spellings of a flag. -/
def spellings : Flag → List String
  | help => ["-h", "--help"]
  | verbose => ["-v"]
  | input => ["-i", "--input"]
  | output => ["-o", "--output"]
  | emitTree => ["--emit-ast"]
  | runTree => ["--ast"]

/-- Whether a flag needs a value. -/
def takesValue : Flag → Bool
  | help | verbose => false
  | input | output | emitTree | runTree => true

/-- How messages name a flag. -/
def title (flag : Flag) : String := String.intercalate "/" flag.spellings

/-- Every spelling with its flag. -/
def table : List (String × Flag) :=
  all.flatMap fun flag => flag.spellings.map fun spelling => (spelling, flag)

/-- The flag that a text spells out. -/
def ofSpelling? (text : String) : Option Flag :=
  (table.find? fun (spelling, _) => spelling = text).map (·.2)

/-- The flag with a letter as its short spelling. -/
def ofLetter? (letter : Char) : Option Flag :=
  ofSpelling? (String.ofList ['-', letter])

end Flag

/-- A word of a command line. -/
inductive Word where
  | plain (text : String)
  /-- The word `--`. -/
  | divider
  /-- A flag, whether it is spelt short, and what is attached to it. -/
  | flag (flag : Flag) (isShort : Bool) (attached : Option String)
  /-- A word that looks like a flag. -/
  | unknown (text : String)

/-- Why a command line is not understood. -/
inductive UsageFault where
  | ambiguous (word : String) (spellings : List String)
  | missingValue (flag : Flag)
  | needlessValue (flag : Flag) (value : String)
  | exclusive (flag other : Flag)
  | unrecognized (words : List String)
  | twoPrograms

namespace UsageFault

def message : UsageFault → String
  | ambiguous word spellings =>
    "ambiguous option: " ++ word ++ " could match " ++ String.intercalate ", " spellings
  | missingValue flag => "argument " ++ flag.title ++ ": expected one argument"
  | needlessValue flag value =>
    "argument " ++ flag.title ++ ": ignored explicit argument " ++ quoted value
  | exclusive flag other =>
    "argument " ++ flag.title ++ ": not allowed with argument " ++ other.title
  | unrecognized words => "unrecognized arguments: " ++ String.intercalate " " words
  | twoPrograms => "give the program file either with -i or as an argument, not both"

end UsageFault

namespace Word

/-- A decimal digit of any script. -/
def isAnyDigit (c : Char) : Bool := c.isDigit || (scriptDigit? c.toNat).isSome

/-- Whether a word is a negative number. One line end may follow it. -/
def isNegativeNumber : List Char → Bool
  | '-' :: body =>
    let body := if body.getLast? = some '\n' then body.dropLast else body
    let whole := body.takeWhile isAnyDigit
    match body.drop whole.length with
    | [] => !whole.isEmpty
    | '.' :: fraction => !fraction.isEmpty && fraction.all isAnyDigit
    | _ => false
  | _ => false

/-- What stands before the first equals sign, and what stands after it. -/
def splitEquals (text : List Char) : List Char × Option String :=
  match text.dropWhile (· != '=') with
  | [] => (text, none)
  | _ :: value => (text.takeWhile (· != '='), some (String.ofList value))

/-- A word that begins with a dash and spells out no flag. -/
def ofDashed (word : String) : Except UsageFault Word :=
  let text := word.toList
  let (spelling, attached) := splitEquals text
  let fallback : Word :=
    if isNegativeNumber text || text.contains ' ' then plain word else unknown word
  match attached, Flag.ofSpelling? (String.ofList spelling) with
  | some value, some found => .ok (flag found (spelling[1]? != some '-') value)
  | _, _ =>
    match text with
    | '-' :: '-' :: _ =>
      match Flag.table.filter fun entry => spelling.isPrefixOf entry.1.toList with
      | [] => .ok fallback
      | [(_, found)] => .ok (flag found false attached)
      | several => .error (.ambiguous word (several.map (·.1)))
    | _ :: letter :: rest =>
      match Flag.ofLetter? letter with
      | some found => .ok (flag found true (String.ofList rest))
      | none => .ok fallback
    | _ => .ok (plain word)

/-- What a word is that stands before `--`. -/
def ofText (word : String) : Except UsageFault Word :=
  if word.toList.head? = some '-' then
    match Flag.ofSpelling? word with
    | some found => .ok (flag found (word.toList[1]? != some '-') none)
    | none => ofDashed word
  else .ok (plain word)

/-- The words of a command line. -/
def classify : List String → Except UsageFault (List Word)
  | [] => .ok []
  | word :: words =>
    if word = "--" then .ok (divider :: words.map plain)
    else do
      let first ← ofText word
      let rest ← classify words
      return first :: rest

/-- Whether a word is a flag or looks like one. -/
def isFlag : Word → Bool
  | flag _ _ _ | unknown _ => true
  | plain _ | divider => false

end Word

end Abacus
