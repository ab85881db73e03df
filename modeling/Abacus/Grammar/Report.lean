import Abacus.Grammar.Program
import Abacus.Report

/-!
# What is told of a text that is no program

`ParseFault.report` puts a fault into words. Constructs nested too deeply are reported at the offset
where the program begins. `readProgram` is parsing as the outside sees it: a tree or a report,
and the warnings of the tokens that were looked at.
-/

namespace Abacus

namespace ParseFault

/-- What is told of a fault in `text`, read from `offset`. -/
def report (text : List Char) (offset : Nat) : ParseFault → Report
  | rejected cause position => .refused (.ofOffset cause.message text position)
  | nestedTooDeeply => .refused (.ofOffset "program nested too deeply" text offset)
  | numeralTooLong digits => tooManyDigits digitLimit digits

end ParseFault

/-- A program or a report, and the warnings on the way. -/
structure Reading where
  program : Except Report Node
  warnings : List String

/-- Reads the program that stands in `text` from `offset` on. -/
def readProgram (text : List Char) (offset : Nat) : Reading :=
  let (outcome, memo) := parse text offset
  { program := outcome.mapError (ParseFault.report text offset)
    warnings := memo.warnings text }

end Abacus
