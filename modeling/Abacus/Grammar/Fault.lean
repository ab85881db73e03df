import Abacus.Text.Place
import Abacus.Text.Quoted
import Abacus.Token.Lexeme

/-!
# Why a text is no program

A text is refused for a cause at an offset: a piece that is missing in a construct the text has begun,
a literal out of range, or words after the last statement. Two more faults have no cause in the
grammar: constructs nested too deeply, and a numeral that is too long to be read.
-/

namespace Abacus

/-- What is wrong at an offset. -/
inductive Cause where
  /-- An operator is missing; `context` says what it is for. -/
  | operator (symbol context : String) (found : Lexeme)
  | functionName
  | parameter (function : String)
  | parameterEnd (function : String)
  | condition (keyword : String)
  | operand (symbol : String)
  | literalRange (digits : String)
  | argument (function : String)
  | argumentEnd (function : String)
  | unexpected (found : Lexeme)

/-- Why a text is no program. -/
inductive ParseFault where
  | rejected (cause : Cause) (offset : Nat)
  | nestedTooDeeply
  | numeralTooLong (digits : Nat)

namespace Cause

/-- A word as a message shows it. -/
def foundText (found : Lexeme) : String :=
  quoted (if found.value.isEmpty then "end of input" else found.value)

/-- The cause in words. -/
def message : Cause → String
  | operator symbol context found =>
    "expected '" ++ symbol ++ "' " ++ context ++ ", found " ++ foundText found
  | functionName => "expected identifier after 'fn'"
  | parameter function => "expected parameter name in declaration of " ++ function
  | parameterEnd function => "expected ',' or ')' in parameters of " ++ function
  | condition keyword => "expected condition after '" ++ keyword ++ "'"
  | operand symbol => "expected an expression after '" ++ symbol ++ "'"
  | literalRange digits => "integer literal " ++ digits ++ " out of range"
  | argument function => "expected an argument in call to " ++ function
  | argumentEnd function => "expected ',' or ')' in call to " ++ function
  | unexpected found => "unexpected " ++ quoted found.value

end Cause

end Abacus
