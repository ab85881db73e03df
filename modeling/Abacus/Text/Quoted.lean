import Abacus.Text.Basic
import Abacus.Text.Printable

/-!
# Quoted texts

A message shows a text between quotes. The quote is `'`, unless the text holds one and holds no `"`;
then it is `"`. The backslash, the quote itself, line ends, tabs and every character that is not
printable are escaped, and surrogates are, so the quoted text stands on one line and can be read back.
-/

namespace Abacus

/-- `n` in hexadecimal, with zeros in front up to `width` digits. -/
def hexPadded (width n : Nat) : String :=
  let digits := Nat.toDigits 16 n
  String.ofList (List.replicate (width - digits.length) '0' ++ digits)

/-- The escape of a code point, as short as it can be. -/
def codeEscape (n : Nat) : String :=
  if n < 0x100 then "\\x" ++ hexPadded 2 n
  else if n < 0x10000 then "\\u" ++ hexPadded 4 n
  else "\\U" ++ hexPadded 8 n

/-- One character between quotes of the kind `quote`. -/
def quotedChar (quote c : Char) : String :=
  if c = quote || c = '\\' then "\\" ++ c.toString
  else if c = '\n' then "\\n"
  else if c = '\r' then "\\r"
  else if c = '\t' then "\\t"
  else if isPrintable c then c.toString
  else codeEscape c.toNat

/-- One code point between quotes of the kind `quote`. -/
def quotedPoint (quote : Char) (p : CodePoint) : String :=
  match p.char? with
  | some c => quotedChar quote c
  | none => codeEscape p.number

/-- The quote for a text. -/
def quoteFor (text : Text) : Char :=
  if text.chars.contains '\'' && !text.chars.contains '"' then '"' else '\''

/-- A text between quotes. -/
def quoted (text : Text) : String :=
  let quote := quoteFor text
  quote.toString ++ String.join (text.points.map (quotedPoint quote)) ++ quote.toString

end Abacus
