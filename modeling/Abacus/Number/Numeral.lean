import Abacus.Number.Decimal
import Abacus.Text.Script

/-!
# Reading numerals

Two kinds of numerals can be given as a text. An integer is a row of digits with a sign in front; a
double may have a point and an exponent, or be one of the words for infinity and for not-a-number.
Both may stand between spaces, and in both one underscore may divide two digits.

Integers with more digits than `digitLimit` are refused before their value is computed.
-/

namespace Abacus

/-- The largest number of digits an integer may be written with. -/
def digitLimit : Nat := 4300

/-- Why a text is not read as an integer. -/
inductive IntegerFault where
  | malformed
  | tooLong (digits : Nat)

namespace Numeral

/-- The natural number that a row of ASCII digits denotes. -/
def natOfDigits (digits : List Char) : Nat :=
  digits.foldl (fun n c => 10 * n + (c.toNat - '0'.toNat)) 0

/-- Without the spaces around. -/
def trim (text : List Char) : List Char :=
  ((text.dropWhile isNarrowSpace).reverse.dropWhile isNarrowSpace).reverse

/-- A sign, if there is one, and the rest. The sign is true for minus. -/
def splitSign : List Char → Bool × List Char
  | '-' :: rest => (true, rest)
  | '+' :: rest => (false, rest)
  | rest => (false, rest)

/-- Whether every underscore stands between two digits; `before` says whether a digit stands before
the text. -/
def underscoresOk (before : Bool) : List Char → Bool
  | [] => true
  | '_' :: c :: rest => before && c.isDigit && underscoresOk true rest
  | ['_'] => false
  | c :: rest => underscoresOk c.isDigit rest

/-- Reads an integer. -/
def readInt (text : Text) : Except IntegerFault Int :=
  let (negative, body) := splitSign ((plainNumeral text).dropWhile isNarrowSpace)
  let run := body.takeWhile fun c => c.isDigit || c == '_'
  let digits := run.filter (· != '_')
  if digits.isEmpty || !underscoresOk false run then
    .error .malformed
  else if digitLimit < digits.length then
    .error (.tooLong digits.length)
  else if (body.drop run.length).all isNarrowSpace then
    let magnitude : Int := natOfDigits digits
    .ok (if negative then -magnitude else magnitude)
  else
    .error .malformed

/-- The exponent after the mark `e`, if the text is one. -/
def readExponent? (text : List Char) : Option Int :=
  match text with
  | [] => some 0
  | mark :: rest =>
    if mark == 'e' || mark == 'E' then
      let (negative, digits) := splitSign rest
      if !digits.isEmpty && digits.all Char.isDigit then
        let magnitude : Int := natOfDigits digits
        some (if negative then -magnitude else magnitude)
      else none
    else none

/-- A double without a sign, written with digits. -/
def readDigits? (text : List Char) : Option Float :=
  let whole := text.takeWhile Char.isDigit
  let afterWhole := text.drop whole.length
  let (fraction, rest) :=
    match afterWhole with
    | '.' :: tail => (tail.takeWhile Char.isDigit, tail.dropWhile Char.isDigit)
    | _ => ([], afterWhole)
  if whole.isEmpty && fraction.isEmpty then none
  else
    (readExponent? rest).map fun exponent =>
      Decimal.nearest (natOfDigits (whole ++ fraction)) (exponent - fraction.length)

/-- The words for the values without digits. -/
def readWord? (text : List Char) : Option Float :=
  let word := String.ofList (text.map Char.toLower)
  if word == "inf" || word == "infinity" then some (1.0 / 0.0)
  else if word == "nan" then some (0.0 / 0.0)
  else none

/-- Reads a double. -/
def readFloat? (text : Text) : Option Float :=
  let body := trim (plainNumeral text)
  if underscoresOk false body then
    let (negative, magnitude) := splitSign (body.filter (· != '_'))
    ((readDigits? magnitude).orElse fun _ => readWord? magnitude).map fun x =>
      if negative then -x else x
  else none

/-- The double that an integer is nearest to, unless it is too large for one. -/
def floatOfInt? (n : Int) : Option Float :=
  let x := Decimal.nearest n.natAbs 0
  if x.isInf then none else some (if n < 0 then -x else x)

end Numeral

end Abacus
