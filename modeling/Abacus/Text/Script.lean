import Abacus.Text.Basic

/-!
# Digits and spaces of all scripts

A numeral given as a text may be written with the decimal digits of any script, and may stand between
spaces of any kind. `plainNumeral` writes it with the digits and the space of ASCII. The digits of a
script are ten code points in a row, so a table of zeros is enough.
-/

namespace Abacus

/-- The code points above ASCII that are the digit zero of a script. -/
def scriptZeros : List Nat :=
  [0x660, 0x6F0, 0x7C0, 0x966, 0x9E6, 0xA66, 0xAE6, 0xB66, 0xBE6, 0xC66, 0xCE6, 0xD66, 0xDE6,
    0xE50, 0xED0, 0xF20, 0x1040, 0x1090, 0x17E0, 0x1810, 0x1946, 0x19D0, 0x1A80, 0x1A90, 0x1B50,
    0x1BB0, 0x1C40, 0x1C50, 0xA620, 0xA8D0, 0xA900, 0xA9D0, 0xA9F0, 0xAA50, 0xABF0, 0xFF10,
    0x104A0, 0x10D30, 0x11066, 0x110F0, 0x11136, 0x111D0, 0x112F0, 0x11450, 0x114D0, 0x11650,
    0x116C0, 0x11730, 0x118E0, 0x11950, 0x11C50, 0x11D50, 0x11DA0, 0x16A60, 0x16AC0, 0x16B50,
    0x1D7CE, 0x1D7D8, 0x1D7E2, 0x1D7EC, 0x1D7F6, 0x1E140, 0x1E2F0, 0x1E950, 0x1FBF0]

/-- The value of a decimal digit above ASCII. -/
def scriptDigit? (n : Nat) : Option Nat :=
  (scriptZeros.find? fun first => first ≤ n && n ≤ first + 9).map (n - ·)

/-- A space above ASCII. -/
def isWideSpace (n : Nat) : Bool :=
  n == 0x85 || n == 0xA0 || n == 0x1680 || (0x2000 ≤ n && n ≤ 0x200A) || n == 0x2028 || n == 0x2029 ||
    n == 0x202F || n == 0x205F || n == 0x3000

/-- A space of ASCII, as numerals know it. -/
def isNarrowSpace (c : Char) : Bool :=
  c == ' ' || (9 ≤ c.toNat && c.toNat ≤ 13)

/-- One code point of a numeral in ASCII. What no numeral holds becomes a question mark. -/
def plainNumeralChar (n : Nat) : Char :=
  if n < 0x7F then
    Char.ofNat n
  else if isWideSpace n then
    ' '
  else
    match scriptDigit? n with
    | some digit => Char.ofNat ('0'.toNat + digit)
    | none => '?'

/-- The text of a numeral in ASCII. -/
def plainNumeral (text : Text) : List Char :=
  text.points.map fun p => plainNumeralChar p.number

end Abacus
