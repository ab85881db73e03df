import Abacus.Number.Decimal

/-!
# The text of a double

A layout says how the digits of a double are written: where the notation without an exponent ends,
what follows a whole number, and how the values without digits are spelt. `Layout.write` applies it
to the shortest digits.

The plain layout is what comes of rewriting the text of the exact one: the number is written out with a
point, and then zeros at the end of the fraction are dropped, and the point if nothing is left after it
(`rewritten`).
-/

namespace Abacus

/-- The decisions in the text of a double. -/
structure Layout where
  /-- Whether a decimal with its point at this place is written without an exponent. -/
  positional : Int → Bool
  /-- What follows a whole number. -/
  wholeTail : String
  nan : String
  infinity : String

namespace Layout

/-- Always without an exponent, and whole numbers without a point. -/
def plain : Layout where
  positional _ := true
  wholeTail := ""
  nan := "NaN"
  infinity := "inf"

/-- With an exponent for magnitudes under `10 ^ -4` and from `10 ^ 16` on. A whole number keeps its
point, so that it can be told from an integer. -/
def exact : Layout where
  positional point := -4 < point && point ≤ 16
  wholeTail := ".0"
  nan := "nan"
  infinity := "inf"

/-- The digits with their point, without an exponent. -/
def positionalText (wholeTail : List Char) (digits : List Char) (point : Int) : List Char :=
  match point with
  | .ofNat 0 => '0' :: '.' :: digits
  | .negSucc down => '0' :: '.' :: (List.replicate (down + 1) '0' ++ digits)
  | .ofNat whole =>
    if digits.length ≤ whole then
      digits ++ List.replicate (whole - digits.length) '0' ++ wholeTail
    else
      digits.take whole ++ '.' :: digits.drop whole

/-- An exponent of at least two digits, with its sign. -/
def exponentText (exponent : Int) : List Char :=
  let digits := Nat.toDigits 10 exponent.natAbs
  'e' :: (if exponent < 0 then '-' else '+') ::
    (List.replicate (2 - digits.length) '0' ++ digits)

/-- One digit before the point, and an exponent. -/
def exponentialText (digits : List Char) (point : Int) : List Char :=
  digits.take 1 ++ (if digits.length ≤ 1 then [] else '.' :: digits.drop 1) ++
    exponentText (point - 1)

/-- A decimal as the layout writes it. -/
def decimalText (layout : Layout) (d : Decimal) : List Char :=
  (if d.negative then ['-'] else []) ++
    if layout.positional d.point then positionalText layout.wholeTail.toList d.digits d.point
    else exponentialText d.digits d.point

/-- A double as the layout writes it. -/
def write (layout : Layout) (x : Float) : String :=
  if x.isNaN then layout.nan
  else if x.isInf then (if x < 0 then "-" else "") ++ layout.infinity
  else String.ofList (layout.decimalText (Decimal.shortest x))

/-! ### Rewriting -/

/-- The number `significand × 10 ^ exponent` without an exponent. There are as many digits after the point
as the exponent says, and there is no point if it says none. -/
def fixedText (significand : Nat) (exponent : Int) : List Char :=
  let digits := Nat.toDigits 10 significand
  match exponent with
  | .ofNat up => if significand = 0 then ['0'] else digits ++ List.replicate up '0'
  | .negSucc down =>
    let places := down + 1
    if digits.length ≤ places then
      '0' :: '.' :: (List.replicate (places - digits.length) '0' ++ digits)
    else
      digits.take (digits.length - places) ++ '.' :: digits.drop (digits.length - places)

/-- If there is a point: without the zeros at the end, and then without the point at the end. -/
def trimmed (text : List Char) : List Char :=
  if text.contains '.' then Decimal.stripEnd '.' (Decimal.stripEnd '0' text) else text

/-- A number without an exponent and without zeros that could be left out. -/
def rewritten (negative : Bool) (significand : Nat) (exponent : Int) : List Char :=
  trimmed ((if negative then ['-'] else []) ++ fixedText significand exponent)

end Layout

end Abacus
