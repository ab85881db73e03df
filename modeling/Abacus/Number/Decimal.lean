/-!
# Decimals and doubles

A decimal is a row of digits with a point. `Decimal.shortest` finds, for a finite double, the decimal
with the fewest digits that is read back as that double, and of those with equally few the nearest; of
two that are equally near it takes the even one. It tries the grids of one digit, two digits and so on.
On each grid only the two neighbours of the exact value count: if any point of the grid is read back,
one of them is.

All steps work on the exact value, a quotient of natural numbers.
-/

namespace Abacus

/-- The decimal `0.d₁d₂… × 10 ^ point`, negated if `negative`. -/
structure Decimal where
  negative : Bool
  digits : List Char
  point : Int

namespace Decimal

/-- The double nearest to `digits × 10 ^ exponent`. -/
def nearest (digits : Nat) (exponent : Int) : Float :=
  match exponent with
  | .ofNat up => Float.ofScientific digits false up
  | .negSucc down => Float.ofScientific digits true (down + 1)

/-- The magnitude of a finite double is `mantissa × 2 ^ exponent`. -/
structure Parts where
  negative : Bool
  mantissa : Nat
  exponent : Int

/-- The parts of a finite double, from its bits: a sign, eleven bits of exponent and fifty-two of
mantissa, with a leading one unless the exponent is zero. -/
def parts (x : Float) : Parts :=
  let bits := x.toBits.toNat
  let exponent : Nat := bits / Nat.pow 2 52 % Nat.pow 2 11
  let fraction := bits % Nat.pow 2 52
  { negative := Nat.pow 2 63 ≤ bits
    mantissa := if exponent = 0 then fraction else Nat.pow 2 52 + fraction
    exponent := (if exponent = 0 then 1 else (exponent : Int)) - 1075 }

/-- The whole part of a finite double. -/
def truncate (x : Float) : Int :=
  let p := parts x
  let magnitude : Nat :=
    match p.exponent with
    | .ofNat up => p.mantissa * Nat.pow 2 up
    | .negSucc down => p.mantissa / Nat.pow 2 (down + 1)
  if p.negative then -(magnitude : Int) else magnitude

/-- A positive quotient of natural numbers. -/
structure Ratio where
  num : Nat
  den : Nat

namespace Ratio

/-- The quotient divided by `10 ^ k`. -/
def shift (r : Ratio) (k : Int) : Ratio :=
  match k with
  | .ofNat up => ⟨r.num, r.den * Nat.pow 10 up⟩
  | .negSucc down => ⟨r.num * Nat.pow 10 (down + 1), r.den⟩

/-- The least `p` with `r < 10 ^ p`, found near an estimate from the number of bits. -/
def magnitude (r : Ratio) : Int :=
  let bits : Int := (r.num.log2 : Int) - (r.den.log2 : Int)
  let guess := (bits - 1) * 30103 / 100000
  let fits (p : Int) : Bool := (r.shift p).num < (r.shift p).den
  if fits guess then guess
  else if fits (guess + 1) then guess + 1
  else guess + 2

end Ratio

/-- The magnitude of a finite double as a quotient. -/
def ratio (x : Float) : Ratio :=
  let p := parts x
  match p.exponent with
  | .ofNat up => ⟨p.mantissa * Nat.pow 2 up, 1⟩
  | .negSucc down => ⟨p.mantissa, Nat.pow 2 (down + 1)⟩

/-- The points next to `r` on the grid of `10 ^ k`, the nearer one first. If they are equally near, the
even one is first. -/
def neighbours (r : Ratio) (k : Int) : List Nat :=
  let scaled := r.shift k
  let below := scaled.num / scaled.den
  let twice := 2 * (scaled.num % scaled.den)
  if twice < scaled.den ∨ twice = scaled.den ∧ below % 2 = 0 then [below, below + 1]
  else [below + 1, below]

/-- A text without the characters `c` at its end. -/
def stripEnd (c : Char) (text : List Char) : List Char := (text.reverse.dropWhile (· == c)).reverse

/-- A decimal from a significand. Zeros at its end are dropped. -/
def ofSignificand (negative : Bool) (significand : Nat) (exponent : Int) : Decimal :=
  let digits := Nat.toDigits 10 significand
  { negative
    digits := stripEnd '0' digits
    point := digits.length + exponent }

/-- The significand with `count` digits that is read back as `x`, and its exponent. -/
def onGrid? (x : Float) (count : Nat) : Option (Nat × Int) :=
  let r := ratio x
  let k := r.magnitude - count
  ((neighbours r k).find? fun digits => (nearest digits k).toBits == x.abs.toBits).map (·, k)

/-- The shortest decimal that is read back as the finite double `x`. Seventeen digits are always
enough; the exact value, which needs no search, stands for the case that they were not. -/
def shortest (x : Float) : Decimal :=
  let p := parts x
  if p.mantissa = 0 then
    ⟨p.negative, ['0'], 1⟩
  else
    match (List.range' 1 17).findSome? (onGrid? x) with
    | some (digits, k) => ofSignificand p.negative digits k
    | none =>
      match p.exponent with
      | .ofNat up => ofSignificand p.negative (p.mantissa * Nat.pow 2 up) 0
      | .negSucc down => ofSignificand p.negative (p.mantissa * Nat.pow 5 (down + 1)) (-(down + 1 : Int))

end Decimal

end Abacus
