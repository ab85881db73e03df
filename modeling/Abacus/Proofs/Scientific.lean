import Mathlib
import Abacus.Proofs.FixedPoint
import Abacus.Proofs.NearestDouble
import Abacus.Proofs.Significands

/-!
# Decimal numerals

A numeral is a row of digits, with a sign before it, a point with digits after it and an exponent, if they
are given. It denotes a rational number. Reading takes it to the double nearest to that number
(`Scientific.readFloat?_text`), so numerals of one number, with one sign, are read as one double.
-/

namespace Abacus

/-- A decimal numeral. A sign is true for minus. Without digits after the point there is no point. -/
structure Scientific where
  sign : Option Bool
  whole : List Char
  fraction : List Char
  exponent : Option (Bool × List Char)
  whole_ne_nil : whole ≠ []
  whole_digits : ∀ c ∈ whole, c.isDigit = true
  fraction_digits : ∀ c ∈ fraction, c.isDigit = true
  exponent_ne_nil : ∀ e ∈ exponent, e.2 ≠ []
  exponent_digits : ∀ e ∈ exponent, ∀ c ∈ e.2, c.isDigit = true

namespace Scientific

open Numeral

/-- The character of a sign. -/
def signChar (minus : Bool) : Char := if minus then '-' else '+'

def signText : Option Bool → List Char
  | none => []
  | some minus => [signChar minus]

def fractionText (fraction : List Char) : List Char := if fraction = [] then [] else '.' :: fraction

def exponentText : Option (Bool × List Char) → List Char
  | none => []
  | some e => 'e' :: signChar e.1 :: e.2

/-- The digits, with their point and their exponent. -/
def body (s : Scientific) : List Char := s.whole ++ fractionText s.fraction ++ exponentText s.exponent

def text (s : Scientific) : List Char := signText s.sign ++ s.body

def negative (s : Scientific) : Bool := s.sign == some true

/-- What the exponent adds to the place of the point. -/
def power : Option (Bool × List Char) → ℤ
  | none => 0
  | some e => if e.1 then -natOfDigits e.2 else natOfDigits e.2

/-- All digits as one number. -/
def significand (s : Scientific) : ℕ := natOfDigits (s.whole ++ s.fraction)

/-- The exponent of the last digit. -/
def lastExponent (s : Scientific) : ℤ := power s.exponent - s.fraction.length

/-- The number that a numeral denotes, without its sign. -/
def magnitude (s : Scientific) : ℚ := s.significand * 10 ^ s.lastExponent

/-- The number that a numeral denotes. -/
def value (s : Scientific) : ℚ := if s.negative then -s.magnitude else s.magnitude

/-- The decimal of a numeral. -/
def decimal (s : Scientific) : Decimal := .ofNumber s.negative s.significand s.lastExponent

/-- A numeral without an exponent and without zeros that could be left out, signed only if it is negated. -/
structure Plain (s : Scientific) : Prop where
  exponent : s.exponent = none
  sign : s.sign ≠ some false
  leading : s.whole = ['0'] ∨ s.whole.head? ≠ some '0'
  trailing : s.fraction.getLast? ≠ some '0'

/-! ## Reading -/

theorem isFloatPart_of_isDigit {c : Char} (h : c.isDigit = true) : isFloatPart c = true := by
  simp [isFloatPart, isNumeralPart, h]

theorem isFloatPart_signChar (minus : Bool) : isFloatPart (signChar minus) = true := by
  cases minus <;> rfl

theorem isFloatPart_of_mem (s : Scientific) : ∀ c ∈ s.text, isFloatPart c = true := by
  have sign : ∀ c ∈ signText s.sign, isFloatPart c = true := by
    cases s.sign with
    | none => exact List.forall_mem_nil _
    | some minus => exact List.forall_mem_singleton.2 (isFloatPart_signChar minus)
  have fraction : ∀ c ∈ fractionText s.fraction, isFloatPart c = true := by
    unfold fractionText
    split
    · exact List.forall_mem_nil _
    · exact List.forall_mem_cons.2 ⟨rfl, fun c mem => isFloatPart_of_isDigit (s.fraction_digits c mem)⟩
  have exponent : ∀ c ∈ exponentText s.exponent, isFloatPart c = true := by
    have digits := s.exponent_digits
    generalize s.exponent = exponent at digits
    cases exponent with
    | none => exact List.forall_mem_nil _
    | some e =>
      refine List.forall_mem_cons.2 ⟨rfl, List.forall_mem_cons.2 ⟨isFloatPart_signChar _, ?_⟩⟩
      exact fun c mem => isFloatPart_of_isDigit (digits e rfl c mem)
  have whole (c : Char) (mem : c ∈ s.whole) : isFloatPart c = true :=
    isFloatPart_of_isDigit (s.whole_digits c mem)
  exact List.forall_mem_append.2 ⟨sign,
    List.forall_mem_append.2 ⟨List.forall_mem_append.2 ⟨whole, fraction⟩, exponent⟩⟩

theorem splitSign_text (s : Scientific) : splitSign s.text = (s.negative, s.body) := by
  obtain ⟨c, cs, whole⟩ := List.exists_cons_of_ne_nil s.whole_ne_nil
  have digit : c.isDigit = true := s.whole_digits c (whole ▸ List.mem_cons_self)
  have body : s.body = c :: (cs ++ fractionText s.fraction ++ exponentText s.exponent) := by
    rw [Scientific.body, whole]
    rfl
  unfold text negative
  rw [body]
  generalize s.sign = sign
  cases sign with
  | none => exact splitSign_of_isDigit digit _
  | some minus => cases minus <;> rfl

theorem readExponent?_exponentText {exponent : Option (Bool × List Char)} (some : ∀ e ∈ exponent, e.2 ≠ [])
    (digits : ∀ e ∈ exponent, ∀ c ∈ e.2, c.isDigit = true) :
    readExponent? (exponentText exponent) = .some (power exponent) := by
  cases exponent with
  | none => rfl
  | some e =>
    obtain ⟨minus, ds⟩ := e
    have filled : ds.isEmpty = false := List.isEmpty_eq_false_iff.2 (some _ rfl)
    have all : ds.all Char.isDigit = true := List.all_eq_true.2 (digits _ rfl)
    cases minus <;> simp [readExponent?, exponentText, signChar, splitSign, filled, all, power]

/-- Digits end before an exponent. -/
theorem takeWhile_exponentText (exponent : Option (Bool × List Char)) :
    (exponentText exponent).takeWhile Char.isDigit = [] ∧
      (exponentText exponent).dropWhile Char.isDigit = exponentText exponent ∧
      ∀ tail, exponentText exponent ≠ '.' :: tail := by
  cases exponent with
  | none => exact ⟨rfl, rfl, fun _ => (List.cons_ne_nil _ _).symm⟩
  | some e =>
    refine ⟨rfl, rfl, fun tail same => ?_⟩
    cases same

/-- The point only shifts the exponent, so the digits are read as one whole number. -/
theorem readDigits?_body (s : Scientific) :
    readDigits? s.body = some (Decimal.nearest s.significand s.lastExponent) := by
  obtain ⟨noDigits, noDrop, noPoint⟩ := takeWhile_exponentText s.exponent
  have exponent := readExponent?_exponentText s.exponent_ne_nil s.exponent_digits
  have nonempty : s.whole.isEmpty = false := List.isEmpty_eq_false_iff.2 s.whole_ne_nil
  have after : s.body.drop s.whole.length = fractionText s.fraction ++ exponentText s.exponent := by
    rw [body, List.append_assoc, List.drop_left]
  have whole : s.body.takeWhile Char.isDigit = s.whole := by
    rw [body, List.append_assoc, List.takeWhile_append_of_pos s.whole_digits]
    unfold fractionText
    split
    · rw [List.nil_append, noDigits, List.append_nil]
    · rw [List.cons_append, List.takeWhile_cons_of_neg (by decide), List.append_nil]
  unfold readDigits? significand lastExponent
  rw [whole]
  dsimp only
  rw [after]
  unfold fractionText
  by_cases none : s.fraction = []
  · -- no point: the exponent follows the digits, and it does not begin with one
    rw [if_pos none, List.nil_append, none]
    split
    · next tail point => exact absurd point (noPoint _)
    · simp [nonempty, exponent]
  · rw [if_neg none]
    have digits : (s.fraction ++ exponentText s.exponent).takeWhile Char.isDigit = s.fraction := by
      rw [List.takeWhile_append_of_pos s.fraction_digits, noDigits, List.append_nil]
    have rest : (s.fraction ++ exponentText s.exponent).dropWhile Char.isDigit = exponentText s.exponent := by
      rw [List.dropWhile_append_of_pos s.fraction_digits, noDrop]
    simp [digits, rest, nonempty, exponent]

/-- A numeral is read as the double nearest to the number that it denotes. -/
theorem readFloat?_text (s : Scientific) :
    readFloat? (String.ofList s.text)
      = some (if s.negative then -Binary64.rounded s.magnitude else Binary64.rounded s.magnitude) := by
  rw [readFloat?_ofList s.isFloatPart_of_mem, splitSign_text, readDigits?_body, Decimal.nearest_eq_rounded]
  rfl

end Scientific

end Abacus
