import Mathlib
import Abacus.Number.Numeral
import Abacus.Proofs.JsonScalars

/-!
# Digits and the numbers they denote

A row of digits denotes a natural number, and zeros at its end or at its front do what they do on paper.
`Decimal.ofNumber` takes a number `n × 10 ^ e` to its row of digits without zeros at the end, with the place
of the point. The row depends on the number alone (`ofNumber_congr`).
-/

namespace Abacus

namespace Numeral

theorem natOfDigits_eq (digits : List Char) : natOfDigits digits = Nat.ofDigitChars 10 digits 0 := rfl

@[simp] theorem natOfDigits_toDigits (n : ℕ) : natOfDigits (Nat.toDigits 10 n) = n :=
  Nat.ofDigitChars_ten_toDigits

theorem isDigit_toDigits (n : ℕ) : ∀ c ∈ Nat.toDigits 10 n, c.isDigit = true :=
  fun _ mem => Nat.isDigit_of_mem_toDigits (by decide) (by decide) mem

theorem isDigit_zeros (count : ℕ) : ∀ c ∈ List.replicate count '0', c.isDigit = true := by
  intro c mem
  rw [List.eq_of_mem_replicate mem]
  rfl

theorem natOfDigits_append (front back : List Char) :
    natOfDigits (front ++ back) = natOfDigits front * 10 ^ back.length + natOfDigits back := by
  rw [natOfDigits_eq, Nat.ofDigitChars_append, Nat.ofDigitChars_eq_ofDigitChars_zero, mul_comm]
  rfl

@[simp] theorem natOfDigits_zeros (count : ℕ) : natOfDigits (List.replicate count '0') = 0 := by
  rw [natOfDigits_eq, Nat.ofDigitChars_replicate_zero, mul_zero]

theorem natOfDigits_append_zeros (digits : List Char) (count : ℕ) :
    natOfDigits (digits ++ List.replicate count '0') = natOfDigits digits * 10 ^ count := by
  rw [natOfDigits_append, natOfDigits_zeros, List.length_replicate, add_zero]

theorem natOfDigits_zeros_append (count : ℕ) (digits : List Char) :
    natOfDigits (List.replicate count '0' ++ digits) = natOfDigits digits := by
  rw [natOfDigits_append, natOfDigits_zeros, zero_mul, zero_add]

end Numeral

namespace Decimal

open Numeral

/-! ## Rows of digits -/

theorem stripEnd_append_replicate (c : Char) (text : List Char) (count : ℕ) :
    stripEnd c (text ++ List.replicate count c) = stripEnd c text := by
  have all : ∀ d ∈ List.replicate count c, (d == c) = true := by
    intro d mem
    rw [List.eq_of_mem_replicate mem]
    exact beq_self_eq_true c
  rw [stripEnd, List.reverse_append, List.reverse_replicate, List.dropWhile_append_of_pos all]
  rfl

/-- Nothing is dropped from a text that ends otherwise. -/
theorem stripEnd_of_getLast? {c : Char} {text : List Char} (other : text.getLast? ≠ some c) :
    stripEnd c text = text := by
  rw [← List.head?_reverse] at other
  have kept : text.reverse.dropWhile (· == c) = text.reverse := by
    cases reversed : text.reverse with
    | nil => rfl
    | cons d rest =>
      rw [reversed] at other
      have different : ¬ (d == c) = true := fun same => other (congrArg some (beq_iff_eq.1 same))
      exact List.dropWhile_cons_of_neg different
  rw [stripEnd, kept, List.reverse_reverse]

/-- What is dropped are zeros. -/
theorem exists_stripEnd (digits : List Char) :
    ∃ count, digits = stripEnd '0' digits ++ List.replicate count '0' := by
  let isZero (c : Char) : Bool := c == '0'
  have zeros : digits.reverse.takeWhile isZero
      = List.replicate (digits.reverse.takeWhile isZero).length '0' := by
    refine List.eq_replicate_of_mem fun c mem => ?_
    have zero : isZero c = true := List.mem_takeWhile_imp mem
    exact beq_iff_eq.1 zero
  refine ⟨(digits.reverse.takeWhile isZero).length, ?_⟩
  calc digits = (digits.reverse.takeWhile isZero ++ digits.reverse.dropWhile isZero).reverse := by
        rw [List.takeWhile_append_dropWhile, List.reverse_reverse]
    _ = stripEnd '0' digits ++ (digits.reverse.takeWhile isZero).reverse := List.reverse_append
    _ = _ := by
        conv_lhs => rw [zeros, List.reverse_replicate]

theorem getLast?_stripEnd (digits : List Char) : (stripEnd '0' digits).getLast? ≠ some '0' := by
  rw [stripEnd, List.getLast?_reverse]
  intro zero
  have kept := List.head?_dropWhile_not (· == '0') digits.reverse
  rw [zero] at kept
  cases kept

/-- The digits of a number times a power of ten. -/
theorem toDigits_mul_pow {n : ℕ} (pos : 0 < n) (count : ℕ) :
    Nat.toDigits 10 (n * 10 ^ count) = Nat.toDigits 10 n ++ List.replicate count '0' := by
  induction count with
  | zero => simp
  | succ count ih =>
    have split := Nat.toDigits_append_toDigits (b := 10) (d := 0) (by decide)
      (Nat.mul_pos pos (Nat.pow_pos (by decide) : 0 < 10 ^ count)) (by decide)
    have next : n * 10 ^ (count + 1) = 10 * (n * 10 ^ count) + 0 := by ring
    rw [next, ← split, ih, Nat.toDigits_zero, List.append_assoc, ← List.replicate_succ']

/-! ## Numbers -/

theorem ofSignificand_eq (negative : Bool) (n : ℕ) (e : ℤ) :
    ofSignificand negative n e
      = ⟨negative, stripEnd '0' (Nat.toDigits 10 n), (Nat.toDigits 10 n).length + e⟩ := rfl

/-- The decimal of the number `n × 10 ^ e`, negated if `negative`. -/
def ofNumber (negative : Bool) (n : ℕ) (e : ℤ) : Decimal :=
  if n = 0 then ⟨negative, ['0'], 1⟩ else ofSignificand negative n e

theorem ofNumber_mul_pow (negative : Bool) (n : ℕ) (e : ℤ) (count : ℕ) :
    ofNumber negative (n * 10 ^ count) e = ofNumber negative n (e + count) := by
  unfold ofNumber
  rcases Nat.eq_zero_or_pos n with rfl | pos
  · rw [zero_mul, if_pos rfl, if_pos rfl]
  · have point : ((Nat.toDigits 10 n).length + count : ℕ) + e = (Nat.toDigits 10 n).length + (e + count) := by
      omega
    rw [if_neg pos.ne', if_neg (Nat.mul_pos pos (Nat.pow_pos (by decide))).ne', ofSignificand_eq,
      ofSignificand_eq, toDigits_mul_pow pos, stripEnd_append_replicate, List.length_append,
      List.length_replicate, point]

/-- The decimal depends on the number alone. -/
theorem ofNumber_congr {negative : Bool} {n n' : ℕ} {e e' : ℤ} (same : (n * 10 ^ e : ℚ) = n' * 10 ^ e') :
    ofNumber negative n e = ofNumber negative n' e' := by
  wlog le : e ≤ e' generalizing n n' e e'
  · exact (this same.symm (by omega)).symm
  obtain ⟨count, rfl⟩ := Int.le.dest le
  have multiple : n = n' * 10 ^ count := by
    rw [zpow_add₀ (by norm_num), mul_left_comm, mul_comm, zpow_natCast] at same
    exact_mod_cast mul_left_cancel₀ (zpow_ne_zero e (by norm_num)) same
  rw [multiple, ofNumber_mul_pow]

/-! ## Canonical rows -/

/-- The number that a decimal denotes, without its sign. -/
def magnitude (d : Decimal) : ℚ := natOfDigits d.digits * 10 ^ (d.point - d.digits.length)

/-- A row of digits without zeros at its ends, or one zero before the point. -/
structure Canonical (d : Decimal) : Prop where
  ne_nil : d.digits ≠ []
  isDigit : ∀ c ∈ d.digits, c.isDigit = true
  trimmed : d.digits = ['0'] ∧ d.point = 1 ∨ d.digits.head? ≠ some '0' ∧ d.digits.getLast? ≠ some '0'

theorem negative_ofNumber (negative : Bool) (n : ℕ) (e : ℤ) :
    (ofNumber negative n e).negative = negative := by
  unfold ofNumber
  split <;> rfl

/-- Zeros at the end of the significand are made up for by the exponent. -/
theorem magnitude_ofNumber (negative : Bool) (n : ℕ) (e : ℤ) :
    (ofNumber negative n e).magnitude = n * 10 ^ e := by
  unfold ofNumber
  rcases Nat.eq_zero_or_pos n with rfl | pos
  · have zero : natOfDigits ['0'] = 0 := rfl
    rw [if_pos rfl, Nat.cast_zero, zero_mul, magnitude, zero, Nat.cast_zero, zero_mul]
  · obtain ⟨count, split⟩ := exists_stripEnd (Nat.toDigits 10 n)
    have length := congrArg List.length split
    rw [List.length_append, List.length_replicate] at length
    have value : n = natOfDigits (stripEnd '0' (Nat.toDigits 10 n)) * 10 ^ count := by
      rw [← natOfDigits_append_zeros, ← split, natOfDigits_toDigits]
    have place :
        ((Nat.toDigits 10 n).length + e : ℤ) - (stripEnd '0' (Nat.toDigits 10 n)).length = count + e := by
      omega
    rw [if_neg pos.ne', ofSignificand_eq, magnitude]
    dsimp only
    rw [place, zpow_add₀ (by norm_num), zpow_natCast, ← mul_assoc]
    congr 1
    exact_mod_cast value.symm

/-- No digits are left that the exponent could stand for. -/
theorem canonical_ofNumber (negative : Bool) (n : ℕ) (e : ℤ) : (ofNumber negative n e).Canonical := by
  unfold ofNumber
  rcases Nat.eq_zero_or_pos n with rfl | pos
  · rw [if_pos rfl]
    exact ⟨List.cons_ne_nil _ _, List.forall_mem_singleton.2 rfl, .inl ⟨rfl, rfl⟩⟩
  · obtain ⟨count, split⟩ := exists_stripEnd (Nat.toDigits 10 n)
    have ne_nil : stripEnd '0' (Nat.toDigits 10 n) ≠ [] := by
      intro nothing
      rw [nothing, List.nil_append] at split
      have value := natOfDigits_toDigits n
      rw [split, natOfDigits_zeros] at value
      exact pos.ne value
    have isDigit (c : Char) (mem : c ∈ stripEnd '0' (Nat.toDigits 10 n)) : c.isDigit = true := by
      refine isDigit_toDigits n c ?_
      rw [split]
      exact List.mem_append_left _ mem
    have head : (stripEnd '0' (Nat.toDigits 10 n)).head? ≠ some '0' := by
      have first := Json.head?_toDigits pos
      rwa [split, List.head?_append_of_ne_nil _ ne_nil] at first
    rw [if_neg pos.ne', ofSignificand_eq]
    exact ⟨ne_nil, isDigit, .inr ⟨head, getLast?_stripEnd _⟩⟩

end Decimal

end Abacus
