import Mathlib
import Abacus.Proofs.WrittenDecimals
import Abacus.Value.Basic

/-!
# The text of a double

The shortest decimal of a finite double is the one of a number that the double is nearest to
(`Decimal.shortest_eq`). So every layout writes the double as a numeral that is read back as that double,
and what `print` writes is the rewriting of the exact text without an exponent
(`printed_doubles_read_back`).
-/

namespace Abacus

open Numeral Binary64

/-! ## The shortest decimal -/

namespace Decimal

theorem nearest_of_onGrid? {x : Float} {count n : ℕ} {k : ℤ} (hit : onGrid? x count = some (n, k)) :
    nearest n k = x.abs := by
  unfold onGrid? at hit
  obtain ⟨m, found, eq⟩ := Option.map_eq_some_iff.1 hit
  cases eq
  have same := List.find?_some found
  exact eq_of_toBits (beq_iff_eq.1 same)

/-- Halves are fives in the next place. -/
theorem mul_five_pow (m down : ℕ) :
    ((m * Nat.pow 5 (down + 1) : ℕ) * 10 ^ (-(down + 1 : ℤ)) : ℚ) = m * 2 ^ Int.negSucc down := by
  have ten : (10 : ℚ) ^ (down + 1) = 5 ^ (down + 1) * 2 ^ (down + 1) := by
    rw [← mul_pow]
    norm_num
  rw [Nat.pow_eq, zpow_negSucc, zpow_neg, ← Nat.cast_succ, zpow_natCast, Nat.succ_eq_add_one, ten, mul_inv]
  push_cast
  rw [mul_assoc, mul_inv_cancel_left₀ (pow_ne_zero _ (by norm_num))]

section number
variable {x : Float} (number : IsNumber x)
include number

theorem abs_eq : x.abs = double false (parts x).mantissa (parts x).exponent := by
  conv_lhs => rw [eq_double_parts number, abs_double (fits_parts number)]

/-- The exact value of a double rounds to its magnitude. -/
theorem rounded_parts : rounded ((parts x).mantissa * 2 ^ (parts x).exponent) = x.abs := by
  rw [abs_eq number]
  exact rounded_of_fits (fits_parts number)

/-- The sign of a double, put before its magnitude, gives the double. -/
theorem signed_abs : (if (parts x).negative then -x.abs else x.abs) = x := by
  have fits := fits_parts number
  conv_rhs => rw [eq_double_parts number]
  rw [abs_eq number, neg_double fits]
  cases (parts x).negative <;> rfl

/-- Only the zeros have a magnitude of zero. -/
theorem pos_of_nearest {n : ℕ} {e : ℤ} (pos : (parts x).mantissa ≠ 0) (same : nearest n e = x.abs) :
    n ≠ 0 := by
  rintro rfl
  have least : Fits 0 (-1074) := ⟨by decide, by decide, by decide, .inr rfl⟩
  have zero : nearest 0 e = double false 0 (-1074) := by
    rw [nearest_eq_rounded, ← rounded_of_fits least, Nat.cast_zero, zero_mul, zero_mul]
  have parts_eq : parts x.abs = ⟨false, (parts x).mantissa, (parts x).exponent⟩ := by
    rw [abs_eq number, parts_double (fits_parts number)]
  rw [← same, zero, parts_double least] at parts_eq
  exact pos (congrArg Parts.mantissa parts_eq).symm

/-- The shortest decimal of a double is the one of a number that the double is nearest to. -/
theorem shortest_eq :
    ∃ (n : ℕ) (e : ℤ), shortest x = ofNumber (parts x).negative n e ∧ nearest n e = x.abs := by
  have exact := rounded_parts number
  unfold shortest
  dsimp only
  split
  · next zero =>
    refine ⟨0, 0, rfl, ?_⟩
    rw [zero, Nat.cast_zero, zero_mul] at exact
    rw [nearest_eq_rounded, Nat.cast_zero, zero_mul, exact]
  · next pos =>
    have of_nearest {n : ℕ} {e : ℤ} (same : nearest n e = x.abs) :
        ∃ (n' : ℕ) (e' : ℤ), ofSignificand (parts x).negative n e = ofNumber (parts x).negative n' e' ∧
          nearest n' e' = x.abs :=
      ⟨n, e, (if_neg (pos_of_nearest number pos same)).symm, same⟩
    split
    · next digits k found =>
      -- a point of a grid is taken because it is read back
      obtain ⟨count, -, hit⟩ := List.exists_of_findSome?_eq_some found
      exact of_nearest (nearest_of_onGrid? hit)
    · -- the exact value, with as many digits as it needs
      split
      · next up exponent =>
        refine of_nearest ?_
        rw [exponent] at exact
        rw [nearest_eq_rounded, zpow_zero, mul_one, ← exact, Nat.pow_eq, Int.ofNat_eq_natCast, zpow_natCast]
        push_cast
        rfl
      · next down exponent =>
        refine of_nearest ?_
        rw [exponent] at exact
        rw [nearest_eq_rounded, mul_five_pow, exact]

end number

end Decimal

/-! ## Writing and reading -/

namespace Layout

theorem plain_tail : plain.wholeTail.toList = Scientific.fractionText (List.replicate 0 '0') := rfl

theorem exact_tail : exact.wholeTail.toList = Scientific.fractionText (List.replicate 1 '0') := rfl

/-- A numeral of the shortest decimal is read back. -/
theorem readFloat?_of_denotes {x : Float} (number : IsNumber x) {s : Scientific}
    (denotes : s.Denotes (.shortest x)) : readFloat? (String.ofList s.text) = some x := by
  obtain ⟨n, e, shortest, nearest⟩ := Decimal.shortest_eq number
  have negative : s.negative = (Decimal.parts x).negative := by
    rw [denotes.negative_eq, shortest, Decimal.negative_ofNumber]
  have magnitude : rounded s.magnitude = x.abs := by
    rw [denotes.magnitude, shortest, Decimal.magnitude_ofNumber, ← Decimal.nearest_eq_rounded, nearest]
  rw [s.readFloat?_text, negative, magnitude, Decimal.signed_abs number]

section finite
variable {x : Float} (finite : x.isFinite = true)
include finite

theorem write_of_isFinite (layout : Layout) :
    layout.write x = String.ofList (layout.decimalText (.shortest x)) := by
  obtain ⟨notNaN, notInf⟩ := isNaN_isInf_of_isFinite finite
  rw [write, notNaN, notInf, if_neg Bool.false_ne_true, if_neg Bool.false_ne_true]

/-- A double is written as a numeral, which is read back as that double. Its decimal is the shortest one. -/
theorem exists_write {layout : Layout} {zeros : ℕ}
    (tail : layout.wholeTail.toList = Scientific.fractionText (List.replicate zeros '0')) :
    ∃ s : Scientific, layout.write x = String.ofList s.text ∧ s.decimal = .shortest x ∧
      readFloat? (layout.write x) = some x := by
  have number := isNumber_of_isFinite finite
  obtain ⟨n, e, shortest, -⟩ := Decimal.shortest_eq number
  have canonical : (Decimal.shortest x).Canonical := shortest ▸ Decimal.canonical_ofNumber _ n e
  obtain ⟨s, denotes, text⟩ := exists_decimalText tail canonical
  have written : layout.write x = String.ofList s.text := by
    rw [write_of_isFinite finite, text]
  refine ⟨s, written, denotes.decimal_eq shortest, ?_⟩
  rw [written]
  exact readFloat?_of_denotes number denotes

/-- What is printed for a double is read back as that double. -/
theorem readFloat?_printed : readFloat? (Value.float x).text = some x := by
  obtain ⟨-, -, -, back⟩ := exists_write finite plain_tail
  exact back

end finite

/-- A numeral is rewritten as a plain one with the same sign, of the same number. -/
theorem exists_rewritten (s : Scientific) :
    ∃ t : Scientific, s.rewritten = t.text ∧ t.Plain ∧ t.negative = s.negative ∧ t.value = s.value := by
  obtain ⟨t, denotes, isPlain, text⟩ :=
    exists_plain (Decimal.canonical_ofNumber s.negative s.significand s.lastExponent)
  have negative : t.negative = s.negative := denotes.negative_eq.trans (Decimal.negative_ofNumber _ _ _)
  have magnitude : t.magnitude = s.magnitude := denotes.magnitude.trans (Decimal.magnitude_ofNumber _ _ _)
  refine ⟨t, (rewritten_eq_plain _ _ _).trans text.symm, isPlain, negative, ?_⟩
  rw [Scientific.value, Scientific.value, negative, magnitude]

/-- Rewriting a numeral without an exponent keeps its sign and its number, and leaves no zero that could be
left out. A finite double is printed as the rewriting of its exact text. Either text is read back as that
double, so no two of them are printed alike. -/
theorem printed_doubles_read_back :
    (∀ s : Scientific, ∃ t : Scientific,
      s.rewritten = t.text ∧ t.Plain ∧ t.negative = s.negative ∧ t.value = s.value) ∧
    (∀ x : Float, x.isFinite = true → ∃ s : Scientific,
      exact.write x = String.ofList s.text ∧ readFloat? (exact.write x) = some x ∧
        (Value.float x).text = String.ofList s.rewritten ∧ readFloat? (Value.float x).text = some x) ∧
    (∀ x y : Float, x.isFinite = true → y.isFinite = true →
      (Value.float x).text = (Value.float y).text → x.toBits = y.toBits) := by
  refine ⟨exists_rewritten, ?_, ?_⟩
  · intro x finite
    obtain ⟨s, written, decimal, back⟩ := exists_write finite exact_tail
    refine ⟨s, written, back, ?_, readFloat?_printed finite⟩
    rw [Value.text, write_of_isFinite finite, Scientific.rewritten, rewritten_eq_plain, ← decimal]
    rfl
  · intro x y finiteX finiteY same
    have back := readFloat?_printed finiteX
    rw [same, readFloat?_printed finiteY] at back
    rw [Option.some.inj back]

/-- The double nearest to `10 ^ 23` is less than that, and its one digit is followed by zeros. The two zeros
are told apart. -/
theorem printed_doubles_read_back_large :
    (1e23 : Float).isFinite = true ∧ exact.write 1e23 = "1e+23" ∧
      (Value.float 1e23).text = "100000000000000000000000" ∧
      readFloat? "100000000000000000000000" = some 1e23 ∧
      (0 : Float).isFinite = true ∧ (-0 : Float).isFinite = true ∧
      (Value.float 0).text ≠ (Value.float (-0)).text := by
  have finite : (1e23 : Float).isFinite = true := by decide +kernel
  have zero : (0 : Float).isFinite = true := by decide +kernel
  have negativeZero : (-0 : Float).isFinite = true := by decide +kernel
  have text : (Value.float 1e23).text = "100000000000000000000000" := by decide +kernel
  obtain ⟨-, reads, alike⟩ := printed_doubles_read_back
  obtain ⟨-, -, -, -, back⟩ := reads _ finite
  have apart : (0 : Float).toBits ≠ (-0 : Float).toBits := by decide +kernel
  exact ⟨finite, by decide +kernel, text, text ▸ back, zero, negativeZero,
    fun same => apart (alike _ _ zero negativeZero same)⟩

end Layout

end Abacus
