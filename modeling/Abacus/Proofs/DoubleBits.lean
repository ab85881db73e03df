import Mathlib
import Abacus.Number.Decimal

/-!
# The bits of a double

A finite double is a sign, a mantissa and an exponent that fit the format (`Binary64.Fits`). `Decimal.parts`
takes them from the bits, and `Binary64.double` makes the double of them: the two go together
(`eq_double_parts`). A double that was made of fitting parts is also taken apart into them by the model's
own unpacking, so negation and magnitude act on the sign alone.
-/

namespace Abacus

namespace Binary64

open Float.Model (Format UnpackedFloat)
open Float.Model.UnpackedFloat (Sign packComponents unpackExponent unpackMantissa unpackSign)

/-- A mantissa and an exponent that fit the format. A mantissa of fewer bits has the least exponent. -/
structure Fits (m : ℕ) (e : ℤ) : Prop where
  mantissa_lt : m < 2 ^ 53
  least : -1074 ≤ e
  most : e ≤ 971
  normal_or_least : 2 ^ 52 ≤ m ∨ e = -1074

def signOf (negative : Bool) : Sign := if negative then .negative else .positive

/-- The parts of a double, not yet packed. -/
def unpacked (negative : Bool) (m : ℕ) (e : ℤ) : UnpackedFloat :=
  if h : m = 0 then .zero (signOf negative) else .finite (signOf negative) m e (Nat.pos_of_ne_zero h)

/-- The double with a sign, a mantissa and an exponent. -/
def double (negative : Bool) (m : ℕ) (e : ℤ) : Float := .ofModel (.pack (unpacked negative m e))

/-! ## Components -/

section Components

variable (b : BitVec 64)

theorem toNat_unpackMantissa : (@unpackMantissa Format.binary64 b).toNat = b.toNat % 2 ^ 52 := by
  simp [unpackMantissa]

theorem toNat_unpackExponent :
    (@unpackExponent Format.binary64 b).toNat = b.toNat / 2 ^ 52 % 2 ^ 11 := by
  simp [unpackExponent, Nat.shiftRight_eq_div_pow]

theorem toNat_unpackSign : (@unpackSign Format.binary64 b).toNat = b.toNat / 2 ^ 63 := by
  have lt := b.isLt
  simp only [unpackSign, BitVec.toNat_cast, BitVec.extractLsb_toNat, Nat.shiftRight_eq_div_pow]
  exact Nat.mod_eq_of_lt (by omega)

end Components

theorem toNat_packComponents (sign : Sign) (exponent : BitVec 11) (mantissa : BitVec 52) :
    (packComponents Format.binary64 sign exponent mantissa).toNat
      = sign.toBitVec.toNat * 2 ^ 63 + exponent.toNat * 2 ^ 52 + mantissa.toNat := by
  rw [packComponents, BitVec.toNat_append, BitVec.toNat_append,
    ← Nat.shiftLeft_add_eq_or_of_lt mantissa.isLt, ← Nat.shiftLeft_add_eq_or_of_lt exponent.isLt,
    Nat.shiftLeft_eq, Nat.shiftLeft_eq]
  omega

/-- The sign is the top bit. -/
theorem sign_eq (b : BitVec 64) :
    Sign.ofBitVec (@unpackSign Format.binary64 b) = signOf (decide (2 ^ 63 ≤ b.toNat)) := by
  have sign := toNat_unpackSign b
  have lt := b.isLt
  unfold Sign.ofBitVec signOf
  by_cases high : 2 ^ 63 ≤ b.toNat
  · have one : @unpackSign Format.binary64 b ≠ 0#1 := by
      intro zero
      rw [zero, BitVec.toNat_ofNat] at sign
      omega
    rw [if_neg one, if_pos (decide_eq_true high)]
  · have zero : @unpackSign Format.binary64 b = 0#1 := by
      refine BitVec.eq_of_toNat_eq ?_
      rw [sign, BitVec.toNat_ofNat]
      omega
    rw [if_pos zero, if_neg (by simpa using high)]

/-! ## Taking apart -/

/-- A double that is a number. -/
def IsNumber (x : Float) : Prop := x.toBits.toNat / 2 ^ 52 % 2 ^ 11 ≠ 2 ^ 11 - 1

theorem unpack_greatest {b : BitVec 64} (greatest : b.toNat / 2 ^ 52 % 2 ^ 11 = 2 ^ 11 - 1) :
    UnpackedFloat.unpack Format.binary64 b = .notANumber ∨
      ∃ sign, UnpackedFloat.unpack Format.binary64 b = .infinity sign := by
  have exponent : @unpackExponent Format.binary64 b = -1#11 :=
    BitVec.eq_of_toNat_eq ((toNat_unpackExponent b).trans greatest)
  unfold UnpackedFloat.unpack
  dsimp only
  rw [if_pos exponent]
  split
  · exact .inr ⟨_, rfl⟩
  · exact .inl rfl

theorem isNumber_of_isFinite {x : Float} (finite : x.isFinite = true) : IsNumber x := by
  change x.toModel.unpack.isFinite = true at finite
  intro greatest
  rcases unpack_greatest greatest with nan | ⟨sign, inf⟩
  · have unpacked : x.toModel.unpack = .notANumber := nan
    rw [unpacked] at finite
    cases finite
  · have unpacked : x.toModel.unpack = .infinity sign := inf
    rw [unpacked] at finite
    cases finite

theorem isNaN_isInf_of_isFinite {x : Float} (finite : x.isFinite = true) :
    x.isNaN = false ∧ x.isInf = false := by
  change x.toModel.unpack.isFinite = true at finite
  change x.toModel.unpack.isNaN = false ∧ x.toModel.unpack.isInf = false
  generalize x.toModel.unpack = unpacked at finite
  cases unpacked with
  | infinity sign => cases finite
  | notANumber => cases finite
  | zero sign => exact ⟨rfl, rfl⟩
  | finite sign mantissa exponent pos => exact ⟨rfl, rfl⟩

theorem toNat_implicit (mantissa : BitVec 52) : (1#1 ++ mantissa).toNat = 2 ^ 52 + mantissa.toNat := by
  rw [BitVec.toNat_append, ← Nat.shiftLeft_add_eq_or_of_lt mantissa.isLt]
  rfl

/-- The parts of a double by its exponent: the least one has no leading bit. -/
theorem parts_of_least {x : Float} (least : x.toBits.toNat / 2 ^ 52 % 2 ^ 11 = 0) :
    Decimal.parts x = ⟨decide (2 ^ 63 ≤ x.toBits.toNat), x.toBits.toNat % 2 ^ 52, -1074⟩ := by
  have zero : x.toBits.toNat / Nat.pow 2 52 % Nat.pow 2 11 = 0 := least
  rw [Decimal.parts]
  simp only [zero, if_true]
  rfl

theorem parts_of_more {x : Float} (more : x.toBits.toNat / 2 ^ 52 % 2 ^ 11 ≠ 0) :
    Decimal.parts x = ⟨decide (2 ^ 63 ≤ x.toBits.toNat), 2 ^ 52 + x.toBits.toNat % 2 ^ 52,
      (x.toBits.toNat / 2 ^ 52 % 2 ^ 11 : ℕ) - 1075⟩ := by
  have nonzero : x.toBits.toNat / Nat.pow 2 52 % Nat.pow 2 11 ≠ 0 := more
  rw [Decimal.parts]
  simp only [nonzero, if_false]
  rfl

/-- The parts that the printer takes from the bits are those of the number, for zeros, subnormal and
normal numbers. -/
theorem unpack_eq_parts {x : Float} (number : IsNumber x) :
    x.toModel.unpack = unpacked (Decimal.parts x).negative (Decimal.parts x).mantissa
      (Decimal.parts x).exponent := by
  show UnpackedFloat.unpack Format.binary64 x.toBits.toBitVec = _
  generalize bits : x.toBits.toBitVec = b
  have toNat : x.toBits.toNat = b.toNat := congrArg BitVec.toNat bits
  unfold IsNumber at number
  have exponent := toNat_unpackExponent b
  have mantissa := toNat_unpackMantissa b
  have notGreatest : @unpackExponent Format.binary64 b ≠ -1#11 := by
    intro greatest
    rw [greatest, ← toNat] at exponent
    exact number exponent.symm
  unfold UnpackedFloat.unpack unpacked
  simp only [notGreatest, if_false, sign_eq]
  by_cases least : x.toBits.toNat / 2 ^ 52 % 2 ^ 11 = 0
  · have zero : @unpackExponent Format.binary64 b = 0#11 := by
      refine BitVec.eq_of_toNat_eq ?_
      rw [exponent, ← toNat, least]
      rfl
    have none : @unpackMantissa Format.binary64 b = 0#52 ↔ b.toNat % 2 ^ 52 = 0 := by
      rw [← mantissa, ← BitVec.toNat_inj]
      rfl
    rw [parts_of_least least]
    simp only [zero, none, mantissa, if_true, toNat]
    rfl
  · have more : @unpackExponent Format.binary64 b ≠ 0#11 := by
      intro zero
      rw [zero, ← toNat] at exponent
      exact least exponent.symm
    have nonzero : 2 ^ 52 + b.toNat % 2 ^ 52 ≠ 0 := by omega
    rw [parts_of_more least]
    simp only [more, toNat_implicit, mantissa, exponent, if_false, toNat, nonzero, dif_neg, not_false_eq_true]
    rfl

/-- What the bits hold fits the format. -/
theorem fits_parts {x : Float} (number : IsNumber x) :
    Fits (Decimal.parts x).mantissa (Decimal.parts x).exponent := by
  unfold IsNumber at number
  by_cases least : x.toBits.toNat / 2 ^ 52 % 2 ^ 11 = 0
  · rw [parts_of_least least]
    exact ⟨by dsimp only; omega, le_refl _, by norm_num, .inr rfl⟩
  · rw [parts_of_more least]
    exact ⟨by dsimp only; omega, by dsimp only; omega, by dsimp only; omega, .inl (Nat.le_add_right _ _)⟩

/-! ## Putting together -/

/-- The bits of a double, by its parts. -/
theorem pack_unpacked {negative : Bool} {m : ℕ} {e : ℤ} (fits : Fits m e) :
    UnpackedFloat.pack Format.binary64 (unpacked negative m e)
      = packComponents Format.binary64 (signOf negative)
          (BitVec.ofNat 11 (if 2 ^ 52 ≤ m then (e + 1075).toNat else 0)) (BitVec.ofNat 52 m) := by
  obtain ⟨mantissa_lt, least, most, normal_or_least⟩ := fits
  unfold unpacked
  by_cases zero : m = 0
  · subst zero
    rfl
  · have bias : (e + (Format.binary64.exponentBias : ℕ) + (52 : ℕ)).toNat = (e + 1075).toNat := by
      have : (Format.binary64.exponentBias : ℕ) = 1023 := rfl
      rw [this]
      congr 1
      omega
    have small : ¬ 2 ^ 11 ≤ (e + 1075).toNat + 1 := by omega
    have bits : m.log2 < 53 := (Nat.log2_lt zero).2 mantissa_lt
    rw [dif_neg zero, UnpackedFloat.pack]
    dsimp only
    rw [bias, if_neg small]
    by_cases normal : 2 ^ 52 ≤ m
    · have full : m.log2 + 1 = Format.binary64.mantissaBits := by
        have := (Nat.le_log2 zero).2 normal
        show m.log2 + 1 = 53
        omega
      rw [if_pos full, if_pos normal]
    · have fewer : m.log2 + 1 ≠ Format.binary64.mantissaBits := by
        have := (Nat.log2_lt zero).2 (Nat.not_le.1 normal)
        show m.log2 + 1 ≠ 53
        omega
      rw [if_neg fewer, if_neg normal]

theorem eq_of_toBits {x y : Float} (same : x.toBits = y.toBits) : x = y := by
  obtain ⟨⟨b, valid⟩⟩ := x
  obtain ⟨⟨b', valid'⟩⟩ := y
  have bits : b = b' := same
  subst bits
  rfl

section Fitting

variable {negative : Bool} {m : ℕ} {e : ℤ} (fits : Fits m e)

include fits

theorem toNat_toBits_double :
    (double negative m e).toBits.toNat = (if negative then 1 else 0) * 2 ^ 63
      + (if 2 ^ 52 ≤ m then (e + 1075).toNat else 0) * 2 ^ 52 + m % 2 ^ 52 := by
  have small : (if 2 ^ 52 ≤ m then (e + 1075).toNat else 0) < 2 ^ 11 := by
    have := fits.most
    split <;> omega
  have sign : (signOf negative).toBitVec.toNat = if negative then 1 else 0 := by cases negative <;> rfl
  show (UnpackedFloat.pack Format.binary64 (unpacked negative m e)).toNat = _
  rw [pack_unpacked fits, toNat_packComponents, sign, BitVec.toNat_ofNat, BitVec.toNat_ofNat,
    Nat.mod_eq_of_lt small]

/-- The parts of a double are those that it was made of. -/
theorem parts_double : Decimal.parts (double negative m e) = ⟨negative, m, e⟩ := by
  have bits := @toNat_toBits_double negative m e fits
  obtain ⟨mantissa_lt, least, most, normal_or_least⟩ := fits
  have sign : decide (2 ^ 63 ≤ (double negative m e).toBits.toNat) = negative := by
    cases negative with
    | true =>
      refine decide_eq_true ?_
      rw [bits, if_pos rfl]
      omega
    | false =>
      refine decide_eq_false ?_
      rw [bits, if_neg Bool.false_ne_true]
      split <;> omega
  by_cases normal : 2 ^ 52 ≤ m
  · rw [if_pos normal] at bits
    have exponent : (double negative m e).toBits.toNat / 2 ^ 52 % 2 ^ 11 = (e + 1075).toNat := by
      split at bits <;> omega
    have mantissa : (double negative m e).toBits.toNat % 2 ^ 52 = m - 2 ^ 52 := by
      split at bits <;> omega
    have whole : 2 ^ 52 + (m - 2 ^ 52) = m := by omega
    have shifted : ((e + 1075).toNat : ℤ) - 1075 = e := by omega
    rw [parts_of_more (by omega), sign, exponent, mantissa, whole, shifted]
  · rw [if_neg normal] at bits
    have exponent : (double negative m e).toBits.toNat / 2 ^ 52 % 2 ^ 11 = 0 := by
      split at bits <;> omega
    have mantissa : (double negative m e).toBits.toNat % 2 ^ 52 = m := by
      split at bits <;> omega
    rw [parts_of_least exponent, sign, mantissa, normal_or_least.resolve_left normal]

theorem isNumber_double : IsNumber (double negative m e) := by
  have bits := @toNat_toBits_double negative m e fits
  obtain ⟨mantissa_lt, least, most, normal_or_least⟩ := fits
  unfold IsNumber
  split at bits <;> split at bits <;> omega

theorem unpack_double : (double negative m e).toModel.unpack = unpacked negative m e := by
  rw [unpack_eq_parts (isNumber_double fits), parts_double fits]

theorem neg_double : -double negative m e = double (!negative) m e := by
  have flipped : (unpacked negative m e).neg = unpacked (!negative) m e := by
    unfold unpacked
    split <;> cases negative <;> rfl
  show Float.ofModel (.pack ((double negative m e).toModel.unpack.neg)) = _
  rw [unpack_double fits, flipped]
  rfl

theorem abs_double : (double negative m e).abs = double false m e := by
  have dropped : (unpacked negative m e).abs = unpacked false m e := by
    unfold unpacked
    split <;> rfl
  show Float.ofModel (.pack ((double negative m e).toModel.unpack.abs)) = _
  rw [unpack_double fits, dropped]
  rfl

end Fitting

/-- A finite double is made of its parts. -/
theorem eq_double_parts {x : Float} (number : IsNumber x) :
    x = double (Decimal.parts x).negative (Decimal.parts x).mantissa (Decimal.parts x).exponent := by
  have bits := @toNat_toBits_double (Decimal.parts x).negative _ _ (fits_parts number)
  refine eq_of_toBits (UInt64.toNat_inj.1 ?_)
  rw [bits]
  have lt : x.toBits.toNat < 2 ^ 64 := x.toBits.toNat_lt
  by_cases least : x.toBits.toNat / 2 ^ 52 % 2 ^ 11 = 0
  · rw [parts_of_least least]
    simp only [decide_eq_true_eq]
    split <;> split <;> omega
  · rw [parts_of_more least]
    simp only [decide_eq_true_eq]
    split <;> split <;> omega

end Binary64

end Abacus
