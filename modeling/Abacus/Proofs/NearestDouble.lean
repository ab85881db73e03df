import Mathlib
import Abacus.Proofs.DoubleBits
import Abacus.Proofs.Rounding

/-!
# The double nearest to a decimal

`Decimal.nearest` takes one of several ways to a double: small numbers are multiplied or divided as doubles,
others as exact numbers, and exponents far out of range are not computed at all. All of them lead to the
same double, the one that is nearest to the number (`nearest_eq_rounded`). So the double depends on the
number alone and not on how it is written, and a number that is a double is read as that double
(`rounded_of_fits`).
-/

namespace Abacus

namespace Binary64

open Float.Model (Format UnpackedFloat totalExponent)
open Float.Model.UnpackedFloat (divCore roundWithAccuracy)

/-- The double nearest to a number that is not negative. -/
def rounded (q : ℚ) : Float :=
  if q = 0 then double false 0 (-1074) else .ofModel (.pack (roundPositive q))

/-! ## Numbers that are doubles -/

theorem roundEven_natCast (n : ℕ) : roundEven n = n := by
  unfold roundEven
  dsimp only
  rw [Nat.floor_natCast, sub_self, if_pos (by norm_num)]

/-- A number that is a double is rounded to itself. -/
theorem roundPositive_of_fits {m : ℕ} {e : ℤ} (fits : Fits m e) (pos : 0 < m) :
    roundPositive (m * 2 ^ e) = .finite .positive m e pos := by
  obtain ⟨mantissa_lt, least, most, normal_or_least⟩ := fits
  have scaled : (m * 2 ^ e / 2 ^ e : ℚ) = m := mul_div_cancel_right₀ _ (two_zpow_pos e).ne'
  have log : Int.log 2 (m * 2 ^ e : ℚ) = m.log2 + e :=
    log_eq pos (by rw [scaled]) (by rw [scaled]; exact lt_add_one _)
  have bits : m.log2 < 53 := (Nat.log2_lt pos.ne').2 mantissa_lt
  have place : lastPlace (m * 2 ^ e : ℚ) = e := by
    unfold lastPlace
    rw [log]
    rcases normal_or_least with normal | rfl
    · have := (Nat.le_log2 pos.ne').2 normal
      omega
    · omega
  unfold roundPositive settle
  rw [place, scaled, roundEven_natCast, dif_neg pos.ne', if_neg mantissa_lt.ne]

theorem rounded_of_fits {m : ℕ} {e : ℤ} (fits : Fits m e) : rounded (m * 2 ^ e) = double false m e := by
  unfold rounded
  rcases Nat.eq_zero_or_pos m with rfl | pos
  · rw [Nat.cast_zero, zero_mul, if_pos rfl]
    rfl
  · have positive : (0 : ℚ) < m * 2 ^ e := mul_pos (by exact_mod_cast pos) (two_zpow_pos e)
    rw [if_neg positive.ne', roundPositive_of_fits fits pos, double, unpacked, dif_neg pos.ne']
    rfl

/-! ## Small numbers -/

/-- A whole number of at most fifty-three bits is a double. -/
theorem exists_ofNat {n : ℕ} (pos : 0 < n) (small : n < 2 ^ 53) :
    ∃ m e, Fits m e ∧ 2 ^ 52 ≤ m ∧ (m * 2 ^ e : ℚ) = n ∧
      UnpackedFloat.ofNat Format.binary64 n = unpacked false m e := by
  have bits : n.log2 < 53 := (Nat.log2_lt pos.ne').2 small
  generalize shift : 52 - n.log2 = k
  have log : (n <<< k).log2 = 52 := by
    rw [log2_shiftLeft pos]
    omega
  have nonzero : n <<< k ≠ 0 := by
    intro zero
    rw [zero] at log
    cases log
  have normal : 2 ^ 52 ≤ n <<< k := by
    rw [← log]
    exact Nat.log2_self_le nonzero
  have fits : Fits (n <<< k) (-k) :=
    ⟨by rw [← Nat.log2_lt nonzero, log]; decide, by omega, by omega, .inl normal⟩
  refine ⟨n <<< k, -k, fits, normal, ?_, ?_⟩
  · rw [Nat.shiftLeft_eq, Nat.cast_mul, Nat.cast_pow, zpow_neg, zpow_natCast]
    exact mul_inv_cancel_right₀ (pow_ne_zero k two_ne_zero) _
  · have target : Format.binary64.targetExponent (totalExponent n 0) = -k := by
      rw [targetExponent_eq, totalExponent]
      omega
    have enough : -(k : ℤ) ≤ Format.binary64.targetExponent (totalExponent (n <<< k) (-k)) := by
      rw [targetExponent_eq, totalExponent, log]
      omega
    have positive : (n : ℤ) > 0 := by exact_mod_cast pos
    have start : (0 : ℤ) - -(k : ℤ) = k := by omega
    unfold UnpackedFloat.ofNat UnpackedFloat.ofInt UnpackedFloat.normalize
    rw [compare_gt_iff_gt.2 positive]
    dsimp only
    rw [Int.toNat_natCast, UnpackedFloat.round, target, UnpackedFloat.decreaseExponent, start,
      Int.toNat_natCast]
    dsimp only
    rw [zero_sub, roundWithAccuracy_exact (Nat.pos_of_ne_zero nonzero) enough,
      roundPositive_of_fits fits (Nat.pos_of_ne_zero nonzero), unpacked, dif_neg nonzero]
    rfl

/-- The powers of ten that are doubles. -/
theorem exists_powerOfTen {k : ℕ} (known : k < Float.exactlyRepresentablePowersOfTen.size) :
    ∃ (m : ℕ) (e : ℤ), 2 ^ 52 ≤ m ∧ (m * 2 ^ e : ℚ) = 10 ^ k ∧
      Float.exactlyRepresentablePowersOfTen[k].toModel.unpack = unpacked false m e := by
  have less : k < 23 := known
  have table : IsNumber Float.exactlyRepresentablePowersOfTen[k] ∧
      let p := Decimal.parts Float.exactlyRepresentablePowersOfTen[k]
      p.negative = false ∧ 2 ^ 52 ≤ p.mantissa ∧ p.mantissa * 2 ^ (p.exponent + 52).toNat = 10 ^ k * 2 ^ 52 ∧
        -52 ≤ p.exponent := by
    unfold IsNumber
    interval_cases k
    all_goals decide +kernel +revert
  obtain ⟨number, positive, normal, value, least⟩ := table
  have unpacks := unpack_eq_parts number
  generalize Decimal.parts Float.exactlyRepresentablePowersOfTen[k] = p at positive normal value least unpacks
  refine ⟨p.mantissa, p.exponent, normal, ?_, positive ▸ unpacks⟩
  have exact : (p.mantissa * 2 ^ (p.exponent + 52) : ℚ) = 10 ^ k * 2 ^ (52 : ℤ) := by
    have whole : p.exponent + 52 = ((p.exponent + 52).toNat : ℤ) := by omega
    rw [whole, zpow_natCast]
    exact_mod_cast value
  rw [zpow_add₀ two_ne_zero, ← mul_assoc] at exact
  exact mul_right_cancel₀ (two_zpow_pos 52).ne' exact

section Arithmetic

variable {x y : Float} {m₁ m₂ : ℕ} {e₁ e₂ : ℤ} (left : x.toModel.unpack = unpacked false m₁ e₁)
  (right : y.toModel.unpack = unpacked false m₂ e₂)

include left right

theorem mul_eq (normal₁ : 2 ^ 52 ≤ m₁) (normal₂ : 2 ^ 52 ≤ m₂) :
    x * y = .ofModel (.pack (roundPositive (m₁ * 2 ^ e₁ * (m₂ * 2 ^ e₂)))) := by
  have nonzero₁ : m₁ ≠ 0 := by omega
  have nonzero₂ : m₂ ≠ 0 := by omega
  have many : 2 ^ 53 ≤ m₁ * m₂ := le_trans (by decide) (Nat.mul_le_mul normal₁ normal₂)
  show Float.ofModel (.pack (UnpackedFloat.mul Format.binary64 x.toModel.unpack y.toModel.unpack)) = _
  rw [left, right, unpacked, unpacked, dif_neg nonzero₁, dif_neg nonzero₂, UnpackedFloat.mul,
    ← roundWithAccuracy_mul many]
  rfl

theorem div_eq (pos₁ : 0 < m₁) (pos₂ : 0 < m₂) :
    x / y = .ofModel (.pack (roundPositive (m₁ * 2 ^ e₁ / (m₂ * 2 ^ e₂)))) := by
  show Float.ofModel (.pack (UnpackedFloat.div Format.binary64 x.toModel.unpack y.toModel.unpack)) = _
  rw [left, right, unpacked, unpacked, dif_neg pos₁.ne', dif_neg pos₂.ne', UnpackedFloat.div,
    ← roundWithAccuracy_div pos₁ pos₂]
  rfl

end Arithmetic

theorem toFloat_eq {n : ℕ} (small : n < 2 ^ 53) :
    n.toUInt64.toFloat = .ofModel (.pack (UnpackedFloat.ofNat Format.binary64 n)) := by
  have whole : n.toUInt64.toNat = n := UInt64.toNat_ofNat_of_lt (by rw [UInt64.size]; omega)
  show Float.ofModel (.pack (UnpackedFloat.ofNat Format.binary64 n.toUInt64.toNat)) = _
  rw [whole]

/-- A small number times or over a small power of ten. -/
theorem rounded_of_small {n k : ℕ} (small : n < 2 ^ 53)
    (known : k < Float.exactlyRepresentablePowersOfTen.size) :
    n.toUInt64.toFloat * Float.exactlyRepresentablePowersOfTen[k] = rounded (n * 10 ^ k) ∧
    n.toUInt64.toFloat / Float.exactlyRepresentablePowersOfTen[k] = rounded (n / 10 ^ k) := by
  obtain ⟨m₂, e₂, normal₂, value₂, right⟩ := exists_powerOfTen known
  have nonzero₂ : m₂ ≠ 0 := by omega
  rw [toFloat_eq small]
  unfold rounded
  rcases Nat.eq_zero_or_pos n with rfl | pos
  · have left : (Float.ofModel (.pack (UnpackedFloat.ofNat Format.binary64 0))).toModel.unpack
        = .zero .positive := rfl
    rw [Nat.cast_zero, zero_mul, zero_div, if_pos rfl]
    constructor
    · show Float.ofModel (.pack (UnpackedFloat.mul Format.binary64 _ _)) = _
      rw [left, right, unpacked, dif_neg nonzero₂]
      rfl
    · show Float.ofModel (.pack (UnpackedFloat.div Format.binary64 _ _)) = _
      rw [left, right, unpacked, dif_neg nonzero₂]
      rfl
  · obtain ⟨m₁, e₁, fits₁, normal₁, value₁, whole⟩ := exists_ofNat pos small
    have left := @unpack_double false m₁ e₁ fits₁
    have positive : (0 : ℚ) < n := by exact_mod_cast pos
    have power : (0 : ℚ) < 10 ^ k := pow_pos (by norm_num) k
    rw [if_neg (mul_pos positive power).ne', if_neg (div_pos positive power).ne', ← value₁, ← value₂, whole]
    exact ⟨mul_eq left right normal₁ normal₂,
      div_eq left right (Nat.pos_of_ne_zero (by omega)) (Nat.pos_of_ne_zero nonzero₂)⟩

/-! ## All numbers -/

theorem roundEven_pos {r : ℚ} (h : 1 ≤ r) : 0 < roundEven r := by
  have floor : 1 ≤ ⌊r⌋₊ := Nat.le_floor (by exact_mod_cast h)
  unfold roundEven
  dsimp only
  split_ifs <;> omega

theorem pack_of_large {m : ℕ} {e : ℤ} (pos : 0 < m) (large : 972 ≤ e) :
    Float.Model.pack (.finite .positive m e pos) = .pack (.infinity .positive) := by
  have bias : (Format.binary64.exponentBias : ℕ) = 1023 := rfl
  have above : 2 ^ 11 ≤ (e + (Format.binary64.exponentBias : ℕ) + (52 : ℕ)).toNat + 1 := by
    rw [bias]
    omega
  have packs : UnpackedFloat.pack Format.binary64 (.finite .positive m e pos)
      = UnpackedFloat.pack Format.binary64 (.infinity .positive) := by
    rw [UnpackedFloat.pack, UnpackedFloat.pack]
    exact if_pos above
  unfold Float.Model.pack
  simp only [packs]

/-- Numbers that are too large all become infinity. -/
theorem pack_roundPositive_large {q : ℚ} {k : ℕ} (large : 2 ^ k ≤ q) (many : 1024 ≤ k) :
    Float.Model.pack (roundPositive q) = .pack (.infinity .positive) := by
  have positive : 0 < q := lt_of_lt_of_le (pow_pos two_pos k) large
  have log : (k : ℤ) ≤ Int.log 2 q :=
    (Int.zpow_le_iff_le_log one_lt_two positive).1 (by exact_mod_cast large)
  have place : lastPlace q = Int.log 2 q - 52 := by
    unfold lastPlace
    omega
  have nonzero : roundEven (q / 2 ^ lastPlace q) ≠ 0 := by
    refine (roundEven_pos ?_).ne'
    rw [le_div_iff₀ (two_zpow_pos _), one_mul, place]
    calc (2 : ℚ) ^ (Int.log 2 q - 52) ≤ 2 ^ Int.log 2 q := zpow_le_zpow_right₀ one_le_two (by omega)
      _ ≤ q := by exact_mod_cast Int.zpow_log_le_self one_lt_two positive
  unfold roundPositive settle
  rw [dif_neg nonzero]
  split
  · exact pack_of_large _ (by omega)
  · exact pack_of_large _ (by omega)

/-- Numbers under half of the last place of all become zero. -/
theorem roundPositive_small {q : ℚ} (pos : 0 < q) (small : q < 2 ^ (-1075 : ℤ)) :
    roundPositive q = .zero .positive := by
  have log : Int.log 2 q < -1075 := (Int.lt_zpow_iff_log_lt one_lt_two pos).1 (by exact_mod_cast small)
  have place : lastPlace q = -1074 := by
    unfold lastPlace
    omega
  have half : q / 2 ^ (-1074 : ℤ) < 1 / 2 := by
    rw [div_lt_iff₀ (two_zpow_pos _)]
    refine small.trans_eq ?_
    rw [show (-1074 : ℤ) = -1075 + 1 by norm_num, zpow_add_one₀ two_ne_zero]
    ring
  have floor : ⌊q / 2 ^ (-1074 : ℤ)⌋₊ = 0 := Nat.floor_eq_zero.2 (half.trans (by norm_num))
  have zero : roundEven (q / 2 ^ (-1074 : ℤ)) = 0 := by
    unfold roundEven
    rw [floor]
    dsimp only
    rw [Nat.cast_zero, sub_zero, if_pos half]
  unfold roundPositive settle
  rw [place, zero, dif_pos rfl]

theorem ten_zpow_pos (e : ℤ) : (0 : ℚ) < 10 ^ e := zpow_pos (by norm_num) e

/-- An exponent that is too small for the digits. -/
theorem lt_of_exponent {n : ℕ} {e : ℤ} (small : e < -(2048 + n.log2)) :
    (n * 10 ^ e : ℚ) < 2 ^ (-1075 : ℤ) := by
  have most : (n : ℚ) < 2 ^ ((n.log2 : ℤ) + 1) := by exact_mod_cast Nat.lt_log2_self (n := n)
  have down : e = -((-e).toNat : ℤ) := by omega
  have power : (10 : ℚ) ^ e ≤ 2 ^ e := by
    rw [down, zpow_neg, zpow_neg, zpow_natCast, zpow_natCast]
    exact inv_anti₀ (pow_pos two_pos _) (pow_le_pow_left₀ two_pos.le (by norm_num) _)
  calc (n * 10 ^ e : ℚ) < 2 ^ ((n.log2 : ℤ) + 1) * 2 ^ e :=
        mul_lt_mul most power (ten_zpow_pos e) (two_zpow_pos _).le
    _ = 2 ^ ((n.log2 : ℤ) + 1 + e) := (zpow_add₀ two_ne_zero _ _).symm
    _ ≤ 2 ^ (-1075 : ℤ) := zpow_le_zpow_right₀ one_le_two (by omega)

/-- An exact number is rounded, unless its exponent shows that it is too large or too small. -/
theorem pack_ofScientific {n : ℕ} (pos : 0 < n) (e : ℤ) :
    Float.Model.pack (UnpackedFloat.ofScientific Format.binary64 n e)
      = .pack (roundPositive (n * 10 ^ e)) := by
  have positive : (0 : ℚ) < n := by exact_mod_cast pos
  have one : (1 : ℚ) ≤ n := by exact_mod_cast pos
  have bound : (2 : ℤ) ^ Format.binary64.exponentBits = 2048 := rfl
  unfold UnpackedFloat.ofScientific
  rw [dif_neg pos.ne', bound]
  split
  · next large =>
    have up : (e.toNat : ℤ) = e := by omega
    refine (pack_roundPositive_large (k := e.toNat) ?_ (by omega)).symm
    calc (2 : ℚ) ^ e.toNat ≤ 10 ^ e.toNat := pow_le_pow_left₀ two_pos.le (by norm_num) _
      _ = 10 ^ e := by rw [← zpow_natCast, up]
      _ ≤ n * 10 ^ e := le_mul_of_one_le_left (ten_zpow_pos e).le one
  · split
    · next small =>
      rw [roundPositive_small (mul_pos positive (ten_zpow_pos e)) (lt_of_exponent small)]
    · split
      · next up =>
        have whole : (10 : ℚ) ^ e = (10 ^ e.toNat : ℕ) * 2 ^ (0 : ℤ) := by
          rw [zpow_zero, mul_one, Nat.cast_pow, ← zpow_natCast, Int.toNat_of_nonneg up]
          rfl
        have shifted : (n : ℚ) = (n <<< 53 : ℕ) * 2 ^ (-53 : ℤ) := by
          rw [Nat.shiftLeft_eq, Nat.cast_mul, Nat.cast_pow, zpow_neg]
          exact (mul_inv_cancel_right₀ (pow_ne_zero 53 two_ne_zero) _).symm
        have many : 2 ^ 53 ≤ n <<< 53 * 10 ^ e.toNat := by
          rw [Nat.shiftLeft_eq, mul_right_comm]
          exact Nat.le_mul_of_pos_left _ (Nat.mul_pos pos (Nat.pow_pos (by decide)))
        rw [whole, shifted, ← roundWithAccuracy_mul many]
        rfl
      · next down =>
        have power : 0 < 10 ^ (-e).toNat := Nat.pow_pos (by decide)
        have quotient : (n * 10 ^ e : ℚ) = n * 2 ^ (0 : ℤ) / ((10 ^ (-e).toNat : ℕ) * 2 ^ (0 : ℤ)) := by
          have exponent : e = -((-e).toNat : ℤ) := by omega
          nth_rewrite 1 [exponent]
          rw [zpow_zero, mul_one, mul_one, Nat.cast_pow, zpow_neg, zpow_natCast]
          rfl
        rw [quotient, ← roundWithAccuracy_div pos power]
        rfl

theorem ofModel_ofScientific (n : ℕ) (e : ℤ) :
    Float.ofModel (Float.Model.ofScientific n e) = rounded (n * 10 ^ e) := by
  unfold rounded Float.Model.ofScientific
  rcases Nat.eq_zero_or_pos n with rfl | pos
  · rw [Nat.cast_zero, zero_mul, if_pos rfl, UnpackedFloat.ofScientific, dif_pos rfl]
    rfl
  · have positive : (0 : ℚ) < n * 10 ^ e := mul_pos (by exact_mod_cast pos) (ten_zpow_pos e)
    rw [if_neg positive.ne', pack_ofScientific pos]

theorem ofScientific_eq (n : ℕ) (k : ℕ) :
    Float.ofScientific n false k = rounded (n * 10 ^ (k : ℤ)) ∧
    Float.ofScientific n true k = rounded (n * 10 ^ (-k : ℤ)) := by
  unfold Float.ofScientific
  by_cases fast : n < 2 ^ 53 ∧ k ≤ 22
  · have known : k < Float.exactlyRepresentablePowersOfTen.size := Nat.lt_succ_of_le fast.2
    have small := rounded_of_small fast.1 known
    rw [dif_pos fast, dif_pos fast, zpow_neg, zpow_natCast, ← div_eq_mul_inv]
    exact small
  · rw [dif_neg fast, dif_neg fast]
    have down := ofModel_ofScientific n (Int.negOfNat k)
    rw [Int.negOfNat_eq] at down
    exact ⟨ofModel_ofScientific n k, down⟩

end Binary64

/-- The double nearest to a decimal depends on the number alone. -/
theorem Decimal.nearest_eq_rounded (n : ℕ) (e : ℤ) : nearest n e = Binary64.rounded (n * 10 ^ e) := by
  cases e with
  | ofNat up => exact (Binary64.ofScientific_eq n up).1
  | negSucc down => exact (Binary64.ofScientific_eq n (down + 1)).2

end Abacus
