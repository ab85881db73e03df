import Mathlib

/-!
# Rounding to a double

A product or a quotient of doubles is computed as a mantissa with an exponent and the knowledge of what was
cut off, and is then rounded. `Located r em` says what a mantissa and its two residual bits know of the exact
value `r`. Shifting keeps it, and so the rounded mantissa depends on the exact value alone: it is the nearest
natural number, the even one of two (`roundEven`). The exponent depends on the exact value alone, too
(`lastPlace`). So there is one function from positive rational numbers to doubles, `roundPositive`, and
rounding computes it (`roundWithAccuracy_eq`), whatever the mantissa and the exponent were.
-/

namespace Abacus

namespace Binary64

open Float.Model (Format UnpackedFloat totalExponent)
open Float.Model.UnpackedFloat (Accuracy ExtendedMantissa Sign accuracyOfFraction divCore roundWithAccuracy
  shiftToExponent shiftToTargetExponent)

/-! ## The nearest natural number -/

/-- The natural number nearest to `r`. Of two that are equally near it is the even one. -/
def roundEven (r : ℚ) : ℕ :=
  let below := ⌊r⌋₊
  if r - below < 1 / 2 then below
  else if r - below = 1 / 2 then below + below % 2
  else below + 1

/-- What a mantissa and its residual bits know of the exact value. -/
inductive Located (r : ℚ) : ExtendedMantissa → Prop
  | exact {m : ℕ} (eq : r = m) : Located r ⟨m, false, false⟩
  | below {m : ℕ} (lower : m < r) (upper : r < m + 1 / 2) : Located r ⟨m, false, true⟩
  | half {m : ℕ} (eq : r = m + 1 / 2) : Located r ⟨m, true, false⟩
  | above {m : ℕ} (lower : m + 1 / 2 < r) (upper : r < m + 1) : Located r ⟨m, true, true⟩

namespace Located

variable {r : ℚ} {em : ExtendedMantissa}

theorem bounds (h : Located r em) : em.mantissa ≤ r ∧ r < em.mantissa + 1 := by
  cases h with
  | exact eq => constructor <;> linarith
  | below lower upper => constructor <;> linarith
  | half eq => constructor <;> linarith
  | above lower upper => constructor <;> linarith

theorem floor (h : Located r em) : ⌊r⌋₊ = em.mantissa := by
  have nonneg : 0 ≤ r := le_trans (Nat.cast_nonneg _) h.bounds.1
  exact (Nat.floor_eq_iff nonneg).2 h.bounds

/-- The two bits that are kept beside the mantissa decide as the rest of the number would. -/
theorem roundedMantissa (h : Located r em) : em.roundedMantissa = roundEven r := by
  have floor := h.floor
  unfold roundEven
  rw [floor]
  dsimp only
  cases h with
  | exact eq =>
    rw [if_pos (by linarith)]
    rfl
  | below lower upper =>
    rw [if_pos (by linarith)]
    rfl
  | half eq =>
    rw [if_neg (by linarith), if_pos (by linarith)]
    rfl
  | above lower upper =>
    rw [if_neg (by linarith), if_neg (by linarith)]
    rfl

/-- One more bit is cut off: it becomes the first residual bit, and the others are taken together. -/
theorem shiftRightOne (h : Located r em) : Located (r / 2) em.shiftRightOne := by
  have split (m : ℕ) : (m : ℚ) = 2 * (m / 2 : ℕ) + (m % 2 : ℕ) := by
    exact_mod_cast (Nat.div_add_mod m 2).symm
  unfold ExtendedMantissa.shiftRightOne
  generalize mantissa : em.mantissa = m
  have halves := split m
  rcases Nat.mod_two_eq_zero_or_one m with even | odd
  · rw [even, Nat.cast_zero, add_zero] at halves
    rw [even]
    cases h with
    | exact eq => cases mantissa; exact .exact (by linarith)
    | below lower upper => cases mantissa; exact .below (by linarith) (by linarith)
    | half eq => cases mantissa; exact .below (by linarith) (by linarith)
    | above lower upper => cases mantissa; exact .below (by linarith) (by linarith)
  · rw [odd, Nat.cast_one] at halves
    rw [odd]
    cases h with
    | exact eq => cases mantissa; exact .half (by linarith)
    | below lower upper => cases mantissa; exact .above (by linarith) (by linarith)
    | half eq => cases mantissa; exact .above (by linarith) (by linarith)
    | above lower upper => cases mantissa; exact .above (by linarith) (by linarith)

theorem shiftRight (h : Located r em) (n : ℕ) : Located (r / 2 ^ n) (em >>> n) := by
  show Located (r / 2 ^ n) (n.repeat ExtendedMantissa.shiftRightOne em)
  induction n with
  | zero => simpa [Nat.repeat] using h
  | succ n ih =>
    rw [Nat.repeat, pow_succ, ← div_div]
    exact ih.shiftRightOne

theorem ofNat (m : ℕ) : Located m (.ofMantissaAndAccuracy m .exact) := .exact rfl

/-- The rest of a division says where the quotient lies. -/
theorem ofFraction {m d : ℕ} (pos : 0 < d) :
    Located (m / d : ℚ) (.ofMantissaAndAccuracy (m / d) (accuracyOfFraction (m % d) d)) := by
  have positive : (0 : ℚ) < d := by exact_mod_cast pos
  have split : (m : ℚ) = d * (m / d : ℕ) + (m % d : ℕ) := by exact_mod_cast (Nat.div_add_mod m d).symm
  have value : (m / d : ℚ) = (m / d : ℕ) + (m % d : ℕ) / d := by
    rw [div_eq_iff positive.ne', add_mul, div_mul_cancel₀ _ positive.ne', split, mul_comm]
  have small : ((m % d : ℕ) : ℚ) < d := by exact_mod_cast Nat.mod_lt m pos
  rw [value]
  unfold accuracyOfFraction
  split
  · next zero => exact .exact (by rw [zero]; simp)
  · next nonzero =>
    have more : (0 : ℚ) < (m % d : ℕ) := by exact_mod_cast Nat.pos_of_ne_zero nonzero
    have part : (0 : ℚ) < (m % d : ℕ) / d := div_pos more positive
    have whole : ((m % d : ℕ) : ℚ) / d < 1 := (div_lt_one positive).2 small
    rcases lt_trichotomy (2 * (m % d)) d with less | same | greater
    · rw [Nat.compare_eq_lt.2 less]
      have less' : (2 : ℚ) * (m % d : ℕ) < d := by exact_mod_cast less
      refine .below (by linarith) ?_
      have := (div_lt_div_iff₀ positive two_pos).2 (by linarith : ((m % d : ℕ) : ℚ) * 2 < 1 * d)
      linarith
    · rw [Nat.compare_eq_eq.2 same]
      have same' : (2 : ℚ) * (m % d : ℕ) = d := by exact_mod_cast same
      refine .half ?_
      rw [← same']
      have := more.ne'
      field_simp
    · rw [Nat.compare_eq_gt.2 greater]
      have greater' : (d : ℚ) < 2 * (m % d : ℕ) := by exact_mod_cast greater
      refine .above ?_ (by linarith)
      have := (div_lt_div_iff₀ two_pos positive).2 (by linarith : (1 : ℚ) * d < (m % d : ℕ) * 2)
      linarith

end Located

/-! ## The last place -/

/-- The exponent of the last binary place of the doubles near `q`. -/
def lastPlace (q : ℚ) : ℤ := max (Int.log 2 q - 52) (-1074)

theorem targetExponent_eq (n : ℤ) : Format.binary64.targetExponent n = max (n - 53) (-1074) := rfl

@[simp] theorem mantissa_ofMantissaAndAccuracy (m : ℕ) (accuracy : Accuracy) :
    (ExtendedMantissa.ofMantissaAndAccuracy m accuracy).mantissa = m := by
  unfold ExtendedMantissa.ofMantissaAndAccuracy
  split <;> rfl

theorem two_zpow_pos (e : ℤ) : (0 : ℚ) < 2 ^ e := zpow_pos two_pos e

/-- The first binary place of a number is that of its whole part. -/
theorem log_eq {q : ℚ} {m : ℕ} {e : ℤ} (pos : 0 < m) (lower : (m : ℚ) ≤ q / 2 ^ e)
    (upper : q / 2 ^ e < m + 1) : Int.log 2 q = m.log2 + e := by
  have least : (2 : ℚ) ^ m.log2 ≤ m := by exact_mod_cast Nat.log2_self_le pos.ne'
  have most : (m : ℚ) + 1 ≤ 2 ^ (m.log2 + 1) := by exact_mod_cast Nat.lt_log2_self (n := m)
  have first : (2 : ℚ) ^ ((m.log2 : ℤ) + e) ≤ q := by
    rw [zpow_add₀ two_ne_zero, zpow_natCast]
    exact (le_div_iff₀ (two_zpow_pos e)).1 (least.trans lower)
  have last : q < (2 : ℚ) ^ ((m.log2 : ℤ) + e + 1) := by
    rw [add_right_comm, zpow_add₀ two_ne_zero]
    exact (div_lt_iff₀ (two_zpow_pos e)).1 (upper.trans_le (by exact_mod_cast most))
  have positive : 0 < q := (two_zpow_pos _).trans_le first
  have low : (m.log2 : ℤ) + e ≤ Int.log 2 q :=
    (Int.zpow_le_iff_le_log one_lt_two positive).1 (by exact_mod_cast first)
  have high : Int.log 2 q < (m.log2 : ℤ) + e + 1 :=
    (Int.lt_zpow_iff_log_lt one_lt_two positive).1 (by exact_mod_cast last)
  omega

/-- The exponent that is aimed at is the last place, if the mantissa has bits enough. -/
theorem targetExponent_eq_lastPlace {q : ℚ} {m : ℕ} {e : ℤ} (pos : 0 < q) (lower : (m : ℚ) ≤ q / 2 ^ e)
    (upper : q / 2 ^ e < m + 1) (enough : e ≤ Format.binary64.targetExponent (totalExponent m e)) :
    Format.binary64.targetExponent (totalExponent m e) = lastPlace q := by
  rw [targetExponent_eq] at enough ⊢
  unfold lastPlace totalExponent at *
  rcases Nat.eq_zero_or_pos m with rfl | some
  · -- less than one last place: the exponent is the least one
    have tiny : q < (2 : ℚ) ^ e := by
      rw [Nat.cast_zero, zero_add] at upper
      exact (div_lt_one (two_zpow_pos e)).1 upper
    have log : Int.log 2 q < e := (Int.lt_zpow_iff_log_lt one_lt_two pos).1 (by exact_mod_cast tiny)
    have zero : Nat.log2 0 = 0 := rfl
    omega
  · rw [log_eq some lower upper]
    omega

/-! ## Rounding -/

/-- A mantissa of at most `2 ^ 53` with its exponent. -/
def settle (m : ℕ) (e : ℤ) : UnpackedFloat :=
  if h : m = 0 then .zero .positive
  else if m = 2 ^ 53 then .finite .positive (2 ^ 52) (e + 1) (by decide)
  else .finite .positive m e (Nat.pos_of_ne_zero h)

/-- The double nearest to a positive number. -/
def roundPositive (q : ℚ) : UnpackedFloat := settle (roundEven (q / 2 ^ lastPlace q)) (lastPlace q)

theorem shiftToTargetExponent_small {m : ℕ} {e : ℤ} (small : m < 2 ^ 53) (least : -1074 ≤ e) :
    shiftToTargetExponent Format.binary64 m e .exact = (⟨m, false, false⟩, e) := by
  have bits : m.log2 < 53 := by
    rcases Nat.eq_zero_or_pos m with rfl | pos
    · decide
    · exact (Nat.log2_lt pos.ne').2 small
  have stays : (Format.binary64.targetExponent (totalExponent m e) - e).toNat = 0 := by
    rw [targetExponent_eq, totalExponent]
    omega
  simp [shiftToTargetExponent, shiftToExponent, stays, ExtendedMantissa.ofMantissaAndAccuracy,
    HShiftRight.hShiftRight, Nat.repeat]

theorem shiftToTargetExponent_carry {e : ℤ} (least : -1074 ≤ e) :
    shiftToTargetExponent Format.binary64 (2 ^ 53) e .exact = (⟨2 ^ 52, false, false⟩, e + 1) := by
  have moves : (Format.binary64.targetExponent (totalExponent (2 ^ 53) e) - e).toNat = 1 := by
    rw [targetExponent_eq, totalExponent, Nat.log2_two_pow]
    omega
  rw [shiftToTargetExponent, shiftToExponent, moves]
  rfl

theorem roundEven_le {r : ℚ} {n : ℕ} (nonneg : 0 ≤ r) (less : r < n) : roundEven r ≤ n := by
  have floor : ⌊r⌋₊ < n := (Nat.floor_lt nonneg).2 less
  unfold roundEven
  dsimp only
  split_ifs <;> omega

theorem div_lastPlace_lt (q : ℚ) : q / 2 ^ lastPlace q < (2 ^ 53 : ℕ) := by
  rw [div_lt_iff₀ (two_zpow_pos _)]
  calc q < (2 : ℚ) ^ (Int.log 2 q + 1) := by exact_mod_cast Int.lt_zpow_succ_log_self one_lt_two q
    _ ≤ 2 ^ (53 + lastPlace q) := zpow_le_zpow_right₀ one_le_two (by unfold lastPlace; omega)
    _ = (2 ^ 53 : ℕ) * 2 ^ lastPlace q := by rw [zpow_add₀ two_ne_zero]; norm_num

/-- Rounding takes the exact value to the double nearest to it. The mantissa must have as many bits as a
double has, or go down to the last place of all doubles. -/
theorem roundWithAccuracy_eq {q : ℚ} {m : ℕ} {e : ℤ} {accuracy : Accuracy} (pos : 0 < q)
    (located : Located (q / 2 ^ e) (.ofMantissaAndAccuracy m accuracy))
    (enough : e ≤ Format.binary64.targetExponent (totalExponent m e)) :
    roundWithAccuracy Format.binary64 .positive m e accuracy = roundPositive q := by
  have bounds := located.bounds
  rw [mantissa_ofMantissaAndAccuracy] at bounds
  have target := targetExponent_eq_lastPlace pos bounds.1 bounds.2 enough
  rw [target] at enough
  have shift : e + ((lastPlace q - e).toNat : ℤ) = lastPlace q := by omega
  -- the first shift goes to the last place, and the mantissa is rounded there
  have first : shiftToTargetExponent Format.binary64 m e accuracy
      = (ExtendedMantissa.ofMantissaAndAccuracy m accuracy >>> (lastPlace q - e).toNat, lastPlace q) := by
    rw [shiftToTargetExponent, target, shiftToExponent, shift]
  have rounded :
      (ExtendedMantissa.ofMantissaAndAccuracy m accuracy >>> (lastPlace q - e).toNat).roundedMantissa
        = roundEven (q / 2 ^ lastPlace q) := by
    rw [(located.shiftRight _).roundedMantissa, div_div, ← zpow_natCast, ← zpow_add₀ two_ne_zero, shift]
  have most : roundEven (q / 2 ^ lastPlace q) ≤ 2 ^ 53 :=
    roundEven_le (div_nonneg pos.le (two_zpow_pos _).le) (div_lastPlace_lt q)
  have least : -1074 ≤ lastPlace q := le_max_right _ _
  unfold roundWithAccuracy roundPositive settle
  rw [first]
  dsimp only
  rw [rounded]
  -- the second one takes care of a carry
  rcases most.lt_or_eq with small | carry
  · rw [shiftToTargetExponent_small small least]
    simp only [small.ne, if_false]
  · rw [carry, shiftToTargetExponent_carry least]
    rfl

/-! ## Products and quotients -/

theorem roundWithAccuracy_exact {m : ℕ} {e : ℤ} (pos : 0 < m)
    (enough : e ≤ Format.binary64.targetExponent (totalExponent m e)) :
    roundWithAccuracy Format.binary64 .positive m e .exact = roundPositive (m * 2 ^ e) := by
  refine roundWithAccuracy_eq (mul_pos (by exact_mod_cast pos) (two_zpow_pos e)) ?_ enough
  rw [mul_div_cancel_right₀ _ (two_zpow_pos e).ne']
  exact .ofNat m

theorem roundWithAccuracy_mul {m₁ m₂ : ℕ} {e₁ e₂ : ℤ} (many : 2 ^ 53 ≤ m₁ * m₂) :
    roundWithAccuracy Format.binary64 .positive (m₁ * m₂) (e₁ + e₂) .exact
      = roundPositive ((m₁ * 2 ^ e₁) * (m₂ * 2 ^ e₂)) := by
  have product : (m₁ * 2 ^ e₁ * (m₂ * 2 ^ e₂) : ℚ) = (m₁ * m₂ : ℕ) * 2 ^ (e₁ + e₂) := by
    rw [zpow_add₀ two_ne_zero, Nat.cast_mul]
    ring
  have positive : 0 < m₁ * m₂ := lt_of_lt_of_le (by decide) many
  have bits : 53 ≤ (m₁ * m₂).log2 := (Nat.le_log2 positive.ne').2 many
  rw [product, roundWithAccuracy_exact positive]
  rw [targetExponent_eq, totalExponent]
  omega

theorem log2_lt_of_div {m d : ℕ} (pos : 0 < d) : m.log2 < (m / d).log2 + d.log2 + 2 := by
  rcases Nat.eq_zero_or_pos m with rfl | some
  · exact Nat.lt_of_lt_of_le (by decide) (Nat.le_add_left 2 _)
  · rw [Nat.log2_lt some.ne']
    have quotient : m / d + 1 ≤ 2 ^ ((m / d).log2 + 1) := Nat.lt_log2_self
    have divisor : d < 2 ^ (d.log2 + 1) := Nat.lt_log2_self
    calc m < (m / d + 1) * d := (Nat.div_lt_iff_lt_mul pos).1 (Nat.lt_succ_self _)
      _ ≤ 2 ^ ((m / d).log2 + 1) * 2 ^ (d.log2 + 1) := Nat.mul_le_mul quotient divisor.le
      _ = 2 ^ ((m / d).log2 + d.log2 + 2) := by ring

theorem log2_shiftLeft {m : ℕ} (pos : 0 < m) (k : ℕ) : (m <<< k).log2 = m.log2 + k := by
  rw [Nat.shiftLeft_eq, Nat.log2_eq_iff (Nat.mul_pos pos (Nat.two_pow_pos k)).ne']
  have least : 2 ^ m.log2 ≤ m := Nat.log2_self_le pos.ne'
  have most : m < 2 ^ (m.log2 + 1) := Nat.lt_log2_self
  rw [add_right_comm, pow_add, pow_add _ _ k]
  exact ⟨Nat.mul_le_mul_right _ least, Nat.mul_lt_mul_of_pos_right most (Nat.two_pow_pos k)⟩

/-- A quotient has bits enough, since the dividend is shifted first. -/
theorem roundWithAccuracy_div {m₁ m₂ : ℕ} {e₁ e₂ : ℤ} (pos₁ : 0 < m₁) (pos₂ : 0 < m₂) :
    let core := divCore Format.binary64 m₁ e₁ m₂ e₂
    roundWithAccuracy Format.binary64 .positive core.1 core.2.1 core.2.2
      = roundPositive ((m₁ * 2 ^ e₁) / (m₂ * 2 ^ e₂)) := by
  intro core
  have first : (0 : ℚ) < m₁ := by exact_mod_cast pos₁
  have second : (0 : ℚ) < m₂ := by exact_mod_cast pos₂
  unfold core divCore
  dsimp only
  generalize target : min (e₁ - e₂) (Format.binary64.targetExponent
    (totalExponent m₁ e₁ - totalExponent m₂ e₂)) = t
  rw [targetExponent_eq, totalExponent, totalExponent] at target
  generalize shift : (e₁ - e₂ - t).toNat = k
  have exponent : (k : ℤ) = e₁ - e₂ - t := by omega
  have quotient : (m₁ * 2 ^ e₁ / (m₂ * 2 ^ e₂) / 2 ^ t : ℚ) = (m₁ <<< k : ℕ) / m₂ := by
    have power : (2 : ℚ) ^ e₁ = 2 ^ k * 2 ^ e₂ * 2 ^ t := by
      rw [← zpow_natCast, ← zpow_add₀ two_ne_zero, ← zpow_add₀ two_ne_zero]
      congr 1
      omega
    rw [Nat.shiftLeft_eq, Nat.cast_mul, Nat.cast_pow, Nat.cast_ofNat, power]
    have := (two_zpow_pos e₂).ne'
    have := (two_zpow_pos t).ne'
    field_simp
  have positive := div_pos (mul_pos first (two_zpow_pos e₁)) (mul_pos second (two_zpow_pos e₂))
  refine roundWithAccuracy_eq positive ?_ ?_
  · rw [quotient]
    exact .ofFraction pos₂
  · rw [targetExponent_eq, totalExponent]
    have bits := log2_shiftLeft pos₁ k
    rcases Nat.eq_zero_or_pos (m₁ <<< k / m₂) with none | some
    · have less : m₁ <<< k < m₂ := by
        by_contra more
        exact (Nat.div_pos (Nat.not_lt.1 more) pos₂).ne' none
      have nonzero : m₁ <<< k ≠ 0 := by
        rw [Nat.shiftLeft_eq]
        exact (Nat.mul_pos pos₁ (Nat.two_pow_pos k)).ne'
      have fewer : (m₁ <<< k).log2 < m₂.log2 + 1 :=
        (Nat.log2_lt nonzero).2 (less.trans Nat.lt_log2_self)
      omega
    · have near := log2_lt_of_div (m := m₁ <<< k) pos₂
      omega

end Binary64

end Abacus
