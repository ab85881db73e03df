import Mathlib
import Abacus.Number.Layout
import Abacus.Proofs.Scientific

/-!
# Decimals as numerals

Every layout writes a decimal as a numeral of its number, with its sign: without an exponent
(`exists_positional`) or with one (`exists_exponential`). The plain layout leaves out every zero that can be
left out (`exists_plain`), and it is what comes of rewriting a numeral step by step (`rewritten_eq_plain`).
-/

namespace Abacus

open Numeral

namespace Scientific

/-- The sign of a decimal. What is not negated has none. -/
def signOf (negative : Bool) : Option Bool := if negative then some true else none

/-- A numeral that denotes the number of a decimal, with its sign. -/
structure Denotes (s : Scientific) (d : Decimal) : Prop where
  sign : s.sign = signOf d.negative
  magnitude : s.magnitude = d.magnitude

namespace Denotes
variable {s : Scientific} {d : Decimal} (denotes : s.Denotes d)
include denotes

theorem negative_eq : s.negative = d.negative := by
  rw [negative, denotes.sign]
  cases d.negative <;> rfl

theorem sign_ne : s.sign ≠ some false := by
  rw [denotes.sign]
  cases d.negative <;> decide

theorem text_eq : s.text = (if d.negative then ['-'] else []) ++ s.body := by
  rw [text, denotes.sign]
  cases d.negative <;> rfl

/-- The decimal of the numeral is the one that it was written for. -/
theorem decimal_eq {negative : Bool} {n : ℕ} {e : ℤ} (same : d = .ofNumber negative n e) :
    s.decimal = d := by
  have magnitude := denotes.magnitude
  rw [same, Decimal.magnitude_ofNumber] at magnitude
  rw [decimal, denotes.negative_eq, same, Decimal.negative_ofNumber]
  exact Decimal.ofNumber_congr magnitude

end Denotes

/-- A numeral without an exponent and without superfluous zeros in front. After the point there are no
zeros at the end either, or there are `zeros` of them and nothing else. -/
structure Positional (s : Scientific) (zeros : ℕ) : Prop where
  exponent : s.exponent = none
  leading : s.whole = ['0'] ∨ s.whole.head? ≠ some '0'
  trailing : s.fraction.getLast? ≠ some '0' ∨ s.fraction = List.replicate zeros '0'

/-- The numeral without an exponent. -/
def rewritten (s : Scientific) : List Char := Layout.rewritten s.negative s.significand s.lastExponent

end Scientific

namespace Layout

open Scientific (fractionText signChar signOf)

/-! ## Without an exponent -/

section positional
variable {d : Decimal} {zeros : ℕ}

/-- The numeral of the digits on the two sides of the point. -/
theorem exists_positional_of {whole fraction : List Char} (some : whole ≠ [])
    (digits : ∀ c ∈ whole ++ fraction, c.isDigit = true) (leading : whole = ['0'] ∨ whole.head? ≠ .some '0')
    (trailing : fraction.getLast? ≠ .some '0' ∨ fraction = List.replicate zeros '0')
    (same : natOfDigits (whole ++ fraction) * 10 ^ (-fraction.length : ℤ) = d.magnitude) :
    ∃ s : Scientific, s.Denotes d ∧ s.Positional zeros ∧ s.body = whole ++ fractionText fraction := by
  obtain ⟨wholeDigits, fractionDigits⟩ := List.forall_mem_append.1 digits
  refine ⟨⟨signOf d.negative, whole, fraction, none, some, wholeDigits, fractionDigits,
    fun _ h => absurd h (Option.not_mem_none _), fun _ h => absurd h (Option.not_mem_none _)⟩,
    ⟨rfl, ?_⟩, ⟨rfl, leading, trailing⟩, List.append_nil _⟩
  rw [← same, Scientific.magnitude, Scientific.significand, Scientific.lastExponent, Scientific.power,
    zero_sub]

variable (canonical : d.Canonical)
include canonical

/-- A decimal less than one has zeros before its digits. -/
theorem exists_positional_less {down : ℕ} (point : d.point = -down) :
    ∃ s : Scientific, s.Denotes d ∧ s.Positional zeros ∧
      s.body = '0' :: '.' :: (List.replicate down '0' ++ d.digits) := by
  have filled : List.replicate down '0' ++ d.digits ≠ [] :=
    List.append_ne_nil_of_right_ne_nil _ canonical.ne_nil
  have digits : ∀ c ∈ ['0'] ++ (List.replicate down '0' ++ d.digits), c.isDigit = true := by
    rw [← List.append_assoc]
    exact List.forall_mem_append.2 ⟨isDigit_zeros (down + 1), canonical.isDigit⟩
  have trailing : (List.replicate down '0' ++ d.digits).getLast? ≠ some '0' := by
    rw [List.getLast?_append_of_ne_nil _ canonical.ne_nil]
    rcases canonical.trimmed with ⟨-, one⟩ | trimmed
    · omega
    · exact trimmed.2
  have body : '0' :: '.' :: (List.replicate down '0' ++ d.digits)
      = ['0'] ++ fractionText (List.replicate down '0' ++ d.digits) := by
    rw [fractionText, if_neg filled]
    rfl
  rw [body]
  refine exists_positional_of (List.cons_ne_nil _ _) digits (.inl rfl) (.inl trailing) ?_
  rw [Decimal.magnitude, ← List.append_assoc]
  congr 2
  · exact_mod_cast natOfDigits_zeros_append (down + 1) d.digits
  · rw [point, List.length_append, List.length_replicate]
    push_cast
    ring

/-- A whole number has zeros after its digits. -/
theorem exists_positional_whole {up : ℕ} (point : d.point = up) (long : d.digits.length ≤ up) :
    ∃ s : Scientific, s.Denotes d ∧ s.Positional zeros ∧
      s.body = d.digits ++ List.replicate (up - d.digits.length) '0'
        ++ fractionText (List.replicate zeros '0') := by
  refine exists_positional_of (List.append_ne_nil_of_left_ne_nil canonical.ne_nil _) ?_ ?_ (.inr rfl) ?_
  · exact List.forall_mem_append.2 ⟨List.forall_mem_append.2 ⟨canonical.isDigit, isDigit_zeros _⟩,
      isDigit_zeros _⟩
  · rcases canonical.trimmed with ⟨zero, one⟩ | ⟨head, -⟩
    · -- a zero stands directly before the point, so no other zeros follow it
      left
      obtain rfl : up = 1 := by omega
      rw [zero]
      rfl
    · right
      rwa [List.head?_append_of_ne_nil _ canonical.ne_nil]
  · rw [natOfDigits_append_zeros, natOfDigits_append_zeros, List.length_replicate, Decimal.magnitude, point,
      ← Int.natCast_sub long, zpow_natCast, zpow_neg, zpow_natCast]
    push_cast
    exact mul_inv_cancel_right₀ (pow_ne_zero _ (by norm_num)) _

/-- Other decimals have their point between two of their digits. -/
theorem exists_positional_divided {up : ℕ} (point : d.point = up) (pos : 0 < up)
    (short : up < d.digits.length) :
    ∃ s : Scientific, s.Denotes d ∧ s.Positional zeros ∧
      s.body = d.digits.take up ++ '.' :: d.digits.drop up := by
  have filled : d.digits.drop up ≠ [] := by
    rw [ne_eq, List.drop_eq_nil_iff]
    omega
  have trimmed : d.digits.head? ≠ some '0' ∧ d.digits.getLast? ≠ some '0' := by
    rcases canonical.trimmed with ⟨zero, one⟩ | trimmed
    · rw [zero, List.length_singleton] at short
      omega
    · exact trimmed
  have body : '.' :: d.digits.drop up = fractionText (d.digits.drop up) := (if_neg filled).symm
  rw [body]
  refine exists_positional_of ?_ ?_ (.inr ?_) (.inl ?_) ?_
  · rw [ne_eq, List.take_eq_nil_iff]
    exact not_or.2 ⟨pos.ne', canonical.ne_nil⟩
  · rw [List.take_append_drop]
    exact canonical.isDigit
  · rw [List.head?_take, if_neg pos.ne']
    exact trimmed.1
  · rw [List.getLast?_drop, if_neg (by omega)]
    exact trimmed.2
  · rw [List.take_append_drop, Decimal.magnitude, point, List.length_drop]
    congr 2
    omega

/-- Every decimal is written without an exponent as a numeral of its number. -/
theorem exists_positional (zeros : ℕ) :
    ∃ s : Scientific, s.Denotes d ∧ s.Positional zeros ∧
      s.body = positionalText (fractionText (List.replicate zeros '0')) d.digits d.point := by
  unfold positionalText
  split
  · next point =>
    have zero : d.point = -(0 : ℕ) := point
    exact exists_positional_less canonical zero
  · next down point => exact exists_positional_less canonical point
  · next up notZero point =>
    split
    · next long => exact exists_positional_whole canonical point long
    · next short =>
      exact exists_positional_divided canonical point (Nat.pos_of_ne_zero notZero) (by omega)

end positional

/-! ## With an exponent -/

/-- The digits of an exponent. -/
def exponentDigits (exponent : ℤ) : List Char :=
  List.replicate (2 - (Nat.toDigits 10 exponent.natAbs).length) '0' ++ Nat.toDigits 10 exponent.natAbs

theorem exponentText_eq (exponent : ℤ) :
    exponentText exponent
      = Scientific.exponentText (some (decide (exponent < 0), exponentDigits exponent)) := by
  unfold exponentText Scientific.exponentText signChar exponentDigits
  simp only [decide_eq_true_eq]

theorem power_exponentDigits (exponent : ℤ) :
    Scientific.power (some (decide (exponent < 0), exponentDigits exponent)) = exponent := by
  simp only [Scientific.power, exponentDigits, natOfDigits_zeros_append, natOfDigits_toDigits,
    decide_eq_true_eq]
  split <;> omega

/-- Every decimal is written with an exponent as a numeral of its number. -/
theorem exists_exponential {d : Decimal} (canonical : d.Canonical) :
    ∃ s : Scientific, s.Denotes d ∧ s.body = exponentialText d.digits d.point := by
  obtain ⟨c, cs, digits⟩ := List.exists_cons_of_ne_nil canonical.ne_nil
  have isDigit := canonical.isDigit
  rw [digits] at isDigit
  obtain ⟨first, rest⟩ := List.forall_mem_cons.1 isDigit
  have ne_nil : exponentDigits (d.point - 1) ≠ [] :=
    List.append_ne_nil_of_right_ne_nil _ Nat.toDigits_ne_nil
  have exponent : ∀ c ∈ exponentDigits (d.point - 1), c.isDigit = true :=
    List.forall_mem_append.2 ⟨isDigit_zeros _, isDigit_toDigits _⟩
  refine ⟨⟨signOf d.negative, [c], cs, some (decide (d.point - 1 < 0), exponentDigits (d.point - 1)),
    List.cons_ne_nil _ _, List.forall_mem_singleton.2 first, rest, ?_, ?_⟩, ⟨rfl, ?_⟩, ?_⟩
  · rintro _ ⟨⟩
    exact ne_nil
  · rintro _ ⟨⟩
    exact exponent
  · rw [Scientific.magnitude, Scientific.significand, Scientific.lastExponent, power_exponentDigits,
      Decimal.magnitude, digits, List.length_cons]
    congr 2
    push_cast
    ring
  · rw [Scientific.body, exponentialText, digits, exponentText_eq]
    have fraction : (if (c :: cs).length ≤ 1 then [] else '.' :: cs) = fractionText cs := by
      cases cs <;> rfl
    rw [List.drop_one, List.tail_cons, fraction]
    rfl

/-! ## Layouts -/

/-- Every decimal is written as a numeral of its number. -/
theorem exists_decimalText {layout : Layout} {zeros : ℕ}
    (tail : layout.wholeTail.toList = fractionText (List.replicate zeros '0')) {d : Decimal}
    (canonical : d.Canonical) : ∃ s : Scientific, s.Denotes d ∧ s.text = layout.decimalText d := by
  unfold decimalText
  by_cases isPositional : layout.positional d.point = true
  · obtain ⟨s, denotes, -, body⟩ := exists_positional canonical zeros
    exact ⟨s, denotes, by rw [denotes.text_eq, body, tail, if_pos isPositional]⟩
  · obtain ⟨s, denotes, body⟩ := exists_exponential canonical
    exact ⟨s, denotes, by rw [denotes.text_eq, body, if_neg isPositional]⟩

/-- The plain layout writes a plain numeral. -/
theorem exists_plain {d : Decimal} (canonical : d.Canonical) :
    ∃ s : Scientific, s.Denotes d ∧ s.Plain ∧ s.text = plain.decimalText d := by
  obtain ⟨s, denotes, positional, body⟩ := exists_positional canonical 0
  have trailing : s.fraction.getLast? ≠ some '0' := by
    rcases positional.trailing with trailing | nothing
    · exact trailing
    · rw [nothing]
      decide
  exact ⟨s, denotes, ⟨positional.exponent, denotes.sign_ne, positional.leading, trailing⟩,
    by rw [denotes.text_eq, body]; rfl⟩

/-! ## Rewriting -/

theorem ne_point_of_isDigit {c : Char} (digit : c.isDigit = true) : c ≠ '.' := by
  rintro rfl
  cases digit

/-- What is trimmed from a fraction are the zeros at its end, and with all of it the point goes. -/
theorem trimmed_fraction {front fraction : List Char} (zeros : ℕ)
    (whole : front.getLast? ≠ some '.') (digits : ∀ c ∈ fraction, c.isDigit = true)
    (trailing : fraction.getLast? ≠ some '0') :
    trimmed (front ++ '.' :: (fraction ++ List.replicate zeros '0')) = front ++ fractionText fraction := by
  have pointed : (front ++ '.' :: (fraction ++ List.replicate zeros '0')).contains '.' = true := by simp
  have split : front ++ '.' :: (fraction ++ List.replicate zeros '0')
      = (front ++ '.' :: fraction) ++ List.replicate zeros '0' := by simp
  have last : (front ++ '.' :: fraction).getLast? ≠ some '0' := by
    rw [List.getLast?_append_of_ne_nil _ (List.cons_ne_nil _ _), List.getLast?_cons]
    cases final : fraction.getLast? with
    | none => decide
    | some c =>
      rw [final] at trailing
      exact trailing
  rw [trimmed, if_pos pointed, split, Decimal.stripEnd_append_replicate, Decimal.stripEnd_of_getLast? last,
    fractionText]
  by_cases none : fraction = []
  · have single : front ++ ['.'] = front ++ List.replicate 1 '.' := rfl
    rw [if_pos none, none, single, Decimal.stripEnd_append_replicate, Decimal.stripEnd_of_getLast? whole,
      List.append_nil]
  · obtain ⟨c, final⟩ := Option.ne_none_iff_exists'.1 (mt List.getLast?_eq_none_iff.1 none)
    rw [if_neg none, Decimal.stripEnd_of_getLast?]
    rw [List.getLast?_append_of_ne_nil _ (List.cons_ne_nil _ _), List.getLast?_cons, final]
    exact fun point => ne_point_of_isDigit (digits c (List.mem_of_getLast? final)) (Option.some.inj point)

section

variable (negative : Bool)

/-- Digits without a point stay as they are, after a sign too. -/
theorem trimmed_whole {whole : List Char} (digits : ∀ c ∈ whole, c.isDigit = true) :
    trimmed ((if negative then ['-'] else []) ++ whole) = (if negative then ['-'] else []) ++ whole := by
  have unpointed : '.' ∉ (if negative then ['-'] else []) ++ whole := by
    rw [List.mem_append]
    refine not_or.2 ⟨by cases negative <;> decide, fun mem => ?_⟩
    exact ne_point_of_isDigit (digits _ mem) rfl
  exact if_neg (mt List.contains_iff_mem.1 unpointed)

/-- A text with digits on both sides of a point, and what is left of it without the zeros at its end. -/
inductive Pointed : List Char → List Char → Prop
  | mk {whole fraction : List Char} (zeros : ℕ) (filled : whole ≠ [])
      (digits : ∀ c ∈ whole ++ fraction, c.isDigit = true) (trailing : fraction.getLast? ≠ some '0') :
      Pointed (whole ++ '.' :: (fraction ++ List.replicate zeros '0')) (whole ++ fractionText fraction)

theorem Pointed.trimmed_eq {text left : List Char} (h : Pointed text left) :
    trimmed ((if negative then ['-'] else []) ++ text) = (if negative then ['-'] else []) ++ left := by
  cases h with
  | @mk whole fraction zeros filled digits trailing =>
    obtain ⟨wholeDigits, fractionDigits⟩ := List.forall_mem_append.1 digits
    have front : ((if negative then ['-'] else []) ++ whole).getLast? ≠ some '.' := by
      rw [List.getLast?_append_of_ne_nil _ filled]
      exact fun point => ne_point_of_isDigit (wholeDigits _ (List.mem_of_getLast? point)) rfl
    rw [← List.append_assoc, trimmed_fraction zeros front fractionDigits trailing, List.append_assoc]

end

section

variable {core : List Char} (filled : core ≠ []) (isDigit : ∀ c ∈ core, c.isDigit = true)
include filled isDigit

/-- Less than one: zeros stand between the point and the digits. -/
theorem pointed_less (last : core.getLast? ≠ some '0') (gap zeros : ℕ) :
    Pointed ('0' :: '.' :: (List.replicate gap '0' ++ (core ++ List.replicate zeros '0')))
      ('0' :: '.' :: (List.replicate gap '0' ++ core)) := by
  have digits : ∀ c ∈ ['0'] ++ (List.replicate gap '0' ++ core), c.isDigit = true := by
    rw [← List.append_assoc]
    exact List.forall_mem_append.2 ⟨isDigit_zeros (gap + 1), isDigit⟩
  have trailing : (List.replicate gap '0' ++ core).getLast? ≠ some '0' := by
    rwa [List.getLast?_append_of_ne_nil _ filled]
  have pointed := Pointed.mk zeros (List.cons_ne_nil '0' []) digits trailing
  rw [fractionText, if_neg (List.append_ne_nil_of_right_ne_nil _ filled), List.append_assoc] at pointed
  exact pointed

/-- A whole number: nothing but zeros after the point. -/
theorem pointed_whole (extra zeros : ℕ) :
    Pointed ((core ++ List.replicate extra '0') ++ '.' :: List.replicate zeros '0')
      (core ++ List.replicate extra '0') := by
  have digits : ∀ c ∈ core ++ List.replicate extra '0' ++ [], c.isDigit = true := by
    rw [List.append_nil]
    exact List.forall_mem_append.2 ⟨isDigit, isDigit_zeros extra⟩
  have trailing : ([] : List Char).getLast? ≠ some '0' := by decide
  have pointed := Pointed.mk zeros (List.append_ne_nil_of_left_ne_nil filled _) digits trailing
  rw [fractionText, if_pos rfl, List.append_nil] at pointed
  exact pointed

/-- The point stands between two of the digits. -/
theorem pointed_divided (last : core.getLast? ≠ some '0') {w : ℕ} (pos : 0 < w) (lt : w < core.length)
    (zeros : ℕ) :
    Pointed (core.take w ++ '.' :: (core.drop w ++ List.replicate zeros '0'))
      (core.take w ++ '.' :: core.drop w) := by
  have before : core.take w ≠ [] := by
    rw [ne_eq, List.take_eq_nil_iff]
    exact not_or.2 ⟨by omega, filled⟩
  have after : core.drop w ≠ [] := by
    rw [ne_eq, List.drop_eq_nil_iff]
    omega
  have digits : ∀ c ∈ core.take w ++ core.drop w, c.isDigit = true := by
    rwa [List.take_append_drop]
  have trailing : (core.drop w).getLast? ≠ some '0' := by
    rw [List.getLast?_drop, if_neg (by omega)]
    exact last
  have pointed := Pointed.mk zeros before digits trailing
  rw [fractionText, if_neg after] at pointed
  exact pointed

end

theorem positionalText_neg (tail digits : List Char) (down : ℕ) :
    positionalText tail digits (-down) = '0' :: '.' :: (List.replicate down '0' ++ digits) := by
  cases down <;> rfl

theorem positionalText_pos (tail digits : List Char) {up : ℕ} (pos : 0 < up) :
    positionalText tail digits up
      = if digits.length ≤ up then digits ++ List.replicate (up - digits.length) '0' ++ tail
        else digits.take up ++ '.' :: digits.drop up := by
  obtain ⟨k, rfl⟩ : ∃ k, up = k + 1 := ⟨up - 1, by omega⟩
  rfl

section

variable {n : ℕ} (pos : n ≠ 0) (negative : Bool)
include pos

theorem ofNumber_of_ne_zero (e : ℤ) :
    Decimal.ofNumber negative n e
      = ⟨negative, Decimal.stripEnd '0' (Nat.toDigits 10 n), (Nat.toDigits 10 n).length + e⟩ :=
  if_neg pos

/-- A number without places after the point is written out as it is. -/
theorem fixedText_whole (up : ℕ) :
    fixedText n up = positionalText [] (Decimal.ofNumber negative n up).digits
      (Decimal.ofNumber negative n up).point := by
  obtain ⟨zeros, split⟩ := Decimal.exists_stripEnd (Nat.toDigits 10 n)
  have length := congrArg List.length split
  rw [List.length_append, List.length_replicate] at length
  have filled : 0 < (Nat.toDigits 10 n).length := List.length_pos_of_ne_nil Nat.toDigits_ne_nil
  have text : fixedText n up = Nat.toDigits 10 n ++ List.replicate up '0' := if_neg pos
  rw [ofNumber_of_ne_zero pos]
  dsimp only
  rw [text, ← Int.natCast_add, positionalText_pos _ _ (by omega), if_pos (by omega), List.append_nil]
  conv_lhs => rw [split, List.append_assoc, List.replicate_append_replicate]
  congr 2
  omega

/-- A number with places after the point is written out with zeros at the end. -/
theorem pointed_fixedText (down : ℕ) :
    Pointed (fixedText n (.negSucc down))
      (positionalText [] (Decimal.ofNumber negative n (.negSucc down)).digits
        (Decimal.ofNumber negative n (.negSucc down)).point) := by
  have canonical := Decimal.canonical_ofNumber negative n (.negSucc down)
  rw [ofNumber_of_ne_zero pos] at canonical ⊢
  obtain ⟨filled, isDigit, -⟩ := canonical
  have last := Decimal.getLast?_stripEnd (Nat.toDigits 10 n)
  obtain ⟨zeros, split⟩ := Decimal.exists_stripEnd (Nat.toDigits 10 n)
  unfold fixedText
  dsimp only at filled isDigit ⊢
  generalize Decimal.stripEnd '0' (Nat.toDigits 10 n) = core at filled isDigit last split ⊢
  rw [split]
  have length : (core ++ List.replicate zeros '0').length = core.length + zeros := by simp
  rw [length]
  by_cases short : core.length + zeros ≤ down + 1
  · have point : ((core.length + zeros : ℕ) : ℤ) + Int.negSucc down
        = -((down + 1 - (core.length + zeros) : ℕ) : ℤ) := by omega
    rw [if_pos short, point, positionalText_neg]
    exact pointed_less filled isDigit last _ zeros
  · obtain ⟨w, whole⟩ : ∃ w, w + (down + 1) = core.length + zeros :=
      ⟨core.length + zeros - (down + 1), by omega⟩
    have place : core.length + zeros - (down + 1) = w := by omega
    have point : ((core.length + zeros : ℕ) : ℤ) + Int.negSucc down = (w : ℕ) := by omega
    rw [if_neg short, place, point, positionalText_pos _ _ (by omega), List.take_append, List.drop_append]
    by_cases allWhole : core.length ≤ w
    · rw [if_pos allWhole, List.take_of_length_le allWhole, List.drop_of_length_le allWhole,
        List.take_replicate, List.drop_replicate, Nat.min_eq_left (by omega), List.append_nil]
      exact pointed_whole filled isDigit _ _
    · have before : w - core.length = 0 := by omega
      rw [if_neg allWhole, before, List.take_zero, List.drop_zero, List.append_nil]
      exact pointed_divided filled isDigit last (by omega) (by omega) zeros

end

/-- The plain layout writes a number as its numeral is rewritten, step by step. -/
theorem rewritten_eq_plain (negative : Bool) (n : ℕ) (e : ℤ) :
    rewritten negative n e = plain.decimalText (.ofNumber negative n e) := by
  have plainly : plain.decimalText (.ofNumber negative n e) = (if negative then ['-'] else []) ++
      positionalText [] (Decimal.ofNumber negative n e).digits (Decimal.ofNumber negative n e).point := by
    rw [decimalText, Decimal.negative_ofNumber]
    rfl
  rw [plainly]
  unfold rewritten
  by_cases zero : n = 0
  · subst zero
    cases e with
    | ofNat up => cases negative <;> rfl
    | negSucc down =>
      have text : fixedText 0 (.negSucc down) = ['0'] ++ '.' :: List.replicate (down + 1) '0' := by
        rw [List.replicate_succ']
        rfl
      have pointed := pointed_whole (List.cons_ne_nil '0' []) (isDigit_zeros 1) 0 (down + 1)
      rw [text]
      exact pointed.trimmed_eq negative
  · cases e with
    | ofNat up =>
      have text : fixedText n (.ofNat up) = Nat.toDigits 10 n ++ List.replicate up '0' := if_neg zero
      have digits : ∀ c ∈ fixedText n (.ofNat up), c.isDigit = true := by
        rw [text]
        exact List.forall_mem_append.2 ⟨isDigit_toDigits n, isDigit_zeros up⟩
      rw [trimmed_whole negative digits]
      exact congrArg (_ ++ ·) (fixedText_whole zero negative up)
    | negSucc down =>
      exact (pointed_fixedText zero negative down).trimmed_eq negative

end Layout

end Abacus
