import Mathlib
import Abacus.Proofs.Integers

/-!
# Integer arithmetic is exact

Integers of any size are combined as numbers are, and the result is given if it has thirty-two bits. If
it has not, or if there is none, that is an error, and there are no other errors (`NativeOp.apply_ints`).
A quotient is rounded toward zero: what is left over is smaller than the divisor and lies on the side of
the dividend, which leaves one quotient for each pair of integers (`RoundedDivision.unique`).

The range has one more integer below zero than above. So a quotient of two integers of thirty-two bits
can be too large, in one case, and its product with the divisor never is.
-/

namespace Abacus

/-- `m` divided by `n` is `q`, rounded toward zero, and `rest` is left over. -/
structure RoundedDivision (m n q rest : Int) : Prop where
  split : m = q * n + rest
  small : |rest| < |n|
  sided : rest = 0 ∨ rest.sign = m.sign

/-- The integers of thirty-two bits. -/
def InRange (n : Int) : Prop := -2 ^ 31 ≤ n ∧ n ≤ 2 ^ 31 - 1

theorem inRange_iff_fitsInt32 {n : Int} : InRange n ↔ fitsInt32 n = true := by
  rw [fitsInt32_iff, InRange]
  norm_num

/-! ## Rounding toward zero -/

theorem roundedDivision_tdiv (m : Int) {n : Int} (nonzero : n ≠ 0) :
    RoundedDivision m n (m.tdiv n) (m.tmod n) where
  split := (Int.tdiv_mul_add_tmod m n).symm
  small := by
    rw [Int.abs_eq_natAbs, Int.abs_eq_natAbs, Int.natAbs_tmod]
    exact_mod_cast Nat.mod_lt _ (Int.natAbs_pos.2 nonzero)
  sided := by
    rw [Int.sign_tmod]
    split
    · next divides => exact .inl (Int.tmod_eq_zero_of_dvd divides)
    · exact .inr rfl

namespace RoundedDivision

variable {m n q rest : Int}

/-- Nothing is smaller than zero, so nothing is left over by it. -/
theorem nonzero (h : RoundedDivision m n q rest) : n ≠ 0 := by
  rintro rfl
  have small := h.small
  rw [abs_zero] at small
  exact absurd (abs_nonneg rest) (Int.not_le.2 small)

/-- The rest of a dividend that is not negative is not negative either. -/
theorem rest_nonneg (h : RoundedDivision m n q rest) (side : 0 ≤ m) : 0 ≤ rest := by
  rcases h.sided with zero | same
  · exact Int.le_of_eq zero.symm
  · rwa [← Int.sign_nonneg_iff, same, Int.sign_nonneg_iff]

theorem rest_nonpos (h : RoundedDivision m n q rest) (side : m ≤ 0) : rest ≤ 0 := by
  rcases h.sided with zero | same
  · exact Int.le_of_eq zero
  · rwa [← Int.sign_nonpos_iff, same, Int.sign_nonpos_iff]

theorem eq_tdiv (h : RoundedDivision m n q rest) : m.tdiv n = q ∧ m.tmod n = rest := by
  have sum : rest + n * q = m := by
    rw [h.split]
    ring
  obtain ⟨lower, upper⟩ := abs_lt.1 h.small
  rw [Int.abs_eq_natAbs] at lower upper
  rcases Int.le_total 0 m with side | side
  · exact (Int.tdiv_tmod_unique side h.nonzero).2 ⟨sum, h.rest_nonneg side, upper⟩
  · exact (Int.tdiv_tmod_unique' side h.nonzero).2 ⟨sum, lower, h.rest_nonpos side⟩

theorem unique {q' rest' : Int} (h : RoundedDivision m n q rest) (h' : RoundedDivision m n q' rest') :
    q = q' :=
  h.eq_tdiv.1.symm.trans h'.eq_tdiv.1

/-- The rest lies between zero and the dividend, and so does what was taken away. -/
theorem parts_inRange (h : RoundedDivision m n q rest) (range : InRange m) :
    InRange (q * n) ∧ InRange rest := by
  have split := h.split
  have within : rest.natAbs ≤ m.natAbs := by
    rw [← h.eq_tdiv.2, Int.natAbs_tmod]
    exact Nat.mod_le _ _
  simp only [InRange] at range ⊢
  rcases Int.le_total 0 m with side | side
  · have := h.rest_nonneg side
    omega
  · have := h.rest_nonpos side
    omega

/-- A quotient is no larger than the dividend, so it leaves the range only by changing the sign of the
smallest integer. -/
theorem not_inRange_iff (h : RoundedDivision m n q rest) (range : InRange m) :
    ¬ InRange q ↔ m = -2 ^ 31 ∧ n = -1 := by
  obtain ⟨rfl, -⟩ := h.eq_tdiv
  have size : (m.tdiv n).natAbs = m.natAbs / n.natAbs := Int.natAbs_tdiv m n
  simp only [InRange] at range ⊢
  constructor
  · intro large
    have whole : (m.tdiv n).natAbs ≤ m.natAbs := Int.natAbs_tdiv_le_natAbs m n
    have smallest : m = -2 ^ 31 := by omega
    subst smallest
    refine ⟨rfl, ?_⟩
    have unit : n.natAbs = 1 := by
      by_contra other
      have two : 2 ≤ n.natAbs := by
        have := h.nonzero
        omega
      have half : (-2 ^ 31 : Int).natAbs / n.natAbs ≤ 2 ^ 31 / 2 := Nat.div_le_div_left two Nat.two_pos
      omega
    rcases Int.natAbs_eq_iff.1 unit with rfl | rfl
    · rw [Nat.cast_one, Int.tdiv_one] at large
      omega
    · rfl
  · rintro ⟨rfl, rfl⟩
    decide

end RoundedDivision

/-! ## Operations -/

namespace NativeOp

/-- `r` is the result of the operation on two integers of any size. -/
inductive Exact (m n : Int) : NativeOp → Int → Prop
  | add : Exact m n .add (m + n)
  | sub : Exact m n .sub (m - n)
  | mul : Exact m n .mul (m * n)
  | div {q rest} (division : RoundedDivision m n q rest) : Exact m n .div q

variable {m n r : Int} {op : NativeOp}

theorem Exact.unique {r' : Int} (h : Exact m n op r) (h' : Exact m n op r') : r = r' := by
  cases h with
  | div division =>
    cases h' with
    | div division' => exact division.unique division'
  | _ =>
    cases h'
    rfl

theorem Exact.division (h : Exact m n .div r) : ∃ rest, RoundedDivision m n r rest := by
  cases h with
  | div division => exact ⟨_, division⟩

theorem Exact.divisor_nonzero (h : Exact m n .div r) : n ≠ 0 := by
  obtain ⟨rest, division⟩ := h.division
  exact division.nonzero

/-- Dividing the magnitudes rounds toward zero. -/
theorem quotient_eq_tdiv (m n : Int) : quotient m n = m.tdiv n := by
  unfold quotient
  dsimp only
  rw [Int.ofNat_tdiv]
  rcases Int.natAbs_eq m with hm | hm <;> rcases Int.natAbs_eq n with hn | hn
  · rw [if_pos (by omega), ← hm, ← hn]
  · by_cases zero : n = 0
    · simp [zero]
    · rw [if_neg (by omega), ← Int.tdiv_neg, ← hm, ← hn]
  · by_cases zero : m = 0
    · simp [zero]
    · rw [if_neg (by omega), ← Int.neg_tdiv, ← hm, ← hn]
  · by_cases zero : m = 0 ∨ n = 0
    · rcases zero with zero | zero <;> simp [zero]
    · rw [if_pos (by omega), ← Int.neg_tdiv_neg, ← hm, ← hn]

theorem onInts_exact (operator : op ≠ .print) :
    (op = .div ∧ n = 0 ∧ op.onInts m n = .error .divisionByZero) ∨
      ∃ r, Exact m n op r ∧ op.onInts m n = .ok r := by
  cases op with
  | add => exact .inr ⟨_, .add, rfl⟩
  | sub => exact .inr ⟨_, .sub, rfl⟩
  | mul => exact .inr ⟨_, .mul, rfl⟩
  | div =>
    by_cases zero : n = 0
    · exact .inl ⟨rfl, zero, if_pos zero⟩
    · refine .inr ⟨_, .div (roundedDivision_tdiv m zero), ?_⟩
      rw [← quotient_eq_tdiv]
      exact if_neg zero
  | print => exact absurd rfl operator

/-- What comes of two integers: there is no result, or it is given, or it is too large. -/
theorem apply_ints (operator : op ≠ .print) (m n : Int) :
    (op = .div ∧ n = 0 ∧ op.apply (.int m) (.int n) = .error .divisionByZero) ∨
      ∃ r, Exact m n op r ∧
        ((InRange r ∧ op.apply (.int m) (.int n) = .ok (.int r)) ∨
          (¬ InRange r ∧ op.apply (.int m) (.int n) = .error (.overflow op))) := by
  have applied : op.apply (.int m) (.int n) = (op.onInts m n).bind op.checked := rfl
  rcases onInts_exact operator with ⟨division, zero, fault⟩ | ⟨r, exact, result⟩
  · rw [applied, fault]
    exact .inl ⟨division, zero, rfl⟩
  · rw [applied, result]
    refine .inr ⟨r, exact, ?_⟩
    by_cases fits : InRange r
    · exact .inl ⟨fits, if_pos (inRange_iff_fitsInt32.1 fits)⟩
    · exact .inr ⟨fits, if_neg (mt inRange_iff_fitsInt32.2 fits)⟩

/-- An operation gives the exact result, if that is in range. -/
theorem apply_eq_ok_iff (operator : op ≠ .print) {v : Value} :
    op.apply (.int m) (.int n) = .ok v ↔ ∃ r, Exact m n op r ∧ InRange r ∧ v = .int r := by
  rcases apply_ints operator m n with ⟨rfl, rfl, told⟩ | ⟨r, exact, ⟨fits, told⟩ | ⟨large, told⟩⟩
  · rw [told]
    refine ⟨nofun, ?_⟩
    rintro ⟨r, exact, -⟩
    exact absurd rfl exact.divisor_nonzero
  · rw [told, Except.ok.injEq]
    constructor
    · rintro rfl
      exact ⟨r, exact, fits, rfl⟩
    · rintro ⟨r', exact', -, rfl⟩
      rw [exact.unique exact']
  · rw [told]
    refine ⟨nofun, ?_⟩
    rintro ⟨r', exact', fits, -⟩
    exact absurd (exact'.unique exact ▸ fits) large

theorem apply_eq_divisionByZero_iff (operator : op ≠ .print) :
    op.apply (.int m) (.int n) = .error .divisionByZero ↔ op = .div ∧ n = 0 := by
  rcases apply_ints operator m n with ⟨rfl, rfl, told⟩ | ⟨r, exact, ⟨-, told⟩ | ⟨-, told⟩⟩
  · exact iff_of_true told ⟨rfl, rfl⟩
  all_goals
    rw [told]
    refine ⟨nofun, ?_⟩
    rintro ⟨rfl, rfl⟩
    exact absurd rfl exact.divisor_nonzero

theorem apply_eq_overflow_iff (operator : op ≠ .print) :
    op.apply (.int m) (.int n) = .error (.overflow op) ↔ ∃ r, Exact m n op r ∧ ¬ InRange r := by
  rcases apply_ints operator m n with ⟨rfl, rfl, told⟩ | ⟨r, exact, ⟨fits, told⟩ | ⟨large, told⟩⟩
  · rw [told]
    refine ⟨nofun, ?_⟩
    rintro ⟨r, exact, -⟩
    exact absurd rfl exact.divisor_nonzero
  · rw [told]
    refine ⟨nofun, ?_⟩
    rintro ⟨r', exact', large⟩
    exact absurd (exact.unique exact' ▸ fits) large
  · exact iff_of_true told ⟨r, exact, large⟩

/-- A script that has the quotient of an integer in range can compute the rest. -/
theorem apply_recomputes {q rest : Int} (division : RoundedDivision m n q rest) (range : InRange m) :
    NativeOp.mul.apply (.int q) (.int n) = .ok (.int (q * n)) ∧
      NativeOp.sub.apply (.int m) (.int (q * n)) = .ok (.int rest) := by
  obtain ⟨product, left⟩ := division.parts_inRange range
  have difference : m - q * n = rest := by
    rw [division.split]
    ring
  exact ⟨(apply_eq_ok_iff (by decide)).2 ⟨_, .mul, product, rfl⟩,
    (apply_eq_ok_iff (by decide)).2 ⟨_, .sub, by rwa [difference], by rw [difference]⟩⟩

/-- For two integers of any size, an operation gives the exact result if and only if that is in range,
tells of an overflow if and only if it is not, and of a division by zero if and only if there is one; it
tells of nothing else. There is one quotient for every divisor but zero. The quotient of an integer in
range overflows if and only if the smallest integer is divided by minus one; whenever it is given, a
script can take the divisor as often from the dividend, with `*` and `-`, and is left with the rest. -/
theorem integers_are_exact_or_refused (m n : Int) :
    (∀ op : NativeOp, op ≠ .print →
      (∀ v, op.apply (.int m) (.int n) = .ok v ↔ ∃ r, Exact m n op r ∧ InRange r ∧ v = .int r) ∧
      (op.apply (.int m) (.int n) = .error .divisionByZero ↔ op = .div ∧ n = 0) ∧
      (op.apply (.int m) (.int n) = .error (.overflow op) ↔ ∃ r, Exact m n op r ∧ ¬ InRange r) ∧
      (∀ fault, op.apply (.int m) (.int n) = .error fault →
        fault = .divisionByZero ∧
            fault.report = .script "ZeroDivisionError" "integer division by zero" ∨
          fault = .overflow op ∧
            fault.report = .script "OverflowError" ("integer overflow in " ++ op.symbol))) ∧
    (n ≠ 0 → ∃! q, ∃ rest, RoundedDivision m n q rest) ∧
    (InRange m →
      (NativeOp.div.apply (.int m) (.int n) = .error (.overflow .div) ↔ m = -2 ^ 31 ∧ n = -1) ∧
      ∀ q, NativeOp.div.apply (.int m) (.int n) = .ok (.int q) →
        ∃ rest, RoundedDivision m n q rest ∧
          NativeOp.mul.apply (.int q) (.int n) = .ok (.int (q * n)) ∧
          NativeOp.sub.apply (.int m) (.int (q * n)) = .ok (.int rest)) := by
  refine ⟨fun op operator => ⟨fun v => apply_eq_ok_iff operator, apply_eq_divisionByZero_iff operator,
    apply_eq_overflow_iff operator, fun fault failed => ?_⟩, fun nonzero => ?_, fun range => ⟨?_, ?_⟩⟩
  · rcases apply_ints operator m n with ⟨-, -, told⟩ | ⟨r, -, ⟨-, told⟩ | ⟨-, told⟩⟩
    · cases told.symm.trans failed
      exact .inl ⟨rfl, rfl⟩
    · cases told.symm.trans failed
    · cases told.symm.trans failed
      exact .inr ⟨rfl, rfl⟩
  · refine ⟨m.tdiv n, ⟨_, roundedDivision_tdiv m nonzero⟩, ?_⟩
    rintro q ⟨rest, division⟩
    exact division.eq_tdiv.1.symm
  · rw [apply_eq_overflow_iff (by decide)]
    constructor
    · rintro ⟨q, exact, large⟩
      obtain ⟨rest, division⟩ := exact.division
      exact (division.not_inRange_iff range).1 large
    · rintro ⟨rfl, rfl⟩
      have division := roundedDivision_tdiv (-2 ^ 31) (n := -1) (by decide)
      exact ⟨_, .div division, (division.not_inRange_iff range).2 ⟨rfl, rfl⟩⟩
  · intro q given
    obtain ⟨r, exact, -, same⟩ := (apply_eq_ok_iff (by decide)).1 given
    cases same
    obtain ⟨rest, division⟩ := exact.division
    exact ⟨rest, division, apply_recomputes division range⟩

theorem integers_are_exact_or_refused_minusSeven :
    InRange (-7) ∧ RoundedDivision (-7) 2 (-3) (-1) ∧
    NativeOp.div.apply (.int (-7)) (.int 2) = .ok (.int (-3)) ∧
    NativeOp.mul.apply (.int (-3)) (.int 2) = .ok (.int (-6)) ∧
    InRange (-2 ^ 31) ∧ NativeOp.div.apply (.int (-2 ^ 31)) (.int (-1)) = .error (.overflow .div) ∧
    NativeOp.add.apply (.int (2 ^ 31)) (.int (-1)) = .ok (.int (2 ^ 31 - 1)) ∧
    NativeOp.div.apply (.int 5) (.int 0) = .error .divisionByZero := by
  have range : InRange (-7) ∧ InRange (-2 ^ 31) ∧ InRange (2 ^ 31 - 1) := by
    simp only [InRange]
    omega
  have quotient : NativeOp.div.apply (.int (-7)) (.int 2) = .ok (.int (-3)) := rfl
  have divided : RoundedDivision (-7) 2 (-3) (-1) := roundedDivision_tdiv (-7) (by decide)
  obtain ⟨rest, -, product, -⟩ := ((integers_are_exact_or_refused (-7) 2).2.2 range.1).2 (-3) quotient
  have overflow := ((integers_are_exact_or_refused (-2 ^ 31) (-1)).2.2 range.2.1).1.2 ⟨rfl, rfl⟩
  have sum := ((integers_are_exact_or_refused (2 ^ 31) (-1)).1 .add (by decide)).1 (.int (2 ^ 31 - 1))
  have zero := ((integers_are_exact_or_refused 5 0).1 .div (by decide)).2.1
  exact ⟨range.1, divided, quotient, product, range.2.1, overflow, sum.2 ⟨_, .add, range.2.2, rfl⟩,
    zero.2 ⟨rfl, rfl⟩⟩

end NativeOp

end Abacus
