import Mathlib.Order.Monotone.Basic
import Abacus.Proofs.Cut

/-!
# The chain of tokens

Each token is read from where the one before it stops. So the tokens of a text can be numbered without
reading a stream: `tokenOffset` says from where a token is read, and `tokenAt` is that token. The tokens
of a stream are the first ones of this chain.

A numeral may have more dots than one. The dots that repeat one are told from the text alone
(`Token.RepeatsDot`), and along the chain they come in the order of the text.
-/

namespace Abacus

/-! ## Tokens by number -/

namespace Token

/-- The token that is read from an offset of a text. -/
def readFrom (text : List Char) (offset : Nat) : Token := (next offset (text.drop offset)).1

/-- What comes after a token is what stands where it stops. -/
theorem next_rest {text : List Char} {offset : Nat}
    (h : (readFrom text offset).lexeme ≠ .endOfInput) :
    (next offset (text.drop offset)).2 = text.drop (readFrom text offset).stop := by
  unfold readFrom at h ⊢
  rcases HasWord.blank_or_exists (text.drop offset) with blanks | ⟨l, gap, c, body, tail, eq, word⟩
  · rw [next_blank blanks] at h
    exact absurd rfl h
  · have size : offset + gap.length + (body.length + 1) = offset + (gap ++ c :: body).length := by
      simp only [List.length_append, List.length_cons]
      omega
    rw [eq, next_word word, size, ← List.drop_drop, eq]
    simp

end Token

/-- The offset from which the token with this number is read: each is read from where the one before it
stops. -/
def tokenOffset (text : List Char) (offset : Nat) : Nat → Nat
  | 0 => offset
  | i + 1 => (Token.readFrom text (tokenOffset text offset i)).stop

/-- The token with this number. -/
def tokenAt (text : List Char) (offset i : Nat) : Token :=
  Token.readFrom text (tokenOffset text offset i)

@[simp] theorem tokenAt_origin (text : List Char) (offset i : Nat) :
    (tokenAt text offset i).origin = tokenOffset text offset i :=
  Token.next_origin _ _

/-- The tokens after the first one are those of the text from where it stops. -/
theorem tokenOffset_succ (text : List Char) (offset i : Nat) :
    tokenOffset text offset (i + 1) = tokenOffset text (Token.readFrom text offset).stop i := by
  induction i with
  | zero => rfl
  | succ i ih => rw [tokenOffset, ih, tokenOffset]

namespace Stream

theorem ofText_all (text : List Char) (offset : Nat) :
    (ofText text offset).all =
      if (Token.readFrom text offset).lexeme = .endOfInput then [Token.readFrom text offset]
      else Token.readFrom text offset :: (ofText text (Token.readFrom text offset).stop).all := by
  rw [ofText, read]
  by_cases last : (Token.readFrom text offset).lexeme = .endOfInput
  · rw [if_pos last]
    exact congrArg all (if_pos last)
  · rw [if_neg last, ofText, ← Token.next_rest last]
    exact congrArg all (if_neg last)

theorem ofText_getElem? {text : List Char} {offset i : Nat} {t : Token}
    (h : (ofText text offset).all[i]? = some t) : t = tokenAt text offset i := by
  induction i generalizing offset with
  | zero =>
    rw [ofText_all] at h
    split at h <;> exact (Option.some.inj h).symm
  | succ i ih =>
    rw [ofText_all] at h
    split at h
    · cases h
    · rw [tokenAt, tokenOffset_succ]
      exact ih h

/-- The first tokens of a text. -/
theorem take_all {text : List Char} {offset k : Nat} (le : k ≤ (ofText text offset).all.length) :
    (ofText text offset).all.take k = (List.range k).map (tokenAt text offset) := by
  refine List.ext_getElem (by simp [le]) fun i hi hi' => ?_
  have lt : i < (ofText text offset).all.length := by
    simp only [List.length_take] at hi
    omega
  simp only [List.getElem_take, List.getElem_map, List.getElem_range]
  exact ofText_getElem? (List.getElem?_eq_getElem lt)

end Stream

/-! ## Repeated dots -/

namespace Token

/-- The offsets of the dots of `run`, if it begins at `start`. -/
def dots (start : Nat) (run : List Char) : List Nat :=
  (run.zipIdx start).filterMap fun (c, i) => if c = '.' then some i else none

theorem mem_dots {start o : Nat} {run : List Char} :
    o ∈ dots start run ↔ start ≤ o ∧ run[o - start]? = some '.' := by
  rw [dots, List.mem_filterMap]
  constructor
  · rintro ⟨⟨c, i⟩, mem, dot⟩
    obtain ⟨rfl, same⟩ := Option.ite_none_right_eq_some.1 dot
    obtain rfl := Option.some.inj same
    exact List.mk_mem_zipIdx_iff_le_and_getElem?_sub.1 mem
  · intro here
    exact ⟨('.', o), List.mk_mem_zipIdx_iff_le_and_getElem?_sub.2 here, if_pos rfl⟩

theorem dots_pairwise (start : Nat) (run : List Char) : (dots start run).Pairwise (· < ·) := by
  have indices : (run.zipIdx start).Pairwise fun x y => x.2 < y.2 := by
    rw [← List.pairwise_map, List.zipIdx_map_snd]
    exact List.pairwise_lt_range'
  refine List.pairwise_filterMap.2 (indices.imp fun lt o dot o' dot' => ?_)
  obtain ⟨-, same⟩ := Option.ite_none_right_eq_some.1 dot
  obtain ⟨-, same'⟩ := Option.ite_none_right_eq_some.1 dot'
  rw [← Option.some.inj same, ← Option.some.inj same']
  exact lt

/-- All but the smallest member of an ascending list. -/
theorem mem_tail_iff {l : List Nat} (up : l.Pairwise (· < ·)) {o : Nat} :
    o ∈ l.tail ↔ o ∈ l ∧ ∃ o' ∈ l, o' < o := by
  cases l with
  | nil => simp
  | cons a l =>
    have first := (List.pairwise_cons.1 up).1
    constructor
    · intro mem
      exact ⟨List.mem_cons_of_mem a mem, a, List.mem_cons_self, first o mem⟩
    · rintro ⟨mem, o', mem', lt⟩
      rcases List.mem_cons.1 mem with rfl | mem
      · rcases List.mem_cons.1 mem' with rfl | mem'
        · exact absurd lt (Nat.lt_irrefl _)
        · exact absurd lt (Nat.lt_asymm (first o' mem'))
      · exact mem

/-- A dot of the text stands in the token. -/
structure HasDot (text : List Char) (t : Token) (o : Nat) : Prop where
  start_le : t.start ≤ o
  lt_stop : o < t.stop
  dot : text[o]? = some '.'

/-- A dot of the token, and not the first one. -/
def RepeatsDot (text : List Char) (t : Token) (o : Nat) : Prop :=
  t.HasDot text o ∧ ∃ o', t.HasDot text o' ∧ o' < o

variable {text : List Char} {offset o : Nat}

/-- The dots of a token as it is spelt. -/
theorem readFrom_extraDots (text : List Char) (offset : Nat) :
    ∃ run, (readFrom text offset).extraDots = (dots (readFrom text offset).start run).tail ∧
      ∀ o, o ∈ dots (readFrom text offset).start run ↔ (readFrom text offset).HasDot text o := by
  unfold readFrom
  rcases HasWord.blank_or_exists (text.drop offset) with blanks | ⟨l, gap, c, body, tail, eq, word⟩
  · rw [next_blank blanks]
    refine ⟨[], rfl, fun o => ⟨nofun, fun h => ?_⟩⟩
    exact absurd (Nat.lt_of_le_of_lt h.start_le h.lt_stop) (Nat.lt_irrefl _)
  · have spelt : ∀ i, (c :: body)[i]?
        = if i < body.length + 1 then text[offset + gap.length + i]? else none := by
      intro i
      rw [Nat.add_assoc, ← List.getElem?_drop, eq, List.getElem?_append_right (Nat.le_add_right _ _),
        Nat.add_sub_cancel_left, ← List.cons_append]
      split
      · next lt => exact (List.getElem?_append_left lt).symm
      · next ge => exact List.getElem?_eq_none (Nat.not_lt.1 ge)
    rw [eq, next_word word]
    refine ⟨c :: body, rfl, fun o => mem_dots.trans ?_⟩
    dsimp only
    rw [spelt, Option.ite_none_right_eq_some]
    constructor
    · rintro ⟨le, lt, dot⟩
      rw [Nat.add_sub_cancel' le] at dot
      exact ⟨le, by dsimp only; omega, dot⟩
    · rintro ⟨le, lt, dot⟩
      dsimp only at le lt
      rw [Nat.add_sub_cancel' le]
      exact ⟨le, by omega, dot⟩

theorem mem_extraDots :
    o ∈ (readFrom text offset).extraDots ↔ (readFrom text offset).RepeatsDot text o := by
  obtain ⟨run, extra, all⟩ := readFrom_extraDots text offset
  simp only [extra, mem_tail_iff (dots_pairwise _ _), all, RepeatsDot]

theorem extraDots_pairwise (text : List Char) (offset : Nat) :
    (readFrom text offset).extraDots.Pairwise (· < ·) := by
  obtain ⟨run, extra, -⟩ := readFrom_extraDots text offset
  rw [extra]
  exact (dots_pairwise _ _).sublist (List.tail_sublist _)

theorem readFrom_start_ge (text : List Char) (offset : Nat) : offset ≤ (readFrom text offset).start := by
  unfold readFrom next
  split
  · exact Nat.le_add_right _ _
  · exact Nat.le_add_right _ _

theorem readFrom_start_le_stop (text : List Char) (offset : Nat) :
    (readFrom text offset).start ≤ (readFrom text offset).stop := by
  unfold readFrom next
  split
  · exact Nat.le_refl _
  · exact Nat.le_add_right _ _

end Token

/-- The offsets of the dots that repeat one, in the first `k` tokens. -/
def repeatedDots (text : List Char) (offset k : Nat) : List Nat :=
  (List.range k).flatMap fun i => (tokenAt text offset i).extraDots

theorem mem_repeatedDots {text : List Char} {offset k o : Nat} :
    o ∈ repeatedDots text offset k ↔ ∃ i < k, (tokenAt text offset i).RepeatsDot text o := by
  simp only [repeatedDots, List.mem_flatMap, List.mem_range, tokenAt, Token.mem_extraDots]

theorem tokenOffset_monotone (text : List Char) (offset : Nat) : Monotone (tokenOffset text offset) :=
  monotone_nat_of_le_succ fun _ =>
    (Token.readFrom_start_ge text _).trans (Token.readFrom_start_le_stop text _)

/-- Dots are met in the order of the text. -/
theorem repeatedDots_pairwise (text : List Char) (offset k : Nat) :
    (repeatedDots text offset k).Pairwise (· < ·) := by
  refine List.pairwise_flatMap.2 ⟨fun i _ => Token.extraDots_pairwise _ _, ?_⟩
  refine List.pairwise_lt_range.imp fun {i j} lt o dot o' dot' => ?_
  have before : o < tokenOffset text offset (i + 1) := (Token.mem_extraDots.1 dot).1.lt_stop
  have after : tokenOffset text offset j ≤ o' :=
    (Token.readFrom_start_ge text _).trans (Token.mem_extraDots.1 dot').1.start_le
  have upward : tokenOffset text offset (i + 1) ≤ tokenOffset text offset j :=
    tokenOffset_monotone text offset lt
  omega

end Abacus
