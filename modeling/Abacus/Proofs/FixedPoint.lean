import Mathlib.Data.List.TakeWhile
import Abacus.Number.Numeral
import Abacus.Token.Stream

/-!
# Numerals with a dot

The language writes a double as digits, one dot and more digits, and nothing else of what
`Numeral.readFloat?` knows: no sign, no space, no underscore, no exponent. Such a numeral is always
read, as the double nearest to the decimal it spells (`readFloat?_fixedPoint`), and every numeral with
a dot in a stream of tokens is of this kind (`Stream.read_float`).
-/

namespace Abacus

/-- A row of digits, a dot, and a row of digits. -/
structure FixedPoint where
  whole : List Char
  fraction : List Char
  whole_ne_nil : whole ≠ []
  whole_digits : ∀ c ∈ whole, c.isDigit = true
  fraction_digits : ∀ c ∈ fraction, c.isDigit = true

namespace FixedPoint

def text (p : FixedPoint) : List Char := p.whole ++ '.' :: p.fraction

/-- The double nearest to what the numeral spells. -/
def value (p : FixedPoint) : Float :=
  Decimal.nearest (Numeral.natOfDigits (p.whole ++ p.fraction)) (-p.fraction.length)

theorem isNumeralPart_of_mem (p : FixedPoint) {c : Char} (h : c ∈ p.text) :
    isNumeralPart c = true := by
  rcases List.mem_append.1 h with h | h
  · simp [isNumeralPart, p.whole_digits c h]
  · rcases List.mem_cons.1 h with rfl | h
    · rfl
    · simp [isNumeralPart, p.fraction_digits c h]

end FixedPoint

/-! ## Reading -/

namespace Numeral

/-- The characters of a double that is written with digits. -/
def isFloatPart (c : Char) : Bool := isNumeralPart c || c == '-' || c == '+' || c == 'e'

theorem isFloatPart_of_isNumeralPart {c : Char} (h : isNumeralPart c = true) : isFloatPart c = true := by
  simp [isFloatPart, h]

theorem toNat_of_isFloatPart {c : Char} (h : isFloatPart c = true) :
    43 ≤ c.toNat ∧ c.toNat ≤ 57 ∨ c.toNat = 101 := by
  simp only [isFloatPart, isNumeralPart, Bool.or_eq_true, beq_iff_eq] at h
  rcases h with (((digit | rfl) | rfl) | rfl) | rfl
  · have range : 48 ≤ c.toNat ∧ c.toNat ≤ 57 := Char.isDigit_iff_toNat.1 digit
    omega
  all_goals decide

theorem ne_of_isFloatPart {c d : Char} (h : isFloatPart c = true) (hd : isFloatPart d = false) : c ≠ d := by
  rintro rfl
  exact Bool.noConfusion (h.symm.trans hd)

theorem isNarrowSpace_of_isFloatPart {c : Char} (h : isFloatPart c = true) : isNarrowSpace c = false := by
  have range := toNat_of_isFloatPart h
  have ne : c ≠ ' ' := ne_of_isFloatPart h rfl
  simp only [isNarrowSpace, Bool.or_eq_false_iff, beq_eq_false_iff_ne, Bool.and_eq_false_iff,
    decide_eq_false_iff_not]
  exact ⟨ne, by omega⟩

theorem plainNumeralChar_of_isFloatPart {c : Char} (h : isFloatPart c = true) :
    plainNumeralChar c.toNat = c := by
  have range := toNat_of_isFloatPart h
  rw [plainNumeralChar, if_pos (by omega), Char.ofNat_toNat]

section Plain

variable {cs : List Char} (hcs : ∀ c ∈ cs, isFloatPart c = true)

include hcs

theorem plainNumeral_ofList : plainNumeral (Text.ofString (String.ofList cs)) = cs := by
  simp only [plainNumeral, Text.ofString, String.toList_ofList, List.map_map]
  refine (List.map_congr_left fun c hc => ?_).trans (List.map_id cs)
  exact plainNumeralChar_of_isFloatPart (hcs c hc)

theorem dropWhile_isNarrowSpace : cs.dropWhile isNarrowSpace = cs := by
  cases cs with
  | nil => rfl
  | cons c cs =>
    rw [List.dropWhile_cons_of_neg]
    simp [isNarrowSpace_of_isFloatPart (hcs c List.mem_cons_self)]

theorem trim_eq_self : trim cs = cs := by
  unfold trim
  rw [dropWhile_isNarrowSpace hcs, dropWhile_isNarrowSpace, List.reverse_reverse]
  exact fun c hc => hcs c (List.mem_reverse.1 hc)

theorem filter_underscore : cs.filter (· != '_') = cs := by
  refine List.filter_eq_self.2 fun c hc => ?_
  exact bne_iff_ne.2 (ne_of_isFloatPart (hcs c hc) rfl)

theorem underscoresOk_eq_true (before : Bool) : underscoresOk before cs = true := by
  induction cs generalizing before with
  | nil => rfl
  | cons c cs ih =>
    have ne : c ≠ '_' := ne_of_isFloatPart (hcs c List.mem_cons_self) rfl
    rw [underscoresOk]
    · exact ih (fun d hd => hcs d (List.mem_cons_of_mem _ hd)) _
    · rintro d rest rfl
      exact absurd rfl ne
    · rintro rfl
      exact absurd rfl ne

/-- A text with such characters only is read as it stands. -/
theorem readFloat?_ofList : readFloat? (String.ofList cs)
    = ((readDigits? (splitSign cs).2).orElse fun _ => readWord? (splitSign cs).2).map fun x =>
        if (splitSign cs).1 then -x else x := by
  simp only [readFloat?, plainNumeral_ofList hcs, trim_eq_self hcs, underscoresOk_eq_true hcs,
    filter_underscore hcs, if_true]

end Plain

theorem splitSign_of_isDigit {c : Char} (h : c.isDigit = true) (cs : List Char) :
    splitSign (c :: cs) = (false, c :: cs) := by
  unfold splitSign
  split
  · next minus =>
    cases minus
    cases h
  · next plus =>
    cases plus
    cases h
  · rfl

theorem readDigits?_fixedPoint (p : FixedPoint) : readDigits? p.text = some p.value := by
  have whole : p.text.takeWhile Char.isDigit = p.whole := by
    rw [FixedPoint.text, List.takeWhile_append_of_pos p.whole_digits,
      List.takeWhile_cons_of_neg (by decide), List.append_nil]
  have after : p.text.drop p.whole.length = '.' :: p.fraction := List.drop_left
  have fraction : p.fraction.takeWhile Char.isDigit = p.fraction :=
    List.takeWhile_eq_self_iff.2 p.fraction_digits
  have rest : p.fraction.dropWhile Char.isDigit = [] :=
    List.dropWhile_eq_nil_iff.2 p.fraction_digits
  have nonempty : p.whole.isEmpty = false := List.isEmpty_eq_false_iff.2 p.whole_ne_nil
  simp [readDigits?, whole, after, fraction, rest, nonempty, readExponent?, FixedPoint.value]

/-- Digits, a dot and digits are read as the nearest double. -/
theorem readFloat?_fixedPoint (p : FixedPoint) :
    readFloat? (String.ofList p.text) = some p.value := by
  have parts (c : Char) (mem : c ∈ p.text) : isFloatPart c = true :=
    isFloatPart_of_isNumeralPart (p.isNumeralPart_of_mem mem)
  have unsigned : splitSign p.text = (false, p.text) := by
    obtain ⟨c, cs, whole⟩ := List.exists_cons_of_ne_nil p.whole_ne_nil
    have digit : c.isDigit = true := p.whole_digits c (whole ▸ List.mem_cons_self)
    rw [FixedPoint.text, whole]
    exact splitSign_of_isDigit digit _
  rw [readFloat?_ofList parts, unsigned, readDigits?_fixedPoint]
  rfl

end Numeral

/-! ## The numerals of a stream -/

/-- A run that begins with a digit and has a dot is divided there, and has digits on both sides. -/
theorem Lexeme.ofNumeral_float {c : Char} {cs : List Char} {numeral : String}
    (digit : c.isDigit = true) (h : ofNumeral (c :: cs) = .float numeral) :
    ∃ p : FixedPoint, p.fraction ≠ [] ∧ numeral = String.ofList p.text := by
  unfold ofNumeral at h
  dsimp only at h
  split at h
  · cases h
  · next tail _ =>
    cases h
    have zero : ∀ d ∈ ['0'], d.isDigit = true := List.forall_mem_singleton.2 rfl
    refine ⟨⟨(c :: cs).takeWhile Char.isDigit,
      if (tail.filter Char.isDigit).isEmpty then ['0'] else tail.filter Char.isDigit, ?_, ?_, ?_⟩, ?_,
      rfl⟩
    · rw [List.takeWhile_cons_of_pos digit]
      exact List.cons_ne_nil _ _
    · exact fun d hd => List.mem_takeWhile_imp hd
    · split
      · exact zero
      · exact fun d hd => (List.mem_filter.1 hd).2
    · dsimp only
      split
      · exact List.cons_ne_nil _ _
      · next some => simpa using some

/-- A numeral with dots keeps only the first of them. -/
theorem Lexeme.ofHead_float {c : Char} {cs : List Char} {numeral : String}
    (h : (ofHead c cs).1 = .float numeral) : ∃ p : FixedPoint, numeral = String.ofList p.text := by
  unfold ofHead at h
  split at h
  · cases h
  · split at h
    · dsimp only [ofWord] at h
      split at h <;> cases h
    · split at h
      · cases h
      · split at h
        · next digit =>
          obtain ⟨p, -, eq⟩ := ofNumeral_float digit h
          exact ⟨p, eq⟩
        · cases h

theorem Token.next_float {offset : Nat} {rest : List Char} {numeral : String}
    (h : (next offset rest).1.lexeme = .float numeral) :
    ∃ p : FixedPoint, numeral = String.ofList p.text := by
  unfold next at h
  split at h
  · cases h
  · exact Lexeme.ofHead_float h

theorem Stream.read_float {offset : Nat} {rest : List Char} {t : Token} {numeral : String}
    (ht : t ∈ (read offset rest).tokens) (h : t.lexeme = .float numeral) :
    ∃ p : FixedPoint, numeral = String.ofList p.text := by
  fun_induction read offset rest with
  | case1 offset rest step ends => cases ht
  | case2 offset rest step more tail ih =>
    rcases List.mem_cons.1 ht with rfl | ht
    · exact Token.next_float h
    · exact ih ht

end Abacus
