import Mathlib
import Abacus.Proofs.Cut
import Abacus.Proofs.FixedPoint

/-!
# Words and their spelling

`Lexeme.Proper` lists the words that a text can have, apart from stray characters. A proper word is
spelt as its own text, and its text is read as that word (`Lexeme.Proper.spelt`); the words of a stream
are proper or stray (`Stream.proper_or_stray`).

`writeWords` puts words one after another, with a blank only where two of them would run together. What
it writes has exactly the words that it was given.
-/

namespace Abacus

/-- A name begins with a letter or an underscore, goes on with those and digits, and is not reserved. -/
def IsName (name : String) : Prop :=
  name ∉ reservedWords ∧
    ∃ c cs, name.toList = c :: cs ∧ isWordStart c = true ∧ ∀ d ∈ cs, isWordPart d = true

namespace Lexeme

/-- A word of the language that a text can have. -/
inductive Proper : Lexeme → Prop
  | semicolon : Proper .semicolon
  | keyword {word} (reserved : word ∈ reservedWords) : Proper (.keyword word)
  | operator {symbol} (known : symbol ∈ operatorTable) : Proper (.operator symbol)
  | identifier {name} (isName : IsName name) : Proper (.identifier name)
  | int {digits : String} (nonempty : digits.toList ≠ [])
      (digitsOnly : ∀ c ∈ digits.toList, c.isDigit = true) : Proper (.int digits)
  | float (p : FixedPoint) (fraction : p.fraction ≠ []) : Proper (.float (String.ofList p.text))

/-! ## A word is read from its text -/

theorem ofHead_letters {c : Char} {cs : List Char} (start : isWordStart c = true)
    (parts : ∀ d ∈ cs, isWordPart d = true) :
    ofHead c cs = (ofWord (String.ofList (c :: cs)), cs.length + 1) := by
  rw [ofHead_word start, List.takeWhile_eq_self_iff.2 parts, List.length_cons]

theorem isBlank_of_isWordStart {c : Char} (start : isWordStart c = true) : isBlank c = false := by
  refine Bool.eq_false_iff.2 fun blank => ?_
  have stops := (identifier "").endsBefore_of_isBlank blank
  simp [endsBefore, isWordPart, start] at stops

theorem not_special_of_isDigit {c : Char} (digit : c.isDigit = true) :
    isBlank c = false ∧ c ≠ ';' ∧ isWordStart c = false := by
  have range : 48 ≤ c.toNat ∧ c.toNat ≤ 57 := Char.isDigit_iff_toNat.1 digit
  have ne (d : Char) (outside : d.toNat < 48 ∨ 57 < d.toNat) : c ≠ d := by
    rintro rfl
    omega
  have noLetter : c.isAlpha = false := by
    simp [Char.isDigit, Char.isAlpha, Char.isUpper, Char.isLower, UInt32.le_iff_toNat_le] at digit ⊢
    omega
  refine ⟨?_, ne ';' (by decide), ?_⟩
  · simp [isBlank, ne ' ' (by decide), ne '\t' (by decide), ne '\r' (by decide), ne '\n' (by decide)]
  · simp [isWordStart, ne '_' (by decide), noLetter]

theorem ofHead_digits {c : Char} {cs : List Char} (digit : c.isDigit = true)
    (parts : ∀ d ∈ cs, isNumeralPart d = true) :
    ofHead c cs = (ofNumeral (c :: cs), cs.length + 1) := by
  obtain ⟨-, noSemicolon, noWord⟩ := not_special_of_isDigit digit
  rw [ofHead_numeral noSemicolon noWord (operatorAt?_digit digit cs) digit,
    List.takeWhile_eq_self_iff.2 parts, List.length_cons]

theorem ofNumeral_int {run : List Char} (digits : ∀ c ∈ run, c.isDigit = true) :
    ofNumeral run = int (String.ofList run) := by
  have whole : run.takeWhile Char.isDigit = run := List.takeWhile_eq_self_iff.2 digits
  have rest : run.dropWhile Char.isDigit = [] := List.dropWhile_eq_nil_iff.2 digits
  rw [ofNumeral, whole, rest]

theorem ofNumeral_fixedPoint (p : FixedPoint) (fraction : p.fraction ≠ []) :
    ofNumeral p.text = float (String.ofList p.text) := by
  have stop : ¬ '.'.isDigit = true := by decide
  have whole : p.text.takeWhile Char.isDigit = p.whole := by
    rw [FixedPoint.text, List.takeWhile_append_of_pos p.whole_digits, List.takeWhile_cons_of_neg stop,
      List.append_nil]
  have rest : p.text.dropWhile Char.isDigit = '.' :: p.fraction := by
    rw [FixedPoint.text, List.dropWhile_append_of_pos p.whole_digits, List.dropWhile_cons_of_neg stop]
  have kept : p.fraction.filter Char.isDigit = p.fraction := List.filter_eq_self.2 p.fraction_digits
  rw [ofNumeral, whole, rest]
  dsimp only
  rw [kept, if_neg (by simpa using fraction), FixedPoint.text]

/-- A proper word is spelt as its text, and its text is read as that word. -/
theorem Proper.spelt {l : Lexeme} (h : l.Proper) :
    ∃ c body, l.value.toList = c :: body ∧ isBlank c = false ∧
      ofHead c body = (l, body.length + 1) := by
  cases h with
  | semicolon => exact ⟨';', [], by decide, by decide, rfl⟩
  | @keyword word reserved =>
    have all : ∀ word ∈ reservedWords, word.toList.head?.any isWordStart = true ∧
        word.toList.all isWordPart = true := by decide
    obtain ⟨start, parts⟩ := all word reserved
    match chars : word.toList with
    | [] =>
      rw [chars] at start
      cases start
    | c :: body =>
      rw [chars] at start parts
      have start : isWordStart c = true := by simpa using start
      refine ⟨c, body, rfl, isBlank_of_isWordStart start, ?_⟩
      have text : String.ofList (c :: body) = word := by rw [← chars, String.ofList_toList]
      rw [ofHead_letters start (by simp_all), text, ofWord, if_pos reserved]
  | @operator symbol known =>
    have all : ∀ symbol ∈ operatorTable,
        symbol.toList.head?.map (fun c => (isBlank c, ofHead c symbol.toList.tail))
          = some (false, Lexeme.operator symbol, symbol.toList.length) := by decide
    have here := all symbol known
    match chars : symbol.toList with
    | [] =>
      rw [chars] at here
      cases here
    | c :: body =>
      rw [chars] at here
      simp only [List.head?_cons, Option.map_some, List.tail_cons, Option.some.injEq,
        Prod.mk.injEq] at here
      exact ⟨c, body, rfl, here.1, here.2⟩
  | @identifier name isName =>
    obtain ⟨free, c, body, chars, start, parts⟩ := isName
    refine ⟨c, body, chars, isBlank_of_isWordStart start, ?_⟩
    have text : String.ofList (c :: body) = name := by rw [← chars, String.ofList_toList]
    rw [ofHead_letters start parts, text, ofWord, if_neg free]
  | @int digits nonempty digitsOnly =>
    match chars : digits.toList with
    | [] => exact absurd chars nonempty
    | c :: body =>
      rw [chars] at digitsOnly
      have digit := digitsOnly c List.mem_cons_self
      refine ⟨c, body, rfl, (not_special_of_isDigit digit).1, ?_⟩
      have parts : ∀ d ∈ body, isNumeralPart d = true := fun d hd => by
        simp [isNumeralPart, digitsOnly d (List.mem_cons_of_mem _ hd)]
      have text : String.ofList (c :: body) = digits := by rw [← chars, String.ofList_toList]
      rw [ofHead_digits digit parts, ofNumeral_int digitsOnly, text]
  | float p fraction =>
    match chars : p.text with
    | [] => simp [FixedPoint.text] at chars
    | c :: body =>
      have digit : c.isDigit = true := by
        match whole : p.whole with
        | [] => exact absurd whole p.whole_ne_nil
        | d :: ds =>
          rw [FixedPoint.text, whole] at chars
          obtain ⟨rfl, -⟩ := List.cons.inj chars
          exact p.whole_digits d (whole ▸ List.mem_cons_self)
      have parts : ∀ d ∈ body, isNumeralPart d = true := fun d hd =>
        p.isNumeralPart_of_mem (chars ▸ List.mem_cons_of_mem _ hd)
      refine ⟨c, body, String.toList_ofList, (not_special_of_isDigit digit).1, ?_⟩
      rw [ofHead_digits digit parts, ← chars, ofNumeral_fixedPoint p fraction]

/-! ## What is read is proper or stray -/

theorem ofWord_proper {c : Char} {cs : List Char} (start : isWordStart c = true)
    (parts : ∀ d ∈ cs, isWordPart d = true) : (ofWord (String.ofList (c :: cs))).Proper := by
  unfold ofWord
  split
  · next reserved => exact .keyword reserved
  · next free => exact .identifier ⟨free, c, cs, String.toList_ofList, start, parts⟩

/-- A run of digits and dots is an integer, or a numeral with one dot. -/
theorem ofNumeral_proper {c : Char} (cs : List Char) (digit : c.isDigit = true) :
    (ofNumeral (c :: cs)).Proper := by
  cases eq : ofNumeral (c :: cs) with
  | float numeral =>
    obtain ⟨p, fraction, rfl⟩ := ofNumeral_float digit eq
    exact .float p fraction
  | int digits =>
    unfold ofNumeral at eq
    dsimp only at eq
    split at eq
    · cases eq
      refine .int ?_ fun d hd => ?_
      · rw [String.toList_ofList, List.takeWhile_cons_of_pos digit]
        exact List.cons_ne_nil _ _
      · rw [String.toList_ofList] at hd
        exact List.mem_takeWhile_imp hd
    · cases eq
  | _ =>
    unfold ofNumeral at eq
    dsimp only at eq
    split at eq <;> cases eq

theorem ofHead_proper_or_stray (c : Char) (cs : List Char) :
    (ofHead c cs).1.Proper ∨ ∃ d, (ofHead c cs).1 = stray d := by
  unfold ofHead
  split
  · exact .inl .semicolon
  · split
    · next start => exact .inl (ofWord_proper start fun _ => List.mem_takeWhile_imp)
    · split
      · next symbol found => exact .inl (.operator (List.mem_of_find?_eq_some found))
      · split
        · next digit => exact .inl (ofNumeral_proper _ digit)
        · exact .inr ⟨c, rfl⟩

end Lexeme

theorem Cut.proper_or_stray {words : List Lexeme} {a b : List Char} (h : Cut words a b) :
    ∀ l ∈ words, l.Proper ∨ ∃ d, l = .stray d := by
  induction h with
  | blank _ => exact nofun
  | @word l gap c body words a b word _ ih =>
    refine List.forall_mem_cons.2 ⟨?_, ih⟩
    have kind := Lexeme.ofHead_proper_or_stray c body
    rwa [word.spelling] at kind

/-- The words of a stream are proper or stray. -/
theorem Stream.proper_or_stray (offset : Nat) (text : List Char) :
    ∀ l ∈ (read offset text).lexemes, l.Proper ∨ ∃ d, l = .stray d := by
  obtain ⟨a, b, -, cut, -⟩ := cut_of_split (List.append_nil (read offset text).tokens).symm
  exact cut.proper_or_stray

/-! ## Writing words -/

/-- What stands between two words: nothing, if the second one does not prolong the first. -/
def blankBetween (l r : Lexeme) : List Char :=
  if r.value.toList.head?.all l.endsBefore then [] else [' ']

/-- The words one after another, with blanks only where they would run together. -/
def writeWords : List Lexeme → List Char
  | [] => []
  | [l] => l.value.toList
  | l :: r :: rest => l.value.toList ++ (blankBetween l r ++ writeWords (r :: rest))

theorem isBlank_of_mem_blankBetween {l r : Lexeme} {c : Char} (h : c ∈ blankBetween l r) :
    isBlank c = true := by
  unfold blankBetween at h
  split at h
  · cases h
  · cases List.mem_singleton.1 h
    rfl

theorem head?_writeWords {l : Lexeme} (h : l.Proper) (rest : List Lexeme) :
    (writeWords (l :: rest)).head? = l.value.toList.head? := by
  obtain ⟨c, body, chars, -⟩ := h.spelt
  cases rest with
  | nil => rfl
  | cons r rest =>
    rw [writeWords, chars]
    rfl

/-- A word is over where the next one is written. -/
theorem endsBefore_blankBetween {l r : Lexeme} (h : r.Proper) (rest : List Lexeme) :
    ∀ d, (blankBetween l r ++ writeWords (r :: rest)).head? = some d → l.endsBefore d = true := by
  intro d hd
  unfold blankBetween at hd
  split at hd
  · next stops =>
    rw [List.nil_append, head?_writeWords h] at hd
    rw [hd] at stops
    exact stops
  · cases hd
    exact l.endsBefore_of_isBlank rfl

/-- By recursion on the words. A blank stands where the next word would be read as part of the one before.
-/
theorem cut_writeWords {words : List Lexeme} (proper : ∀ l ∈ words, l.Proper) :
    Cut words (writeWords words) [] := by
  induction words with
  | nil => exact .blank (List.forall_mem_nil _)
  | cons l rest ih =>
    have ih := ih fun r hr => proper r (List.mem_cons_of_mem _ hr)
    obtain ⟨c, body, chars, solid, spelling⟩ := (proper l List.mem_cons_self).spelt
    cases rest with
    | nil =>
      have word : HasWord l [] c body ([] ++ []) := ⟨List.forall_mem_nil _, solid, spelling, nofun⟩
      have cut := Cut.word word ih
      rw [List.nil_append, ← List.cons_append, ← chars, List.append_nil] at cut
      exact cut
    | cons r rest =>
      have cut := ih.after_blanks fun c => isBlank_of_mem_blankBetween (l := l) (r := r) (c := c)
      have stops := endsBefore_blankBetween (l := l) (proper r (by simp)) rest
      have word : HasWord l [] c body (blankBetween l r ++ writeWords (r :: rest) ++ []) := by
        rw [List.append_nil]
        exact ⟨List.forall_mem_nil _, solid, spelling, stops⟩
      have whole := Cut.word word cut
      rwa [List.nil_append, ← List.cons_append, ← chars] at whole

/-- What is written has the words it was given. -/
theorem lexemes_writeWords {words : List Lexeme} (proper : ∀ l ∈ words, l.Proper) (offset : Nat) :
    (Stream.read offset (writeWords words)).lexemes = words := by
  have cut := (cut_writeWords proper).lexemes_eq offset offset
  have none : (Stream.read offset []).lexemes = [] := by
    rw [Stream.read_blank (List.forall_mem_nil _)]
    rfl
  rwa [List.append_nil, none, List.append_nil] at cut

end Abacus
