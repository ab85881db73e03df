import Mathlib
import Abacus.Json.Reader
import Abacus.Json.Writer
import Abacus.Proofs.Sorts

/-!
# Strings, words and numbers in JSON

What the writer makes of a string, a word or a number is what the reader takes from the text, and nothing
that may follow a value changes that. A string is read up to its closing quote, one character or escape at
a time. A word or a number is read on its own first (`Reads` with nothing left), and then where a value
ends: what follows is no part of it (`scanScalar_append`).

That a double is read back from its shortest digits is not shown here, but assumed of the doubles in
question (`ReadsBack`). What is shown is that the text of a double has no characters but those of numbers
and words.
-/

namespace Abacus

namespace Json

variable {α : Type} {n : Nat}

/-- What was read, and the text that is left. Offsets matter to faults only. -/
def Reads (outcome : Except JsonFault (Scanned α n)) (value : α) (rest : List Char) : Prop :=
  ∃ s, outcome = .ok s ∧ s.value = value ∧ s.next.rest = rest

/-! ## Spaces -/

/-- The characters that may stand between the parts of a value. -/
def isSpace (x : Char) : Bool := x == ' ' || x == '\t' || x == '\n' || x == '\r'

theorem rest_skipSpaces {c : Cursor} {spaces rest : List Char} (hc : c.rest = spaces ++ rest)
    (blank : ∀ x ∈ spaces, isSpace x = true) (stops : ∀ x ∈ rest.head?, isSpace x = false) :
    c.skipSpaces.rest = rest := by
  have nothing : rest.takeWhile isSpace = [] := by
    cases rest with
    | nil => rfl
    | cons x rest => exact List.takeWhile_cons_of_neg (by simp [stops x rfl])
  have taken : c.rest.takeWhile isSpace = spaces := by
    rw [hc, List.takeWhile_append_of_pos blank, nothing, List.append_nil]
  show c.rest.drop (c.rest.takeWhile isSpace).length = rest
  rw [taken, hc, List.drop_left]

/-! ## Strings -/

/-- Control characters are read from their numbers. -/
theorem hex4?_hexPadded {number : Nat} (h : number < 0x20) {more : List Char} (follows : more ≠ []) :
    hex4? ((hexPadded 4 number).toList ++ more) = some number := by
  obtain ⟨x, xs, rfl⟩ := List.exists_cons_of_ne_nil follows
  rw [hexPadded, String.toList_ofList]
  interval_cases number <;> rfl

theorem length_hexPadded {number : Nat} (h : number < 0x20) : (hexPadded 4 number).toList.length = 4 := by
  rw [hexPadded, String.toList_ofList]
  interval_cases number <;> rfl

/-- A character is written as an escape by letter, as one by number, or as it is. -/
theorem writeChar_cases (x : Char) :
    (∃ letter, (writeChar x).toList = ['\\', letter] ∧ letterEscape? letter = some x) ∨
      (x.toNat < 0x20 ∧ (writeChar x).toList = '\\' :: 'u' :: (hexPadded 4 x.toNat).toList) ∨
      (x ≠ '"' ∧ x ≠ '\\' ∧ ¬ x.toNat < 0x20 ∧ (writeChar x).toList = [x]) := by
  unfold writeChar
  split_ifs with quote slash newline ret tab back feed control
  · exact .inl ⟨'"', rfl, congrArg some quote.symm⟩
  · exact .inl ⟨'\\', rfl, congrArg some slash.symm⟩
  · exact .inl ⟨'n', rfl, congrArg some newline.symm⟩
  · exact .inl ⟨'r', rfl, congrArg some ret.symm⟩
  · exact .inl ⟨'t', rfl, congrArg some tab.symm⟩
  · exact .inl ⟨'b', rfl, congrArg some back.symm⟩
  · exact .inl ⟨'f', rfl, congrArg some feed.symm⟩
  · exact .inr (.inl ⟨control, by rw [String.toList_append]; rfl⟩)
  · exact .inr (.inr ⟨quote, slash, control, by simp⟩)

section Strings

variable {opened bound : Nat} {done : List CodePoint} {c : Cursor} {h : c.size ≤ bound} {value : Text}
  {rest : List Char}

theorem scanString_quote (hc : c.rest = '"' :: rest) :
    Reads (scanString opened done c h) ⟨done.reverse⟩ rest := by
  unfold scanString
  split
  · next none => cases hc.symm.trans none
  · next some =>
    cases hc.symm.trans some
    exact ⟨_, rfl, rfl, by simp [Cursor.drop, hc]⟩

theorem scanString_plain {x : Char} {more : List Char} (hc : c.rest = x :: more) (quote : x ≠ '"')
    (slash : x ≠ '\\') (control : ¬ x.toNat < 0x20)
    (next : ∀ (c' : Cursor) (h' : c'.size ≤ bound), c'.rest = more →
      Reads (scanString opened (.ofChar x :: done) c' h') value rest) :
    Reads (scanString opened done c h) value rest := by
  unfold scanString
  split
  · next none => cases hc.symm.trans none
  · next some =>
    cases hc.symm.trans some
    rw [if_neg quote, if_neg slash, if_neg control]
    exact next _ _ (by simp [Cursor.drop, hc])

theorem scanString_escape {point : CodePoint} {length : Nat} {more : List Char}
    (hc : c.rest = '\\' :: more) (escaped : escape? opened (c.drop 1) = .ok (point, length))
    (next : ∀ (c' : Cursor) (h' : c'.size ≤ bound), c'.rest = more.drop length →
      Reads (scanString opened (point :: done) c' h') value rest) :
    Reads (scanString opened done c h) value rest := by
  unfold scanString
  split
  · next none => cases hc.symm.trans none
  · next some =>
    cases hc.symm.trans some
    rw [if_neg (by decide), if_pos rfl]
    simp only [escaped]
    exact next _ _ (by simp [Cursor.drop, hc, Nat.add_comm 1])

theorem escape?_letter {letter x : Char} {more : List Char} (hc : c.rest = letter :: more)
    (escapes : letterEscape? letter = some x) : escape? opened c = .ok (.ofChar x, 1) := by
  have other : letter ≠ 'u' := by
    rintro rfl
    cases escapes
  unfold escape?
  rw [hc]
  split
  · next none => cases none
  · next numbered =>
    cases numbered
    exact absurd rfl other
  · next letters =>
    cases letters
    rw [escapes]

theorem escape?_control {x : Char} (control : x.toNat < 0x20) {more : List Char} (follows : more ≠ [])
    (hc : c.rest = 'u' :: ((hexPadded 4 x.toNat).toList ++ more)) :
    escape? opened c = .ok (.ofChar x, 5) := by
  have same : CodePoint.ofNat x.toNat = .ofChar x := by
    have small : x.toNat < 0x110000 := by omega
    rw [CodePoint.ofNat, dif_pos small]
    rfl
  have low : isHighSurrogate x.toNat = false := by
    rw [isHighSurrogate, decide_eq_false (by omega), Bool.false_and]
  have numbered : escape? opened c = codeEscape? c := by
    rw [escape?, hc]
    rfl
  rw [numbered, codeEscape?, hc, List.drop_one, List.tail_cons, hex4?_hexPadded control follows]
  simp only [low, same]

/-- One character is read as it was written. -/
theorem scanString_writeChar (x : Char) {more : List Char} (follows : more ≠ [])
    (hc : c.rest = (writeChar x).toList ++ more)
    (next : ∀ (c' : Cursor) (h' : c'.size ≤ bound), c'.rest = more →
      Reads (scanString opened (.ofChar x :: done) c' h') value rest) :
    Reads (scanString opened done c h) value rest := by
  rcases writeChar_cases x with ⟨letter, written, escapes⟩ | ⟨control, written⟩ |
    ⟨quote, slash, control, written⟩ <;> rw [written] at hc
  · have after : (c.drop 1).rest = letter :: more := by simp [Cursor.drop, hc]
    exact scanString_escape hc (escape?_letter after escapes) next
  · have after : (c.drop 1).rest = 'u' :: ((hexPadded 4 x.toNat).toList ++ more) := by
      simp [Cursor.drop, hc]
    have skipped : ('u' :: ((hexPadded 4 x.toNat).toList ++ more)).drop 5 = more := by
      rw [List.drop_succ_cons, List.drop_left' (length_hexPadded control)]
    refine scanString_escape hc (escape?_control control follows after) fun c' h' hc' => ?_
    exact next c' h' (hc'.trans skipped)
  · exact scanString_plain hc quote slash control next

theorem scanString_writeString {chars : List Char}
    (hc : c.rest = chars.flatMap (fun x => (writeChar x).toList) ++ '"' :: rest) :
    Reads (scanString opened done c h) ⟨done.reverse ++ chars.map .ofChar⟩ rest := by
  induction chars generalizing done c with
  | nil =>
    rw [List.map_nil, List.append_nil]
    exact scanString_quote hc
  | cons x chars ih =>
    rw [List.flatMap_cons, List.append_assoc] at hc
    refine scanString_writeChar x (by simp) hc fun c' h' hc' => ?_
    have read : Reads (scanString opened (.ofChar x :: done) c' h') _ rest := ih hc'
    rwa [List.reverse_cons, List.append_assoc] at read

end Strings

/-! ## Scalars -/

/-- What can come after a value: nothing, the end of a part or the end of a list or an object. -/
def Ends (rest : List Char) : Prop := ∀ x ∈ rest.head?, x ∈ [',', '\n', ']', '\x7d']

theorem Ends.cases {x : Char} {rest : List Char} (ends : Ends rest) (head : x ∈ rest.head?) :
    x = ',' ∨ x = '\n' ∨ x = ']' ∨ x = '\x7d' := by
  simpa using ends x head

theorem Ends.not_digit {rest : List Char} (ends : Ends rest) : ∀ x ∈ rest.head?, x.isDigit = false := by
  intro x head
  rcases ends.cases head with rfl | rfl | rfl | rfl <;> rfl

theorem takeWhile_append_of_head {p : Char → Bool} {rest : List Char}
    (fails : ∀ x ∈ rest.head?, p x = false) (text : List Char) :
    (text ++ rest).takeWhile p = text.takeWhile p := by
  have nothing : rest.takeWhile p = [] := by
    cases rest with
    | nil => rfl
    | cons x rest => exact List.takeWhile_cons_of_neg (by simp [fails x rfl])
  rw [List.takeWhile_append, nothing, List.append_nil]
  split
  · next all => exact (List.takeWhile_prefix p).eq_of_length all |>.symm
  · rfl

/-- A word is not completed by what follows the text, if that begins with a character the word has not. -/
theorem isPrefixOf_append_of_head {word : List Char} {rest : List Char}
    (fails : ∀ x ∈ rest.head?, x ∉ word) (text : List Char) :
    word.isPrefixOf (text ++ rest) = word.isPrefixOf text := by
  induction word generalizing text with
  | nil => simp
  | cons x word ih =>
    cases text with
    | nil =>
      cases rest with
      | nil => rfl
      | cons y rest =>
        have differ : x ≠ y := fun same => fails y rfl (same ▸ List.mem_cons_self)
        simp [List.isPrefixOf, differ]
    | cons y text =>
      have inside := ih (fun z head mem => fails z head (List.mem_cons_of_mem x mem)) text
      simp only [List.cons_append, List.isPrefixOf, inside]

theorem head?_append_iff {rest : List Char} (ends : Ends rest) {x : Char}
    (other : x ∉ [',', '\n', ']', '\x7d']) (text : List Char) :
    (text ++ rest).head? = some x ↔ text.head? = some x := by
  cases text with
  | nil =>
    have never : rest.head? ≠ some x := fun head => other (ends x head)
    simp [never]
  | cons y text => simp

namespace NumberText

variable {rest : List Char}

theorem wholeOf_eq (text : List Char) :
    wholeOf text = if text.head? = some '0' then ['0'] else text.takeWhile Char.isDigit := by
  unfold wholeOf
  split
  · rfl
  · next other =>
    rw [if_neg]
    intro zero
    obtain ⟨more, rfl⟩ := List.head?_eq_some_iff.1 zero
    exact other more rfl

theorem fractionOf_eq (text : List Char) :
    fractionOf text
      = if text.head? = some '.' ∧ text.tail.takeWhile Char.isDigit ≠ [] then
          '.' :: text.tail.takeWhile Char.isDigit
        else [] := by
  unfold fractionOf
  split
  · next more =>
    cases digits : more.takeWhile Char.isDigit <;> simp [digits]
  · next other =>
    rw [if_neg]
    rintro ⟨dot, -⟩
    obtain ⟨more, rfl⟩ := List.head?_eq_some_iff.1 dot
    exact other more rfl

theorem length_wholeOf_le (text : List Char) : (wholeOf text).length ≤ text.length := by
  rw [wholeOf_eq]
  split
  · next zero =>
    obtain ⟨more, rfl⟩ := List.head?_eq_some_iff.1 zero
    simp
  · exact (List.takeWhile_prefix _).length_le

theorem length_fractionOf_le (text : List Char) : (fractionOf text).length ≤ text.length := by
  rw [fractionOf_eq]
  split
  · next dot =>
    obtain ⟨more, rfl⟩ := List.head?_eq_some_iff.1 dot.1
    exact Nat.succ_le_succ (List.takeWhile_prefix _).length_le
  · exact Nat.zero_le _

/-- The sign of an exponent is part of the text. -/
theorem length_sign_le (text : List Char) :
    ((text.take 1).filter fun c => c == '+' || c == '-').length ≤ text.length :=
  (List.length_filter_le _ _).trans (List.length_take_le' 1 text)

theorem length_exponentOf_le (text : List Char) : (exponentOf text).length ≤ text.length := by
  unfold exponentOf
  split
  · exact Nat.le_refl 0
  · next mark text =>
    have taken := length_sign_le text
    generalize (text.take 1).filter (fun c => c == '+' || c == '-') = s at taken ⊢
    have digits := (List.takeWhile_prefix Char.isDigit (l := text.drop s.length)).length_le
    rw [List.length_drop] at digits
    dsimp only
    split
    · simp only [List.cons_append, List.length_cons, List.length_append]
      omega
    · exact Nat.zero_le _

/-- The sign of a number is part of the text. -/
theorem toNat_negative_le (text : List Char) : (text.head? == some '-').toNat ≤ text.length := by
  cases text with
  | nil => exact Nat.le_refl 0
  | cons x text => exact (Bool.toNat_le _).trans (Nat.succ_le_succ (Nat.zero_le _))

theorem length_ofText_le (text : List Char) : (ofText text).length ≤ text.length := by
  have negative := toNat_negative_le text
  have body := List.length_drop (i := (text.head? == some '-').toNat) (l := text)
  simp only [length, magnitude, ofText, List.length_append] at body ⊢
  generalize text.drop _ = body' at body ⊢
  have whole := length_wholeOf_le body'
  have fraction := length_fractionOf_le (body'.drop (wholeOf body').length)
  have exponent := length_exponentOf_le
    (body'.drop ((wholeOf body').length + (fractionOf (body'.drop (wholeOf body').length)).length))
  simp only [List.length_drop] at fraction exponent
  omega

theorem wholeOf_append (ends : Ends rest) (text : List Char) : wholeOf (text ++ rest) = wholeOf text := by
  rw [wholeOf_eq, wholeOf_eq, takeWhile_append_of_head ends.not_digit]
  simp only [head?_append_iff ends (x := '0') (by simp)]

theorem fractionOf_append (ends : Ends rest) (text : List Char) :
    fractionOf (text ++ rest) = fractionOf text := by
  rw [fractionOf_eq, fractionOf_eq]
  simp only [head?_append_iff ends (x := '.') (by simp)]
  cases text with
  | nil => simp
  | cons x text =>
    rw [List.cons_append, List.tail_cons, List.tail_cons,
      takeWhile_append_of_head ends.not_digit]

/-- The sign of an exponent is not found in what comes after the text. -/
theorem sign_append (ends : Ends rest) (text : List Char) :
    ((text ++ rest).take 1).filter (fun c => c == '+' || c == '-')
      = (text.take 1).filter fun c => c == '+' || c == '-' := by
  cases text with
  | nil =>
    cases rest with
    | nil => rfl
    | cons x rest =>
      rcases ends.cases rfl with rfl | rfl | rfl | rfl <;> rfl
  | cons x text => rfl

theorem exponentOf_append (ends : Ends rest) (text : List Char) :
    exponentOf (text ++ rest) = exponentOf text := by
  cases text with
  | nil =>
    cases rest with
    | nil => rfl
    | cons x rest =>
      rcases ends.cases rfl with rfl | rfl | rfl | rfl <;> rfl
  | cons mark text =>
    simp only [List.cons_append, exponentOf, sign_append ends,
      List.drop_append_of_le_length (length_sign_le text), takeWhile_append_of_head ends.not_digit]

theorem ofText_append (ends : Ends rest) (text : List Char) : ofText (text ++ rest) = ofText text := by
  have negative : ((text ++ rest).head? == some '-') = (text.head? == some '-') := by
    rw [Bool.eq_iff_iff, beq_iff_eq, beq_iff_eq, head?_append_iff ends (by simp)]
  simp only [ofText, negative, List.drop_append_of_le_length (toNat_negative_le text)]
  generalize text.drop _ = body
  have whole := length_wholeOf_le body
  have fraction := length_fractionOf_le (body.drop (wholeOf body).length)
  have both : (wholeOf body ++ fractionOf (body.drop (wholeOf body).length)).length ≤ body.length := by
    rw [List.length_drop] at fraction
    rw [List.length_append]
    omega
  simp only [wholeOf_append ends, List.drop_append_of_le_length whole, fractionOf_append ends,
    List.drop_append_of_le_length both, exponentOf_append ends]

end NumberText

/-- How long the word or the number at the beginning of a text is, and what it is. -/
def scalarAt (text : List Char) : Nat × Except JsonFault Json :=
  match words.find? fun (word, _) => word.toList.isPrefixOf text with
  | some (word, value) => (word.length, .ok value)
  | none =>
    let number := NumberText.ofText text
    (if number.whole.isEmpty then 0 else number.length, number.value)

theorem length_scalarAt_le (text : List Char) : (scalarAt text).1 ≤ text.length := by
  unfold scalarAt
  split
  · next word value found =>
    have isPrefix := List.find?_some found
    rw [List.isPrefixOf_iff_prefix] at isPrefix
    exact isPrefix.length_le
  · dsimp only
    split
    · exact Nat.zero_le _
    · exact NumberText.length_ofText_le text

/-- No word has a character that ends a value. -/
theorem not_mem_word {rest : List Char} (ends : Ends rest) {entry : String × Json} (known : entry ∈ words) :
    ∀ x ∈ rest.head?, x ∉ entry.1.toList := by
  have apart : (words.map Prod.fst).all
      (fun word => [',', '\n', ']', '\x7d'].all fun x => !word.toList.contains x) = true := by decide
  intro x head mem
  have clear := List.all_eq_true.1
    (List.all_eq_true.1 apart entry.1 (List.mem_map_of_mem known)) x (ends x head)
  simp [mem] at clear

theorem scalarAt_append {rest : List Char} (ends : Ends rest) (text : List Char) :
    scalarAt (text ++ rest) = scalarAt text := by
  have same : words.find? (fun (word, _) => word.toList.isPrefixOf (text ++ rest))
      = words.find? fun (word, _) => word.toList.isPrefixOf text :=
    List.find?_congr fun _ known => isPrefixOf_append_of_head (not_mem_word ends known) text
  rw [scalarAt, scalarAt, NumberText.ofText_append ends, same]

/-- What is read of a scalar depends on the characters ahead alone, not on where the cursor stands. -/
theorem reads_scanScalar_iff {c : Cursor} {value : Json} {rest : List Char} :
    Reads (scanScalar c) value rest ↔
      0 < (scalarAt c.rest).1 ∧ (scalarAt c.rest).2 = .ok value ∧
        c.rest.drop (scalarAt c.rest).1 = rest := by
  have fits := length_scalarAt_le c.rest
  have scan : scanScalar c
      = if h : 0 < (scalarAt c.rest).1 ∧ 0 < c.size then
          (scalarAt c.rest).2.map fun value =>
            ⟨value, c.drop (scalarAt c.rest).1, by rw [Cursor.size_drop]; omega⟩
        else .error (.rejected .value c.offset) := rfl
  rw [scan]
  split
  · next positive =>
    cases (scalarAt c.rest).2 with
    | error fault => simp [Reads, Except.map]
    | ok found => simp [Reads, Except.map, Cursor.drop, positive.1]
  · next nothing =>
    have size : c.size = c.rest.length := rfl
    constructor
    · rintro ⟨s, none, -⟩
      cases none
    · rintro ⟨positive, -⟩
      omega

/-- A word or a number that is read on its own is read where a value ends. -/
theorem scanScalar_append {text rest : List Char} {value : Json} {c : Cursor}
    (reads : Reads (scanScalar ⟨0, text⟩) value []) (ends : Ends rest) (hc : c.rest = text ++ rest) :
    Reads (scanScalar c) value rest := by
  rw [reads_scanScalar_iff] at reads
  obtain ⟨positive, found, whole⟩ := reads
  have all : (scalarAt text).1 = text.length :=
    (length_scalarAt_le text).antisymm (List.drop_eq_nil_iff.1 whole)
  rw [reads_scanScalar_iff, hc, scalarAt_append ends]
  exact ⟨positive, found, by rw [all, List.drop_left]⟩

/-! ### Integers -/

/-- What is made of digits and signs is no word. -/
theorem find?_words_eq_none {text : List Char} (numeral : ∀ x ∈ text, x.isDigit = true ∨ x = '-') :
    words.find? (fun (word, _) => word.toList.isPrefixOf text) = none := by
  have lettered : (words.map Prod.fst).all (fun word => word.toList.any fun x => !x.isDigit && x != '-')
      = true := by decide
  refine List.find?_eq_none.2 fun entry known isPrefix => ?_
  obtain ⟨x, mem, letter⟩ := List.any_eq_true.1
    (List.all_eq_true.1 lettered entry.1 (List.mem_map_of_mem known))
  have sub := (List.isPrefixOf_iff_prefix.1 isPrefix).subset mem
  rcases numeral x sub with digit | rfl
  · simp [digit] at letter
  · simp at letter

theorem head?_toDigits {m : Nat} (positive : 0 < m) : (Nat.toDigits 10 m).head? ≠ some '0' := by
  induction m using Nat.strongRecOn with
  | _ m ih =>
    by_cases small : m < 10
    · rw [Nat.toDigits_of_lt_base small]
      interval_cases m <;> decide
    · obtain ⟨first, more, digits⟩ :=
        List.exists_cons_of_ne_nil (Nat.toDigits_ne_nil (n := m / 10) (b := 10))
      have before := ih (m / 10) (by omega) (by omega)
      rw [digits] at before
      rw [Nat.toDigits_of_base_le (by decide) (Nat.not_lt.1 small), digits]
      exact before

theorem wholeOf_toDigits (m : Nat) : NumberText.wholeOf (Nat.toDigits 10 m) = Nat.toDigits 10 m := by
  rcases Nat.eq_zero_or_pos m with rfl | positive
  · rfl
  · rw [NumberText.wholeOf_eq, if_neg (head?_toDigits positive)]
    exact List.takeWhile_eq_self_iff.2 fun c => Nat.isDigit_of_mem_toDigits (by decide) (by decide)

theorem toList_toString_int (i : Int) :
    (toString i).toList = (if i < 0 then ['-'] else []) ++ Nat.toDigits 10 i.natAbs := by
  cases i with
  | ofNat m => exact Nat.toList_repr
  | negSucc m =>
    show ("-" ++ m.succ.repr).toList = _
    rw [String.toList_append, Nat.toList_repr, if_pos (Int.negSucc_lt_zero m)]
    rfl

/-- The parts of an integer as it is written: a sign and digits, no fraction and no exponent. -/
theorem ofText_toString_int (i : Int) :
    NumberText.ofText (toString i).toList = ⟨decide (i < 0), Nat.toDigits 10 i.natAbs, [], []⟩ := by
  have head : ((toString i).toList.head? == some '-') = decide (i < 0) := by
    obtain ⟨first, more, digits⟩ :=
      List.exists_cons_of_ne_nil (Nat.toDigits_ne_nil (n := i.natAbs) (b := 10))
    have digit : first.isDigit = true :=
      Nat.isDigit_of_mem_toDigits (by decide) (by decide) (digits ▸ List.mem_cons_self)
    have unsigned : first ≠ '-' := by
      rintro rfl
      cases digit
    rw [toList_toString_int, digits]
    by_cases negative : i < 0 <;> simp [negative, unsigned]
  have body : (toString i).toList.drop (decide (i < 0)).toNat = Nat.toDigits 10 i.natAbs := by
    rw [toList_toString_int]
    by_cases negative : i < 0 <;> simp [negative]
  unfold NumberText.ofText
  simp only [head, body, wholeOf_toDigits, List.drop_length, NumberText.fractionOf, List.append_nil,
    NumberText.exponentOf]

/-- An integer that is short enough to be read is read as itself. -/
theorem scanScalar_int {i : Int} (short : (Nat.toDigits 10 i.natAbs).length ≤ digitLimit) {c : Cursor}
    (hc : c.rest = (toString i).toList) : Reads (scanScalar c) (.int i) [] := by
  have numeral : ∀ x ∈ (toString i).toList, x.isDigit = true ∨ x = '-' := by
    rw [toList_toString_int]
    intro x mem
    rcases List.mem_append.1 mem with sign | digit
    · split at sign
      · exact .inr (List.mem_singleton.1 sign)
      · cases sign
    · exact .inl (Nat.isDigit_of_mem_toDigits (by decide) (by decide) digit)
  have filled : (Nat.toDigits 10 i.natAbs).isEmpty = false := by
    simp
  have denotes : Numeral.natOfDigits (Nat.toDigits 10 i.natAbs) = i.natAbs :=
    Nat.ofDigitChars_eq_foldl.symm.trans Nat.ofDigitChars_ten_toDigits
  have whole : (toString i).toList.length
      = (decide (i < 0)).toNat + (Nat.toDigits 10 i.natAbs).length := by
    rw [toList_toString_int, List.length_append]
    by_cases negative : i < 0 <;> simp [negative]
  have number : (if decide (i < 0) then -(i.natAbs : Int) else i.natAbs) = i := by
    by_cases negative : i < 0 <;> simp only [negative, decide_true, decide_false, if_true,
      Bool.false_eq_true, if_false] <;> omega
  rw [reads_scanScalar_iff, hc, scalarAt, find?_words_eq_none numeral, ofText_toString_int]
  simp only [filled, NumberText.length, NumberText.magnitude, List.append_nil, NumberText.value,
    List.isEmpty_nil, Bool.and_self, if_true, if_neg (Nat.not_lt.2 short), denotes, number, ← whole,
    Bool.false_eq_true, if_false, List.drop_length, and_self, and_true]
  have some := Nat.length_toDigits_pos (b := 10) (n := i.natAbs)
  omega

/-! ### Doubles -/

/-- The characters of numbers and words. -/
def isScalarPart (x : Char) : Bool := x.isAlphanum || x == '.' || x == '+' || x == '-'

theorem isScalarPart_of_isDigit {x : Char} (h : x.isDigit = true) : isScalarPart x = true := by
  simp [isScalarPart, Char.isAlphanum, h]

theorem isScalarPart_toDigits {m : Nat} : ∀ x ∈ Nat.toDigits 10 m, isScalarPart x = true :=
  fun _ mem => isScalarPart_of_isDigit (Nat.isDigit_of_mem_toDigits (by decide) (by decide) mem)

theorem isScalarPart_ofSignificand (negative : Bool) (significand : Nat) (exponent : Int) :
    ∀ x ∈ (Decimal.ofSignificand negative significand exponent).digits, isScalarPart x = true := by
  intro x mem
  have kept := (List.dropWhile_sublist _).subset (List.mem_reverse.1 mem)
  exact isScalarPart_toDigits x (List.mem_reverse.1 kept)

theorem isScalarPart_shortest (x : Float) : ∀ c ∈ (Decimal.shortest x).digits, isScalarPart c = true := by
  unfold Decimal.shortest
  dsimp only
  split
  · exact List.forall_mem_singleton.2 rfl
  · split
    · exact isScalarPart_ofSignificand _ _ _
    · split
      · exact isScalarPart_ofSignificand _ _ _
      · exact isScalarPart_ofSignificand _ _ _

theorem isScalarPart_zeros (count : Nat) : ∀ x ∈ List.replicate count '0', isScalarPart x = true := by
  intro x mem
  rw [List.eq_of_mem_replicate mem]
  rfl

section Layout

variable {digits : List Char} (each : ∀ x ∈ digits, isScalarPart x = true)

include each

theorem isScalarPart_positionalText (point : Int) :
    ∀ x ∈ Layout.positionalText number.wholeTail.toList digits point, isScalarPart x = true := by
  have zero : isScalarPart '0' = true := rfl
  have dot : isScalarPart '.' = true := rfl
  unfold Layout.positionalText
  split
  · exact List.forall_mem_cons.2 ⟨zero, List.forall_mem_cons.2 ⟨dot, each⟩⟩
  · refine List.forall_mem_cons.2 ⟨zero, List.forall_mem_cons.2 ⟨dot, ?_⟩⟩
    exact List.forall_mem_append.2 ⟨isScalarPart_zeros _, each⟩
  · split
    · refine List.forall_mem_append.2 ⟨List.forall_mem_append.2 ⟨each, isScalarPart_zeros _⟩, ?_⟩
      exact List.forall_mem_cons.2 ⟨dot, List.forall_mem_singleton.2 zero⟩
    · refine List.forall_mem_append.2 ⟨fun x mem => each x (List.mem_of_mem_take mem), ?_⟩
      exact List.forall_mem_cons.2 ⟨dot, fun x mem => each x (List.mem_of_mem_drop mem)⟩

theorem isScalarPart_exponentialText (point : Int) :
    ∀ x ∈ Layout.exponentialText digits point, isScalarPart x = true := by
  have exponent : ∀ x ∈ Layout.exponentText (point - 1), isScalarPart x = true := by
    refine List.forall_mem_cons.2 ⟨rfl, List.forall_mem_cons.2 ⟨?_, ?_⟩⟩
    · split <;> rfl
    · exact List.forall_mem_append.2 ⟨isScalarPart_zeros _, isScalarPart_toDigits⟩
  refine List.forall_mem_append.2 ⟨List.forall_mem_append.2 ⟨?_, ?_⟩, exponent⟩
  · exact fun x mem => each x (List.mem_of_mem_take mem)
  · split
    · exact List.forall_mem_nil _
    · exact List.forall_mem_cons.2 ⟨rfl, fun x mem => each x (List.mem_of_mem_drop mem)⟩

end Layout

theorem isScalarPart_number (x : Float) : ∀ c ∈ (number.write x).toList, isScalarPart c = true := by
  unfold Layout.write
  split
  · exact List.all_eq_true.1 (by decide)
  · split
    · rw [String.toList_append]
      refine List.forall_mem_append.2 ⟨?_, List.all_eq_true.1 (by decide)⟩
      split <;> exact List.all_eq_true.1 (by decide)
    · rw [String.toList_ofList, Layout.decimalText]
      refine List.forall_mem_append.2 ⟨?_, ?_⟩
      · split <;> exact List.all_eq_true.1 (by decide)
      · split
        · exact isScalarPart_positionalText (isScalarPart_shortest x) _
        · exact isScalarPart_exponentialText (isScalarPart_shortest x) _

theorem ne_of_isScalarPart {x y : Char} (h : isScalarPart x = true) (hy : isScalarPart y = false) :
    x ≠ y := by
  rintro rfl
  cases h.symm.trans hy

theorem isSpace_of_isScalarPart {x : Char} (h : isScalarPart x = true) : isSpace x = false := by
  have blank : x ≠ ' ' := ne_of_isScalarPart h rfl
  have tab : x ≠ '\t' := ne_of_isScalarPart h rfl
  have newline : x ≠ '\n' := ne_of_isScalarPart h rfl
  have ret : x ≠ '\r' := ne_of_isScalarPart h rfl
  simp [isSpace, blank, tab, newline, ret]

/-- A value that begins with neither a quote nor a bracket is a word or a number. -/
theorem scanValue_eq_scanScalar {levels : Nat} {c : Cursor}
    (h : ∀ x ∈ c.rest.head?, isScalarPart x = true) : scanValue levels c = scanScalar c := by
  unfold scanValue
  split
  · next quote => cases h '"' (congrArg List.head? quote)
  · next bracket => cases h '[' (congrArg List.head? bracket)
  · next brace => cases h '\x7b' (congrArg List.head? brace)
  · rfl

/-- A double that is read from its own text. -/
def ReadsBack (x : Float) : Prop := parse 0 (number.write x).toList = .ok (.float x)

/-- The text of a double is one scalar, so reading it back as a value is scanning it. -/
theorem scanScalar_double {x : Float} (back : ReadsBack x) {c : Cursor}
    (hc : c.rest = (number.write x).toList) : Reads (scanScalar c) (.float x) [] := by
  have parts : ∀ y ∈ c.rest, isScalarPart y = true := by
    rw [hc]
    exact isScalarPart_number x
  have start : (Cursor.mk 0 c.rest).skipSpaces.rest = c.rest :=
    rest_skipSpaces (List.nil_append c.rest).symm (List.forall_mem_nil _) fun y head =>
      isSpace_of_isScalarPart (parts y (List.mem_of_mem_head? head))
  have scan : scanValue 0 (Cursor.mk 0 c.rest).skipSpaces = scanScalar (Cursor.mk 0 c.rest).skipSpaces := by
    refine scanValue_eq_scanScalar fun y head => parts y (List.mem_of_mem_head? ?_)
    rwa [start] at head
  unfold ReadsBack parse at back
  rw [← hc, scan] at back
  split at back
  · cases back
  · rcases outcome : scanScalar (Cursor.mk 0 c.rest).skipSpaces with fault | found
    · rw [outcome] at back
      cases back
    · rw [outcome] at back
      obtain ⟨positive, value, rest⟩ := reads_scanScalar_iff.1 ⟨found, outcome, rfl, rfl⟩
      rw [start] at positive value rest
      have left : found.next.skipSpaces.rest = found.next.rest := by
        refine rest_skipSpaces (List.nil_append _).symm (List.forall_mem_nil _) fun y head => ?_
        rw [← rest] at head
        exact isSpace_of_isScalarPart (parts y (List.mem_of_mem_drop (List.mem_of_mem_head? head)))
      simp only [bind, Except.bind, left, pure, Except.pure] at back
      split at back
      · next none =>
        rw [Except.ok.inj back] at value
        exact reads_scanScalar_iff.2 ⟨positive, value, rest.trans (List.isEmpty_iff.1 none)⟩
      · cases back

/-! ### Words and numbers as values -/

/-- The text of a word or a number, from which it is read. -/
structure IsScalar (text : List Char) (value : Json) : Prop where
  parts : ∀ x ∈ text, isScalarPart x = true
  alone : ∀ c : Cursor, c.rest = text → Reads (scanScalar c) value []

theorem isScalar_null : IsScalar "null".toList .null where
  parts := List.all_eq_true.1 (by decide)
  alone c hc := reads_scanScalar_iff.2 (hc ▸ ⟨by decide, rfl, by decide⟩)

theorem isScalar_bool (b : Bool) : IsScalar (if b then "true" else "false").toList (.bool b) where
  parts := by cases b <;> exact List.all_eq_true.1 (by decide)
  alone c hc := by
    cases b <;> exact reads_scanScalar_iff.2 (hc ▸ ⟨by decide, rfl, by decide⟩)

theorem isScalar_int {i : Int} (short : (Nat.toDigits 10 i.natAbs).length ≤ digitLimit) :
    IsScalar (toString i).toList (.int i) where
  parts := by
    rw [toList_toString_int]
    refine List.forall_mem_append.2 ⟨?_, isScalarPart_toDigits⟩
    split <;> exact List.all_eq_true.1 (by decide)
  alone _ hc := scanScalar_int short hc

theorem isScalar_float {x : Float} (back : ReadsBack x) : IsScalar (number.write x).toList (.float x) where
  parts := isScalarPart_number x
  alone _ hc := scanScalar_double back hc

theorem IsScalar.exists_cons {text : List Char} {value : Json} (scalar : IsScalar text value) :
    ∃ x more, text = x :: more ∧ isScalarPart x = true := by
  cases text with
  | nil =>
    obtain ⟨positive, -⟩ := reads_scanScalar_iff.1 (scalar.alone ⟨0, []⟩ rfl)
    exact absurd positive (Nat.not_lt.2 (length_scalarAt_le []))
  | cons x more => exact ⟨x, more, rfl, scalar.parts x List.mem_cons_self⟩

theorem IsScalar.reads {text rest : List Char} {value : Json} (scalar : IsScalar text value) {levels : Nat}
    {c : Cursor} (ends : Ends rest) (hc : c.rest = text ++ rest) :
    Reads (scanValue levels c) value rest := by
  obtain ⟨x, more, rfl, part⟩ := scalar.exists_cons
  have scan : scanValue levels c = scanScalar c := by
    refine scanValue_eq_scanScalar ?_
    rw [hc]
    rintro _ ⟨⟩
    exact part
  rw [scan]
  exact scanScalar_append (scalar.alone ⟨0, _⟩ rfl) ends hc

end Json

end Abacus
