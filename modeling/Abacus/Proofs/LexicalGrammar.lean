import Mathlib
import Abacus.Proofs.Spelling
import Abacus.Proofs.TokenChain

/-!
# The lexical grammar

`Lexical kind w` says which texts are words, and of which kind, without any order in which they are
tried:

    SEMICOLON  := ';'
    KEYWORD    := a word of letters that is reserved
    IDENT      := a word of letters that is not
    OPERATOR   := one of the table
    INT        := [0-9]+
    FLOAT      := [0-9][0-9.]*, with a dot

where a word of letters is `[A-Za-z_][A-Za-z0-9_]*`. Reading a token takes the longest word at the head
of the text (`Lexical.length_le`), with the kind it has in the grammar, and a single character where no
word begins (`Lexeme.ofHead_lexical_or_stray`).
-/

namespace Abacus

/-! ## The grammar -/

/-- A letter of ASCII, or an underscore. -/
def IsLetter (c : Char) : Prop := c = '_' ∨ ('a' ≤ c ∧ c ≤ 'z') ∨ ('A' ≤ c ∧ c ≤ 'Z')

/-- A digit of ASCII. -/
def IsDigit (c : Char) : Prop := '0' ≤ c ∧ c ≤ '9'

/-- A letter, and then letters and digits. -/
inductive IsWord : List Char → Prop
  | intro {c cs} (first : IsLetter c) (others : ∀ d ∈ cs, IsLetter d ∨ IsDigit d) : IsWord (c :: cs)

/-- A digit, and then digits and dots. -/
inductive IsNumeral : List Char → Prop
  | intro {c cs} (first : IsDigit c) (others : ∀ d ∈ cs, IsDigit d ∨ d = '.') : IsNumeral (c :: cs)

/-- The words of the language, by the names of their kinds. -/
inductive Lexical : String → List Char → Prop
  | semicolon : Lexical "SEMICOLON" [';']
  | keyword {w} (word : IsWord w) (reserved : String.ofList w ∈ reservedWords) : Lexical "KEYWORD" w
  | identifier {w} (word : IsWord w) (free : String.ofList w ∉ reservedWords) : Lexical "IDENT" w
  | operator {symbol} (known : symbol ∈ operatorTable) : Lexical "OPERATOR" symbol.toList
  | int {w} (numeral : IsNumeral w) (whole : '.' ∉ w) : Lexical "INT" w
  | float {w} (numeral : IsNumeral w) (dotted : '.' ∈ w) : Lexical "FLOAT" w

/-! ## Characters -/

theorem isWordStart_iff {c : Char} : isWordStart c = true ↔ IsLetter c := by
  simp only [isWordStart, IsLetter, Char.isAlpha, Char.isUpper, Char.isLower, Bool.or_eq_true,
    beq_iff_eq, Bool.and_eq_true, decide_eq_true_eq, Char.le_def]
  tauto

theorem isDigit_iff {c : Char} : c.isDigit = true ↔ IsDigit c := by
  simp only [Char.isDigit, IsDigit, Bool.and_eq_true, decide_eq_true_eq, Char.le_def, ge_iff_le]

theorem isWordPart_iff {c : Char} : isWordPart c = true ↔ IsLetter c ∨ IsDigit c := by
  rw [isWordPart, Bool.or_eq_true, isWordStart_iff, isDigit_iff]

theorem isNumeralPart_iff {c : Char} : isNumeralPart c = true ↔ IsDigit c ∨ c = '.' := by
  rw [isNumeralPart, Bool.or_eq_true, isDigit_iff, beq_iff_eq]

theorem IsLetter.toNat_lt {c : Char} (h : IsLetter c) : c.toNat < 128 := by
  have below (d : Char) (le : c ≤ d) : c.toNat ≤ d.toNat := le
  rcases h with rfl | ⟨-, le⟩ | ⟨-, le⟩
  · decide
  · exact Nat.lt_of_le_of_lt (below 'z' le) (by decide)
  · exact Nat.lt_of_le_of_lt (below 'Z' le) (by decide)

theorem IsDigit.toNat_lt {c : Char} (h : IsDigit c) : c.toNat < 128 := by
  have below : c.toNat ≤ '9'.toNat := h.2
  exact Nat.lt_of_le_of_lt below (by decide)

/-- An operator begins with no character that another word begins with. -/
theorem operator_head {symbol : String} {c : Char} {cs : List Char} (known : symbol ∈ operatorTable)
    (chars : symbol.toList = c :: cs) : c ≠ ';' ∧ isWordStart c = false ∧ c.isDigit = false := by
  have all : ∀ symbol ∈ operatorTable, symbol.toList.head?.all
      (fun c => c != ';' && !isWordStart c && !c.isDigit) = true := by decide
  have here := all symbol known
  rw [chars] at here
  simpa [and_assoc] using here

/-! ## The longest word -/

/-- Characters of one class at the head of a text are part of the run of that class. -/
theorem length_le_takeWhile {p : Char → Bool} {w text : List Char} (h : w <+: text)
    (inside : ∀ c ∈ w, p c = true) : w.length ≤ (text.takeWhile p).length := by
  obtain ⟨rest, rfl⟩ := h
  rw [List.takeWhile_append_of_pos inside, List.length_append]
  exact Nat.le_add_right _ _

/-- The operator that is found at the head of a text is the longest one there. -/
theorem length_le_operatorAt? {symbol found : String} {text : List Char}
    (known : symbol ∈ operatorTable) (here : symbol.toList <+: text)
    (eq : operatorAt? text = some found) : symbol.toList.length ≤ found.toList.length := by
  obtain ⟨there, before, after, table, earlier⟩ := List.find?_eq_some_iff_append.1 eq
  have pairwise := operatorTable_pairwise
  rw [table] at known pairwise
  rcases List.mem_append.1 known with known | known
  · -- the table has it before the one that was found, which is the first
    have no := earlier symbol known
    rw [List.isPrefixOf_iff_prefix.2 here] at no
    cases no
  · rcases List.mem_cons.1 known with rfl | known
    · exact Nat.le_refl _
    · by_contra longer
      have hidden : found.toList <+: symbol.toList :=
        List.prefix_of_prefix_length_le (List.isPrefixOf_iff_prefix.1 there) here (by omega)
      have no := (List.pairwise_cons.1 (List.pairwise_append.1 pairwise).2.1).1 symbol known
      rw [List.isPrefixOf_iff_prefix.2 hidden] at no
      cases no

namespace Lexeme

theorem ofHead_operator_of_known {symbol : String} {c : Char} {cs : List Char}
    (known : symbol ∈ operatorTable) (here : symbol.toList <+: c :: cs) :
    ∃ found, operatorAt? (c :: cs) = some found ∧ ofHead c cs = (operator found, found.length) := by
  obtain ⟨b, ds, chars, -⟩ := of_mem_operatorTable known
  obtain ⟨noSemicolon, noWord, -⟩ := operator_head known chars
  have first : b = c := by
    rw [chars, List.cons_prefix_cons] at here
    exact here.1
  subst first
  cases eq : operatorAt? (b :: cs) with
  | none => exact absurd (List.isPrefixOf_iff_prefix.2 here) (List.find?_eq_none.1 eq symbol known)
  | some found => exact ⟨found, rfl, ofHead_operator noSemicolon noWord eq⟩

theorem kind_ofWord (word : String) :
    (ofWord word).kind = if word ∈ reservedWords then "KEYWORD" else "IDENT" := by
  unfold ofWord
  split <;> rfl

/-- A run of digits and dots is divided at its first dot. -/
theorem exists_dropWhile_isDigit {run : List Char} (parts : ∀ c ∈ run, isNumeralPart c = true)
    (dotted : '.' ∈ run) : ∃ tail, run.dropWhile Char.isDigit = '.' :: tail := by
  cases eq : run.dropWhile Char.isDigit with
  | nil => cases List.dropWhile_eq_nil_iff.1 eq '.' dotted
  | cons c tail =>
    have noDigit : c.isDigit = false := by
      have := List.head?_dropWhile_not Char.isDigit run
      simpa [eq] using this
    have mem : c ∈ run := (List.dropWhile_sublist _).subset (eq ▸ List.mem_cons_self)
    rcases isNumeralPart_iff.1 (parts c mem) with digit | rfl
    · cases noDigit.symm.trans (isDigit_iff.2 digit)
    · exact ⟨tail, rfl⟩

theorem kind_ofNumeral {run : List Char} (parts : ∀ c ∈ run, isNumeralPart c = true) :
    (ofNumeral run).kind = if '.' ∈ run then "FLOAT" else "INT" := by
  by_cases dotted : '.' ∈ run
  · obtain ⟨tail, eq⟩ := exists_dropWhile_isDigit parts dotted
    rw [if_pos dotted, ofNumeral, eq]
    rfl
  · have digits : ∀ c ∈ run, c.isDigit = true := fun c hc =>
      (isNumeralPart_iff.1 (parts c hc)).elim isDigit_iff.2 fun dot => absurd (dot ▸ hc) dotted
    rw [if_neg dotted, ofNumeral_int digits]
    rfl

end Lexeme

/-! Words that stand alone. -/

theorem IsWord.ofHead_eq {c : Char} {cs : List Char} (h : IsWord (c :: cs)) :
    Lexeme.ofHead c cs = (Lexeme.ofWord (String.ofList (c :: cs)), cs.length + 1) := by
  cases h with
  | intro first others =>
    exact Lexeme.ofHead_letters (isWordStart_iff.2 first) fun d hd => isWordPart_iff.2 (others d hd)

theorem IsNumeral.ofHead_eq {c : Char} {cs : List Char} (h : IsNumeral (c :: cs)) :
    Lexeme.ofHead c cs = (Lexeme.ofNumeral (c :: cs), cs.length + 1) := by
  cases h with
  | intro first others =>
    exact Lexeme.ofHead_digits (isDigit_iff.2 first) fun d hd => isNumeralPart_iff.2 (others d hd)

theorem IsNumeral.isNumeralPart {w : List Char} (h : IsNumeral w) :
    ∀ c ∈ w, isNumeralPart c = true := by
  cases h with
  | intro first others =>
    exact List.forall_mem_cons.2
      ⟨isNumeralPart_iff.2 (.inl first), fun d hd => isNumeralPart_iff.2 (others d hd)⟩

theorem Lexeme.ofHead_symbol {symbol : String} {c : Char} {cs : List Char}
    (known : symbol ∈ operatorTable) (chars : symbol.toList = c :: cs) :
    ofHead c cs = (operator symbol, cs.length + 1) := by
  obtain ⟨d, ds, spelt, -, head⟩ := (Proper.operator known).spelt
  obtain ⟨rfl, rfl⟩ := List.cons.inj (chars.symm.trans spelt)
  exact head

namespace Lexical

/-- The shapes of words. -/
theorem shape {kind : String} {w : List Char} (h : Lexical kind w) :
    w = [';'] ∨ IsWord w ∨ (∃ symbol ∈ operatorTable, w = symbol.toList) ∨ IsNumeral w := by
  cases h with
  | semicolon => exact .inl rfl
  | keyword word _ => exact .inr (.inl word)
  | identifier word _ => exact .inr (.inl word)
  | operator known => exact .inr (.inr (.inl ⟨_, known, rfl⟩))
  | int numeral _ => exact .inr (.inr (.inr numeral))
  | float numeral _ => exact .inr (.inr (.inr numeral))

/-- No word is longer than the one that is read. -/
theorem length_le {kind : String} {w : List Char} (h : Lexical kind w) {c : Char} {cs : List Char}
    (here : w <+: c :: cs) : w.length ≤ (Lexeme.ofHead c cs).2 := by
  rcases h.shape with rfl | ⟨first, others⟩ | ⟨symbol, known, rfl⟩ | ⟨first, others⟩
  · exact Lexeme.ofHead_size_pos c cs
  · obtain ⟨rfl, within⟩ := List.cons_prefix_cons.1 here
    rw [Lexeme.ofHead_word (isWordStart_iff.2 first)]
    exact Nat.succ_le_succ (length_le_takeWhile within fun d hd => isWordPart_iff.2 (others d hd))
  · obtain ⟨found, eq, head⟩ := Lexeme.ofHead_operator_of_known known here
    rw [head]
    exact length_le_operatorAt? known here eq
  · obtain ⟨rfl, within⟩ := List.cons_prefix_cons.1 here
    have digit := isDigit_iff.2 first
    obtain ⟨-, noSemicolon, noWord⟩ := Lexeme.not_special_of_isDigit digit
    rw [Lexeme.ofHead_numeral noSemicolon noWord (operatorAt?_digit digit cs) digit]
    exact Nat.succ_le_succ (length_le_takeWhile within fun d hd => isNumeralPart_iff.2 (others d hd))

/-- A word that stands alone is read as a word of its kind. -/
theorem kind_ofHead {kind : String} {c : Char} {cs : List Char} (h : Lexical kind (c :: cs)) :
    (Lexeme.ofHead c cs).1.kind = kind := by
  generalize eq : c :: cs = w at h
  cases h with
  | semicolon =>
    cases eq
    rfl
  | keyword word reserved =>
    subst eq
    rw [word.ofHead_eq, Lexeme.kind_ofWord, if_pos reserved]
  | identifier word free =>
    subst eq
    rw [word.ofHead_eq, Lexeme.kind_ofWord, if_neg free]
  | operator known => rw [Lexeme.ofHead_symbol known eq.symm, Lexeme.kind]
  | int numeral whole =>
    subst eq
    rw [numeral.ofHead_eq, Lexeme.kind_ofNumeral numeral.isNumeralPart, if_neg whole]
  | float numeral dotted =>
    subst eq
    rw [numeral.ofHead_eq, Lexeme.kind_ofNumeral numeral.isNumeralPart, if_pos dotted]

theorem ne_nil {kind : String} {w : List Char} (h : Lexical kind w) : w ≠ [] := by
  rcases h.shape with rfl | ⟨-, -⟩ | ⟨symbol, known, rfl⟩ | ⟨-, -⟩
  · exact List.cons_ne_nil _ _
  · exact List.cons_ne_nil _ _
  · obtain ⟨c, ds, chars, -⟩ := of_mem_operatorTable known
    rw [chars]
    exact List.cons_ne_nil _ _
  · exact List.cons_ne_nil _ _

theorem kind_ne_error {kind : String} {w : List Char} (h : Lexical kind w) : kind ≠ "ERROR" := by
  cases h <;> decide

/-- A word is of one kind. -/
theorem kind_unique {kind kind' : String} {w : List Char} (h : Lexical kind w) (h' : Lexical kind' w) :
    kind = kind' := by
  obtain ⟨c, cs, rfl⟩ := List.exists_cons_of_ne_nil h.ne_nil
  exact h.kind_ofHead.symm.trans h'.kind_ofHead

end Lexical

namespace Lexeme

/-- What is read is a word of the grammar, or a character with which none begins. -/
theorem ofHead_lexical_or_stray (c : Char) (cs : List Char) :
    Lexical (ofHead c cs).1.kind ((c :: cs).take (ofHead c cs).2) ∨
      ofHead c cs = (stray c, 1) ∧ ∀ kind w, w <+: c :: cs → ¬ Lexical kind w := by
  by_cases semicolon : c = ';'
  · subst semicolon
    exact .inl .semicolon
  by_cases start : isWordStart c = true
  · left
    have run : (c :: cs).take (c :: cs.takeWhile isWordPart).length = c :: cs.takeWhile isWordPart :=
      (List.prefix_iff_eq_take.1 (List.cons_prefix_cons.2 ⟨rfl, List.takeWhile_prefix _⟩)).symm
    have word : IsWord (c :: cs.takeWhile isWordPart) :=
      .intro (isWordStart_iff.1 start) fun d hd => isWordPart_iff.1 (List.mem_takeWhile_imp hd)
    rw [ofHead_word start, run, kind_ofWord]
    split
    · next reserved => exact .keyword word reserved
    · next free => exact .identifier word free
  have noWord := Bool.eq_false_iff.2 start
  cases eq : operatorAt? (c :: cs) with
  | some symbol =>
    left
    have known : symbol ∈ operatorTable := List.mem_of_find?_eq_some eq
    have here : symbol.toList <+: c :: cs :=
      List.isPrefixOf_iff_prefix.1 (List.find?_eq_some_iff_append.1 eq).1
    have chars : (c :: cs).take symbol.length = symbol.toList := (List.prefix_iff_eq_take.1 here).symm
    rw [ofHead_operator semicolon noWord eq, chars]
    exact .operator known
  | none =>
    by_cases digit : c.isDigit = true
    · left
      have run : (c :: cs).take (c :: cs.takeWhile isNumeralPart).length
          = c :: cs.takeWhile isNumeralPart :=
        (List.prefix_iff_eq_take.1 (List.cons_prefix_cons.2 ⟨rfl, List.takeWhile_prefix _⟩)).symm
      have numeral : IsNumeral (c :: cs.takeWhile isNumeralPart) :=
        .intro (isDigit_iff.1 digit) fun d hd => isNumeralPart_iff.1 (List.mem_takeWhile_imp hd)
      rw [ofHead_numeral semicolon noWord eq digit, run, kind_ofNumeral numeral.isNumeralPart]
      split
      · next dotted => exact .float numeral dotted
      · next whole => exact .int numeral whole
    · right
      refine ⟨ofHead_stray semicolon noWord eq (Bool.eq_false_iff.2 digit), fun kind w here word => ?_⟩
      rcases word.shape with rfl | ⟨first, -⟩ | ⟨symbol, known, rfl⟩ | ⟨first, -⟩
      · exact semicolon (List.cons_prefix_cons.1 here).1.symm
      · obtain ⟨rfl, -⟩ := List.cons_prefix_cons.1 here
        exact start (isWordStart_iff.2 first)
      · exact absurd (List.isPrefixOf_iff_prefix.2 here) (List.find?_eq_none.1 eq symbol known)
      · obtain ⟨rfl, -⟩ := List.cons_prefix_cons.1 here
        exact digit (isDigit_iff.2 first)

end Lexeme

/-- No word has a character above ASCII. -/
theorem Lexical.toNat_lt {kind : String} {w : List Char} (h : Lexical kind w) :
    ∀ c ∈ w, c.toNat < 128 := by
  rcases h.shape with rfl | ⟨first, others⟩ | ⟨symbol, known, rfl⟩ | ⟨first, others⟩
  · exact List.forall_mem_singleton.2 (by decide)
  · exact List.forall_mem_cons.2
      ⟨first.toNat_lt, fun d hd => (others d hd).elim IsLetter.toNat_lt IsDigit.toNat_lt⟩
  · have all : ∀ symbol ∈ operatorTable, symbol.toList.all (·.toNat.blt 128) = true := by decide
    intro c hc
    simpa [Nat.blt_eq] using List.all_eq_true.1 (all symbol known) c hc
  · refine List.forall_mem_cons.2 ⟨first.toNat_lt, fun d hd => (others d hd).elim IsDigit.toNat_lt ?_⟩
    rintro rfl
    decide

namespace Lexeme

variable {c : Char} {cs : List Char}

theorem ofHead_kind_eq_error_iff :
    (ofHead c cs).1.kind = "ERROR" ↔ ∀ kind w, w <+: c :: cs → ¬ Lexical kind w := by
  rcases ofHead_lexical_or_stray c cs with word | ⟨head, none⟩
  · exact iff_of_false word.kind_ne_error fun none => none _ _ (List.take_prefix _ _) word
  · rw [head]
    exact iff_of_true rfl none

theorem ofHead_of_kind_eq_error (h : (ofHead c cs).1.kind = "ERROR") : ofHead c cs = (stray c, 1) := by
  rcases ofHead_lexical_or_stray c cs with word | ⟨head, -⟩
  · exact absurd word (ofHead_kind_eq_error_iff.1 h _ _ (List.take_prefix _ _))
  · exact head

theorem ofHead_kind_iff {kind : String} (ne : kind ≠ "ERROR") :
    (ofHead c cs).1.kind = kind ↔ Lexical kind ((c :: cs).take (ofHead c cs).2) := by
  rcases ofHead_lexical_or_stray c cs with word | ⟨head, none⟩
  · exact ⟨fun eq => eq ▸ word, fun word' => word.kind_unique word'⟩
  · refine iff_of_false (fun eq => ne ?_) (none _ _ (List.take_prefix _ _))
    rw [← eq, head]
    rfl

/-- An operator at the head of a text is read, or a longer one that begins with it. -/
theorem ofHead_operator_of_prefix {symbol : String} (known : symbol ∈ operatorTable)
    (here : symbol.toList <+: c :: cs) :
    ∃ found ∈ operatorTable, (ofHead c cs).1 = operator found ∧ symbol.toList <+: found.toList := by
  obtain ⟨found, eq, head⟩ := ofHead_operator_of_known known here
  have there : found.toList <+: c :: cs :=
    List.isPrefixOf_iff_prefix.1 (List.find?_eq_some_iff_append.1 eq).1
  refine ⟨found, List.mem_of_find?_eq_some eq, congrArg Prod.fst head, ?_⟩
  exact List.prefix_of_prefix_length_le here there (length_le_operatorAt? known here eq)

/-- A character above ASCII is a word of its own that the grammar does not know. -/
theorem ofHead_eq_stray {d : Char} (mem : d ∈ (c :: cs).take (ofHead c cs).2) (above : 128 ≤ d.toNat) :
    (ofHead c cs).1 = stray d := by
  rcases ofHead_lexical_or_stray c cs with word | ⟨head, -⟩
  · exact absurd (word.toNat_lt d mem) (Nat.not_lt.2 above)
  · rw [head] at mem ⊢
    cases List.mem_singleton.1 mem
    rfl

end Lexeme

/-! ## Tokens -/

/-- The token behind the blanks at an offset begins with what is left there. -/
theorem Token.readFrom_eq {text : List Char} {offset : Nat} {c : Char} {cs : List Char}
    (eq : (text.drop offset).dropWhile isBlank = c :: cs) :
    (readFrom text offset).lexeme = (Lexeme.ofHead c cs).1 ∧
      (readFrom text offset).start = offset + ((text.drop offset).takeWhile isBlank).length ∧
      (readFrom text offset).stop = (readFrom text offset).start + (Lexeme.ofHead c cs).2 := by
  unfold readFrom next
  rw [eq]
  exact ⟨rfl, rfl, rfl⟩

/-- What is left of a text behind the blanks at an offset. -/
theorem drop_blanks (text : List Char) (offset : Nat) :
    text.drop (offset + ((text.drop offset).takeWhile isBlank).length)
      = (text.drop offset).dropWhile isBlank := by
  have split := List.takeWhile_append_dropWhile (p := isBlank) (l := text.drop offset)
  have left : ((text.drop offset).takeWhile isBlank ++ (text.drop offset).dropWhile isBlank).drop
      ((text.drop offset).takeWhile isBlank).length = (text.drop offset).dropWhile isBlank :=
    List.drop_left
  rw [split] at left
  rw [← List.drop_drop, left]

/-- The token that is read from an offset, where the text has more than blanks, is the longest word of the
grammar behind the blanks, and of the kind that word has. Where no word begins it is one stray character.
An operator is never hidden by a shorter one, and a character above ASCII is in no word at all. -/
theorem next_token_is_longest_match (text : List Char) (offset : Nat)
    (inside : offset + ((text.drop offset).takeWhile isBlank).length < text.length) :
    let start := offset + ((text.drop offset).takeWhile isBlank).length
    let token := Token.readFrom text offset
    let spelling := (text.drop start).take (token.stop - start)
    token.start = start ∧ token.stop = start + spelling.length ∧
    (∀ kind w, w <+: text.drop start → Lexical kind w → w.length ≤ spelling.length) ∧
    (∀ kind, kind ≠ "ERROR" → (token.lexeme.kind = kind ↔ Lexical kind spelling)) ∧
    (token.lexeme.kind = "ERROR" ↔ ∀ kind w, w <+: text.drop start → ¬ Lexical kind w) ∧
    (token.lexeme.kind = "ERROR" → spelling.length = 1) ∧
    (∀ symbol ∈ operatorTable, symbol.toList <+: text.drop start →
      ∃ found ∈ operatorTable, token.lexeme = .operator found ∧ symbol.toList <+: found.toList) ∧
    ∀ c ∈ spelling, 128 ≤ c.toNat → token.lexeme = .stray c := by
  intro start token spelling
  obtain ⟨c, cs, rest⟩ : ∃ c cs, text.drop start = c :: cs :=
    List.exists_cons_of_ne_nil (by simpa using inside)
  obtain ⟨lexeme, begins, stops⟩ := Token.readFrom_eq (drop_blanks text offset ▸ rest)
  have size : token.stop - start = (Lexeme.ofHead c cs).2 := by
    show token.stop - start = _
    rw [stops, begins]
    exact Nat.add_sub_cancel_left _ _
  have spelt : spelling = (c :: cs).take (Lexeme.ofHead c cs).2 := by
    show (text.drop start).take (token.stop - start) = _
    rw [size, rest]
  have length : spelling.length = (Lexeme.ofHead c cs).2 := by
    rw [spelt, List.length_take]
    exact Nat.min_eq_left (Lexeme.ofHead_size_le c cs)
  rw [show token.lexeme = (Lexeme.ofHead c cs).1 from lexeme, rest, length, spelt]
  refine ⟨begins, stops.trans (by rw [begins]), fun _ _ here word => word.length_le here,
    fun _ => Lexeme.ofHead_kind_iff, Lexeme.ofHead_kind_eq_error_iff, fun error => ?_,
    fun _ known here => Lexeme.ofHead_operator_of_prefix known here,
    fun _ mem above => Lexeme.ofHead_eq_stray mem above⟩
  exact congrArg Prod.snd (Lexeme.ofHead_of_kind_eq_error error)

/-- A name, and an operator with a letter above ASCII behind it. -/
def arrowBeforeLetter : List Char := ['x', ' ', '-', '>', 'é']

theorem next_token_is_longest_match_arrow :
    1 + ((arrowBeforeLetter.drop 1).takeWhile isBlank).length < arrowBeforeLetter.length ∧
      Lexical "OPERATOR" ['-', '>'] ∧
      (∀ kind w, w <+: ['-', '>', 'é'] → Lexical kind w → w.length ≤ 2) ∧
      4 + ((arrowBeforeLetter.drop 4).takeWhile isBlank).length < arrowBeforeLetter.length ∧
      (Token.readFrom arrowBeforeLetter 4).lexeme = .stray 'é' ∧
      ∀ kind w, w <+: ['é'] → ¬ Lexical kind w := by
  have arrow : 1 + ((arrowBeforeLetter.drop 1).takeWhile isBlank).length < arrowBeforeLetter.length := by
    decide
  have letter : 4 + ((arrowBeforeLetter.drop 4).takeWhile isBlank).length < arrowBeforeLetter.length := by
    decide
  obtain ⟨-, -, longest, kind, -⟩ := next_token_is_longest_match arrowBeforeLetter 1 arrow
  obtain ⟨-, -, -, -, error, -, -, above⟩ := next_token_is_longest_match arrowBeforeLetter 4 letter
  refine ⟨arrow, (kind "OPERATOR" (by decide)).1 (by decide), longest, letter, ?_, error.1 (by decide)⟩
  exact above 'é' (by decide) (by decide)

end Abacus
