import Mathlib.Data.List.TakeWhile
import Abacus.Proofs.StreamOrder

/-!
# The longest match

A word is as long as it can be. So it is over where a character follows that cannot prolong it
(`Lexeme.endsBefore`), and what stands further on does not matter: `Lexeme.ofHead_append_iff`. For
letters and numerals this is the end of a run. For operators it rests on the table, in which no operator
hides a longer one (`operatorTable_pairwise`).
-/

namespace Abacus

/-! ## Runs of characters -/

/-- A run of characters of a class stops after `body` where the next character is not of the class. -/
theorem length_takeWhile_append_iff {p : Char → Bool} {body rest : List Char} :
    ((body ++ rest).takeWhile p).length = body.length ↔
      (body.takeWhile p).length = body.length ∧ ∀ d, rest.head? = some d → p d = false := by
  have whole : (body.takeWhile p).length = body.length ↔ ∀ c ∈ body, p c = true := by
    rw [← List.takeWhile_eq_self_iff]
    exact ⟨(List.takeWhile_prefix p).eq_of_length, congrArg List.length⟩
  rw [whole]
  by_cases inside : ∀ c ∈ body, p c = true
  · rw [List.takeWhile_append_of_pos inside, List.length_append]
    cases rest with
    | nil => exact ⟨fun _ => ⟨inside, nofun⟩, fun _ => by simp⟩
    | cons d rest =>
      rw [and_iff_right inside]
      by_cases hd : p d = true <;> simp [hd]
  · refine iff_of_false (fun size => inside ?_) fun h => inside h.1
    have run : (body ++ rest).takeWhile p = body :=
      (List.prefix_of_prefix_length_le (List.takeWhile_prefix p) (List.prefix_append body rest)
        (Nat.le_of_eq size)).eq_of_length size
    exact fun c hc => List.mem_takeWhile_imp (run ▸ hc)

theorem takeWhile_append_eq {p : Char → Bool} {body rest : List Char}
    (size : ((body ++ rest).takeWhile p).length = body.length) :
    (body ++ rest).takeWhile p = body.takeWhile p := by
  have run : (body ++ rest).takeWhile p = body :=
    (List.prefix_of_prefix_length_le (List.takeWhile_prefix p) (List.prefix_append body rest)
      (Nat.le_of_eq size)).eq_of_length size
  rw [run, List.takeWhile_eq_self_iff.2 fun c hc => List.mem_takeWhile_imp (run ▸ hc)]

/-! ## Operators -/

/-- The operator at the head of a text: the first one of the table that the text begins with. -/
abbrev operatorAt? (text : List Char) : Option String :=
  operatorTable.find? fun symbol => symbol.toList.isPrefixOf text

/-- An operator has one or two characters, none of them a blank or a digit. -/
theorem of_mem_operatorTable {symbol : String} (h : symbol ∈ operatorTable) :
    ∃ c ds, symbol.toList = c :: ds ∧ ds.length ≤ 1 ∧
      ∀ d ∈ symbol.toList, isBlank d = false ∧ d.isDigit = false := by
  have all : (operatorTable.all fun symbol => symbol.length != 0 && symbol.length.ble 2 &&
      symbol.toList.all fun d => !isBlank d && !d.isDigit) = true := by decide
  have one := List.all_eq_true.1 all symbol h
  simp only [Bool.and_eq_true, bne_iff_ne, Nat.ble_eq, List.all_eq_true, Bool.not_eq_true'] at one
  obtain ⟨⟨pos, le⟩, solid⟩ := one
  rw [← String.length_toList] at pos le
  match chars : symbol.toList with
  | [] => exact absurd (congrArg List.length chars) pos
  | c :: ds =>
    rw [chars] at le
    exact ⟨c, ds, rfl, Nat.le_of_succ_le_succ le, chars ▸ solid⟩

/-- No operator hides a longer one that comes later in the table. -/
theorem operatorTable_pairwise :
    operatorTable.Pairwise fun symbol later => symbol.toList.isPrefixOf later.toList = false := by
  decide

/-- The first character of an operator is an operator. -/
theorem first_mem_operatorTable {symbol : String} (h : symbol ∈ operatorTable) :
    ∃ first ∈ operatorTable, first.toList = symbol.toList.take 1 := by
  have all : ∀ symbol ∈ operatorTable, symbol.toList.take 1 ∈ operatorTable.map String.toList := by
    decide
  obtain ⟨first, mem, eq⟩ := List.mem_map.1 (all symbol h)
  exact ⟨first, mem, eq⟩

/-- An operator that a longer text begins with has one character more, or the shorter text begins with
it as well. -/
theorem operator_of_append {symbol : String} (mem : symbol ∈ operatorTable) {c : Char}
    {body rest : List Char} (h : symbol.toList.isPrefixOf (c :: (body ++ rest)) = true) :
    symbol.toList.isPrefixOf (c :: body) = true ∨
      body = [] ∧ ∃ d, rest.head? = some d ∧ symbol.toList = [c, d] := by
  obtain ⟨b, ds, chars, le, -⟩ := of_mem_operatorTable mem
  rw [List.isPrefixOf_iff_prefix, chars, List.cons_prefix_cons] at h
  obtain ⟨rfl, within⟩ := h
  rw [chars, List.isPrefixOf_iff_prefix, List.cons_prefix_cons]
  rcases Nat.lt_or_ge body.length ds.length with longer | shorter
  · have empty : body = [] := List.eq_nil_of_length_eq_zero (by omega)
    subst empty
    match ds, le, longer with
    | [d], _, _ =>
      obtain ⟨tail, eq⟩ := within
      rw [List.nil_append] at eq
      exact .inr ⟨rfl, d, by rw [← eq]; rfl, rfl⟩
  · exact .inl ⟨rfl, List.prefix_of_prefix_length_le within (List.prefix_append body rest) shorter⟩

theorem operator_append {symbol : String} {text : List Char} (rest : List Char)
    (h : symbol.toList.isPrefixOf text = true) : symbol.toList.isPrefixOf (text ++ rest) = true := by
  rw [List.isPrefixOf_iff_prefix] at h ⊢
  exact h.trans (List.prefix_append text rest)

/-- An operator that goes on after another one stands before it in the table. -/
theorem push_mem_before {symbol : String} {d : Char} {before after : List String}
    (table : operatorTable = before ++ symbol :: after) (mem : symbol.push d ∈ operatorTable) :
    symbol.push d ∈ before := by
  have pairwise := operatorTable_pairwise
  rw [table] at mem pairwise
  rcases List.mem_append.1 mem with mem | mem
  · exact mem
  · rcases List.mem_cons.1 mem with same | mem
    · have longer := congrArg String.length same
      simp at longer
    · have no := (List.pairwise_cons.1 (List.pairwise_append.1 pairwise).2.1).1 _ mem
      have yes : symbol.toList.isPrefixOf (symbol.push d).toList = true := by
        rw [String.toList_push, List.isPrefixOf_iff_prefix]
        exact List.prefix_append _ _
      rw [yes] at no
      cases no

/-- An operator is read up to where it cannot be prolonged, since longer operators stand earlier in the
table. -/
theorem operatorAt?_append_eq_some_iff {symbol : String} {c : Char} {body rest : List Char}
    (size : symbol.length = body.length + 1) :
    operatorAt? (c :: (body ++ rest)) = some symbol ↔
      operatorAt? (c :: body) = some symbol ∧
        ∀ d, rest.head? = some d → symbol.push d ∉ operatorTable := by
  have spelt (text : List Char) (here : symbol.toList.isPrefixOf (c :: (body ++ text)) = true) :
      symbol.toList = c :: body := by
    have whole := List.isPrefixOf_iff_prefix.1 here
    have length : symbol.toList.length = (c :: body).length := size
    exact (List.prefix_of_prefix_length_le whole ⟨text, rfl⟩ (Nat.le_of_eq length)).eq_of_length length
  constructor
  · intro found
    obtain ⟨here, before, after, table, earlier⟩ := List.find?_eq_some_iff_append.1 found
    have spelling := spelt rest here
    refine ⟨List.find?_eq_some_iff_append.2 ⟨?_, before, after, table, fun other mem => ?_⟩, ?_⟩
    · exact List.isPrefixOf_iff_prefix.2 (spelling ▸ List.prefix_refl _)
    · have no := earlier other mem
      rw [Bool.not_eq_true'] at no ⊢
      exact Bool.eq_false_iff.2 fun yes => Bool.eq_false_iff.1 no (operator_append rest yes)
    · -- the longer operator would stand earlier in the table, and would have been found
      intro d hd mem
      obtain ⟨tail, rfl⟩ : ∃ tail, rest = d :: tail := List.head?_eq_some_iff.1 hd
      have longer : (symbol.push d).toList = c :: body ++ [d] := by
        rw [String.toList_push, spelling]
      have no := earlier _ (push_mem_before table mem)
      have yes : (symbol.push d).toList.isPrefixOf (c :: (body ++ d :: tail)) = true := by
        rw [longer, List.isPrefixOf_iff_prefix]
        exact ⟨tail, by simp⟩
      rw [yes] at no
      cases no
  · rintro ⟨found, stops⟩
    obtain ⟨here, before, after, table, earlier⟩ := List.find?_eq_some_iff_append.1 found
    refine List.find?_eq_some_iff_append.2
      ⟨operator_append rest here, before, after, table, fun other mem => ?_⟩
    have mem' : other ∈ operatorTable := table ▸ List.mem_append_left _ mem
    have no := earlier other mem
    rw [Bool.not_eq_true'] at no ⊢
    refine Bool.eq_false_iff.2 fun yes => ?_
    rcases operator_of_append mem' yes with yes | ⟨rfl, d, hd, longer⟩
    · exact Bool.eq_false_iff.1 no yes
    · have spelling : symbol.toList = [c] := spelt [] (by simpa using here)
      have eq : other = symbol.push d := by
        rw [← String.toList_inj, longer, String.toList_push, spelling]
        rfl
      exact stops d hd (eq ▸ mem')

/-- Where no operator begins with the first character, none begins at all. -/
theorem operatorAt?_cons_eq_none_iff {c : Char} {rest : List Char} :
    operatorAt? (c :: rest) = none ↔ operatorAt? [c] = none := by
  rw [List.find?_eq_none, List.find?_eq_none]
  constructor
  · exact fun none symbol mem yes => none symbol mem (operator_append rest yes)
  · intro none symbol mem yes
    obtain ⟨first, mem', chars⟩ := first_mem_operatorTable mem
    refine none first mem' ?_
    rw [List.isPrefixOf_iff_prefix] at yes ⊢
    rw [chars]
    obtain ⟨tail, eq⟩ := yes
    obtain ⟨b, ds, spelling, -⟩ := of_mem_operatorTable mem
    rw [spelling] at eq ⊢
    obtain ⟨rfl, -⟩ := List.cons.inj eq
    exact List.prefix_refl _

theorem operatorAt?_digit {c : Char} (digit : c.isDigit = true) (cs : List Char) :
    operatorAt? (c :: cs) = none := by
  refine List.find?_eq_none.2 fun symbol mem yes => ?_
  obtain ⟨b, ds, chars, -, solid⟩ := of_mem_operatorTable mem
  have noDigit := (solid b (chars ▸ List.mem_cons_self)).2
  rw [List.isPrefixOf_iff_prefix, chars, List.cons_prefix_cons] at yes
  obtain ⟨rfl, -⟩ := yes
  rw [digit] at noDigit
  cases noDigit

/-! ## All words -/

namespace Lexeme

/-- Whether a word is over where this character follows. -/
def endsBefore (l : Lexeme) (d : Char) : Bool :=
  match l with
  | keyword _ | identifier _ => !isWordPart d
  | int _ | float _ => !isNumeralPart d
  | operator symbol => symbol.push d ∉ operatorTable
  | endOfInput | semicolon | stray _ => true

theorem endsBefore_ofWord (word : String) (d : Char) : (ofWord word).endsBefore d = !isWordPart d := by
  unfold ofWord
  split <;> rfl

theorem endsBefore_ofNumeral (run : List Char) (d : Char) :
    (ofNumeral run).endsBefore d = !isNumeralPart d := by
  unfold ofNumeral
  dsimp only
  split <;> rfl

/-- A blank ends every word. -/
theorem endsBefore_of_isBlank (l : Lexeme) {d : Char} (blank : isBlank d = true) :
    l.endsBefore d = true := by
  have parts : isWordPart d = false ∧ isNumeralPart d = false := by
    simp only [isBlank, Bool.or_eq_true, beq_iff_eq] at blank
    rcases blank with ((rfl | rfl) | rfl) | rfl <;> decide
  cases l with
  | operator symbol =>
    simp only [endsBefore, decide_eq_true_eq]
    intro mem
    obtain ⟨-, -, -, -, solid⟩ := of_mem_operatorTable mem
    have solid := (solid d (by simp)).1
    rw [blank] at solid
    cases solid
  | _ => simp [endsBefore, parts]

/-! What stands at the head of a text, one equation for each class of words. -/

section Head

variable {c : Char}

theorem ofHead_semicolon (cs : List Char) : ofHead ';' cs = (semicolon, 1) := rfl

theorem ofHead_word (start : isWordStart c = true) (cs : List Char) :
    ofHead c cs = (ofWord (String.ofList (c :: cs.takeWhile isWordPart)),
      (c :: cs.takeWhile isWordPart).length) := by
  have noSemicolon : c ≠ ';' := by
    rintro rfl
    revert start
    decide
  rw [ofHead, if_neg noSemicolon, if_pos start]

variable (noSemicolon : c ≠ ';') (noWord : isWordStart c = false)
include noSemicolon noWord

theorem ofHead_operator {cs : List Char} {symbol : String} (found : operatorAt? (c :: cs) = some symbol) :
    ofHead c cs = (operator symbol, symbol.length) := by
  unfold operatorAt? at found
  rw [ofHead, if_neg noSemicolon, if_neg (by simp [noWord]), found]

theorem ofHead_numeral {cs : List Char} (none : operatorAt? (c :: cs) = none) (digit : c.isDigit = true) :
    ofHead c cs = (ofNumeral (c :: cs.takeWhile isNumeralPart),
      (c :: cs.takeWhile isNumeralPart).length) := by
  unfold operatorAt? at none
  rw [ofHead, if_neg noSemicolon, if_neg (by simp [noWord]), none]
  exact if_pos digit

theorem ofHead_stray {cs : List Char} (none : operatorAt? (c :: cs) = none) (noDigit : c.isDigit = false) :
    ofHead c cs = (stray c, 1) := by
  unfold operatorAt? at none
  rw [ofHead, if_neg noSemicolon, if_neg (by simp [noWord]), none]
  exact if_neg (by simp [noDigit])

end Head

/-- The words that are a run of one class of characters. -/
theorem run_append_iff {p : Char → Bool} {make : List Char → Lexeme}
    (ends : ∀ run d, (make run).endsBefore d = !p d) {c : Char} {body rest : List Char} {l : Lexeme} :
    (make (c :: (body ++ rest).takeWhile p), (c :: (body ++ rest).takeWhile p).length)
        = (l, body.length + 1) ↔
      (make (c :: body.takeWhile p), (c :: body.takeWhile p).length) = (l, body.length + 1) ∧
        ∀ d, rest.head? = some d → l.endsBefore d = true := by
  simp only [Prod.mk.injEq, List.length_cons, Nat.add_right_cancel_iff]
  constructor
  · rintro ⟨rfl, size⟩
    obtain ⟨size', stop⟩ := length_takeWhile_append_iff.1 size
    rw [takeWhile_append_eq size]
    exact ⟨⟨rfl, size'⟩, fun d hd => by rw [ends, stop d hd]; rfl⟩
  · rintro ⟨⟨rfl, size⟩, stops⟩
    have size' : ((body ++ rest).takeWhile p).length = body.length :=
      length_takeWhile_append_iff.2 ⟨size, fun d hd => by simpa [ends] using stops d hd⟩
    rw [takeWhile_append_eq size']
    exact ⟨rfl, size⟩

/-- A word is as long as it can be: it is over where the next character does not prolong it, and
nothing beyond that character matters. -/
theorem ofHead_append_iff {c : Char} {body rest : List Char} {l : Lexeme} :
    ofHead c (body ++ rest) = (l, body.length + 1) ↔
      ofHead c body = (l, body.length + 1) ∧ ∀ d, rest.head? = some d → l.endsBefore d = true := by
  by_cases semicolon : c = ';'
  · subst semicolon
    rw [ofHead_semicolon, ofHead_semicolon]
    refine ⟨fun h => ⟨h, fun d _ => ?_⟩, fun h => h.1⟩
    obtain ⟨rfl, -⟩ := Prod.mk.inj h
    rfl
  by_cases start : isWordStart c = true
  · rw [ofHead_word start, ofHead_word start]
    exact run_append_iff fun run d => endsBefore_ofWord _ d
  have noWord := Bool.eq_false_iff.2 start
  cases none : operatorAt? [c] with
  | none =>
    have none' (text : List Char) : operatorAt? (c :: text) = Option.none :=
      operatorAt?_cons_eq_none_iff.2 none
    by_cases digit : c.isDigit = true
    · rw [ofHead_numeral semicolon noWord (none' _) digit,
        ofHead_numeral semicolon noWord (none' _) digit]
      exact run_append_iff endsBefore_ofNumeral
    · have noDigit := Bool.eq_false_iff.2 digit
      rw [ofHead_stray semicolon noWord (none' _) noDigit, ofHead_stray semicolon noWord (none' _) noDigit]
      refine ⟨fun h => ⟨h, fun d _ => ?_⟩, fun h => h.1⟩
      obtain ⟨rfl, -⟩ := Prod.mk.inj h
      rfl
  | some first =>
    have some' (text : List Char) : ∃ symbol, operatorAt? (c :: text) = some symbol := by
      refine Option.ne_none_iff_exists'.1 fun none' => ?_
      rw [operatorAt?_cons_eq_none_iff.1 none'] at none
      cases none
    obtain ⟨whole, foundWhole⟩ := some' (body ++ rest)
    obtain ⟨part, foundPart⟩ := some' body
    rw [ofHead_operator semicolon noWord foundWhole, ofHead_operator semicolon noWord foundPart]
    constructor
    · intro head
      obtain ⟨rfl, size⟩ := Prod.mk.inj head
      obtain ⟨found, stops⟩ := (operatorAt?_append_eq_some_iff size).1 foundWhole
      obtain rfl := Option.some.inj (foundPart.symm.trans found)
      exact ⟨head, fun d hd => by simpa [endsBefore] using stops d hd⟩
    · rintro ⟨head, stops⟩
      obtain ⟨rfl, size⟩ := Prod.mk.inj head
      have found : operatorAt? (c :: (body ++ rest)) = some part :=
        (operatorAt?_append_eq_some_iff size).2
          ⟨foundPart, fun d hd => by simpa [endsBefore] using stops d hd⟩
      obtain rfl := Option.some.inj (foundWhole.symm.trans found)
      exact head

/-- A word does not reach beyond the text. -/
theorem ofHead_size_le (c : Char) (cs : List Char) : (ofHead c cs).2 ≤ cs.length + 1 := by
  unfold ofHead
  split
  · exact Nat.succ_le_succ (Nat.zero_le _)
  · split
    · exact Nat.succ_le_succ (List.takeWhile_prefix _).length_le
    · split
      · next symbol found =>
        have whole : symbol.toList <+: c :: cs := by
          simpa using List.find?_some found
        exact whole.length_le
      · split
        · exact Nat.succ_le_succ (List.takeWhile_prefix _).length_le
        · exact Nat.succ_le_succ (Nat.zero_le _)

theorem ofHead_ne_endOfInput (c : Char) (cs : List Char) : (ofHead c cs).1 ≠ .endOfInput := by
  unfold ofHead
  split
  · exact nofun
  · split
    · dsimp only [ofWord]
      split <;> exact nofun
    · split
      · exact nofun
      · split
        · dsimp only [ofNumeral]
          split <;> exact nofun
        · exact nofun

end Lexeme

end Abacus
