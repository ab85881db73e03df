import Mathlib
import Abacus.Grammar.Report
import Abacus.Proofs.Cut
import Abacus.Proofs.Pairing

/-!
# Nothing but the words matters

Two texts with the same words are read alike: they hold the same program, or both hold none and the
same is told of them, but for the place (`Alike`). Where the places differ they are still those of one
token, counted from the front. Offsets steer nothing; they are carried along and put into messages.

Since a text can be cut wherever a token begins or stops, blanks can be put there without changing the
words, and so without changing what the text holds.
-/

namespace Abacus

/-! ## Words by class and text -/

/-- A word is known by its class and its text. -/
theorem Lexeme.eq_of_kind_value {l l' : Lexeme} (kind : l.kind = l'.kind) (value : l.value = l'.value) :
    l = l' := by
  cases l <;> cases l' <;> simp_all [Lexeme.kind, Lexeme.value, Char.toString]

/-- The class and the text of every token, the end of the input included. -/
def Stream.pairs (s : Stream) : List (String × String) :=
  s.all.map fun t => (t.lexeme.kind, t.lexeme.value)

namespace Stream

variable {s s' : Stream}

theorem lexemes_eq_of_pairs_eq (h : s.pairs = s'.pairs) : s.lexemes = s'.lexemes := by
  have all : s.all.map Token.lexeme = s'.all.map Token.lexeme := by
    have paired (s : Stream) :
        s.pairs = (s.all.map Token.lexeme).map fun l => (l.kind, l.value) := by
      rw [List.map_map]
      rfl
    rw [paired, paired] at h
    refine (List.map_inj_right fun l l' same => ?_).1 h
    exact Lexeme.eq_of_kind_value (congrArg Prod.fst same) (congrArg Prod.snd same)
  rw [Stream.all, Stream.all, List.map_append, List.map_append] at all
  exact (List.append_inj' all rfl).1

theorem pairs_eq_of_lexemes_eq (h : s.lexemes = s'.lexemes)
    (ends : s.final.lexeme = s'.final.lexeme) : s.pairs = s'.pairs := by
  have all : s.all.map Token.lexeme = s'.all.map Token.lexeme := by
    rw [Stream.all, Stream.all, List.map_append, List.map_append]
    exact congrArg₂ (· ++ ·) h (congrArg (fun l => [l]) ends)
  have paired := congrArg (List.map fun l : Lexeme => (l.kind, l.value)) all
  rwa [List.map_map, List.map_map] at paired

/-- The token ahead, counted from the front. -/
theorem all_getElem?_of_suffix {ts : List Token} (h : ts <:+ s.tokens) :
    s.all[s.tokens.length - ts.length]? = some (ts.headD s.final) := by
  obtain ⟨before, eq⟩ := h
  have index : s.tokens.length - ts.length = before.length := by
    rw [← eq, List.length_append, Nat.add_sub_cancel]
  rw [index, Stream.all, ← eq, List.append_assoc, List.getElem?_append_right (Nat.le_refl _),
    Nat.sub_self]
  cases ts <;> rfl

end Stream

/-! ## Readings that are alike -/

/-- Two offsets are those of one token, counted from the front: both are where it is read from, or both
are where it begins. -/
def SamePosition (s s' : Stream) (p p' : Nat) : Prop :=
  ∃ (i : Nat) (t t' : Token), s.all[i]? = some t ∧ s'.all[i]? = some t' ∧
    (p = t.origin ∧ p' = t'.origin ∨ p = t.start ∧ p' = t'.start)

/-- The same fault, but for the offset. -/
inductive ParseFault.Alike (s s' : Stream) : ParseFault → ParseFault → Prop
  | rejected {cause p p'} (position : SamePosition s s' p p') :
      Alike s s' (.rejected cause p) (.rejected cause p')
  | nestedTooDeeply : Alike s s' .nestedTooDeeply .nestedTooDeeply
  | numeralTooLong {digits} : Alike s s' (.numeralTooLong digits) (.numeralTooLong digits)

/-- What has come of reading a program from `offset` in `text` and from `offset'` in `text'`: the same
tree, or the same message but for the place that ends it, or the same report about the numerals that a
host can read. -/
inductive Alike (text : List Char) (offset : Nat) (text' : List Char) (offset' : Nat) :
    Except Report Node → Except Report Node → Prop
  | program {tree} : Alike text offset text' offset' (.ok tree) (.ok tree)
  | refused {message p p'}
      (position : SamePosition (.ofText text offset) (.ofText text' offset') p p') :
      Alike text offset text' offset' (.error (.refused (.ofOffset message text p)))
        (.error (.refused (.ofOffset message text' p')))
  | host {digits} : Alike text offset text' offset' (.error (tooManyDigits digitLimit digits))
      (.error (tooManyDigits digitLimit digits))

/-- Faults that are alike are reported in the same words, at the places that their tokens have. -/
theorem ParseFault.Alike.report {text text' : List Char} {offset offset' : Nat} {f f' : ParseFault}
    (h : f.Alike (.ofText text offset) (.ofText text' offset') f') :
    Abacus.Alike text offset text' offset' (.error (f.report text offset))
      (.error (f'.report text' offset')) := by
  cases h with
  | rejected position => exact .refused position
  | numeralTooLong => exact .host
  | nestedTooDeeply =>
    -- too deep a program is reported where it begins, which is where its first token is read from
    have first (text : List Char) (offset : Nat) :
        ∃ t, (Stream.ofText text offset).all[0]? = some t ∧ offset = t.origin := by
      rw [Stream.ofText, Stream.read]
      dsimp only
      split
      · exact ⟨_, rfl, (Token.next_origin _ _).symm⟩
      · exact ⟨_, rfl, (Token.next_origin _ _).symm⟩
    obtain ⟨t, here, origin⟩ := first text offset
    obtain ⟨t', here', origin'⟩ := first text' offset'
    exact .refused ⟨0, t, t', here, here', .inl ⟨origin, origin'⟩⟩

/-- What is told of a text under a limit of nesting. -/
def readWithin (levels : Nat) (text : List Char) (offset : Nat) : Except Report Node :=
  (parseWithin levels Memo.remembering text offset).1.mapError (ParseFault.report text offset)

/-- What is read from a text under a limit of nesting. -/
def readingWithin (levels : Nat) (text : List Char) (offset : Nat) : Reading where
  program := readWithin levels text offset
  warnings := (parseWithin levels Memo.remembering text offset).2.warnings text

/-! ## Two parsers on the same words -/

/-- Two honest parsers, each on a stream of its own, that stand before the same words. -/
def Pairing.parallel {s s' : Stream} {peek peek' : Peek} (hp : Memo.Honest s peek)
    (hp' : Memo.Honest s' peek') (length : s.tokens.length = s'.tokens.length)
    (ends : s.final.lexeme = s'.final.lexeme) : Pairing where
  left := ⟨peek, s.final⟩
  right := ⟨peek', s'.final⟩
  stand ts m ts' m' :=
    ts.map Token.lexeme = ts'.map Token.lexeme ∧ (ts <:+ s.tokens ∧ m.Faithful s) ∧
      ts' <:+ s'.tokens ∧ m'.Faithful s'
  fault := ParseFault.Alike s s'
  excused _ := False
  levels k l := k = l
  look := by
    rintro ts m ts' m' ⟨words, ⟨suffix, hm⟩, suffix', hm'⟩
    obtain ⟨eq, stay⟩ := hp (s.headD_mem_all suffix) hm
    obtain ⟨eq', stay'⟩ := hp' (s'.headD_mem_all suffix') hm'
    refine ⟨?_, words, ⟨suffix, stay⟩, suffix', stay'⟩
    show (peek _ m).1.lexeme = (peek' _ m').1.lexeme
    rw [eq, eq']
    cases ts with
    | nil =>
      cases List.map_eq_nil_iff.1 words.symm
      exact ends
    | cons t ts =>
      obtain ⟨t', us', rfl, same, -⟩ := List.map_eq_cons_iff.1 words.symm
      exact same.symm
  nil := by
    rintro m ts' m' ⟨words, -⟩
    exact List.map_eq_nil_iff.1 words.symm
  cons := by
    rintro t ts m ts' m' ⟨words, ⟨suffix, hm⟩, suffix', hm'⟩
    obtain ⟨t', us', rfl, -, rest⟩ := List.map_eq_cons_iff.1 words.symm
    obtain ⟨-, stay⟩ := hp (s.headD_mem_all suffix) hm
    obtain ⟨-, stay'⟩ := hp' (s'.headD_mem_all suffix') hm'
    exact ⟨t', us', rfl, rest.symm, ⟨(List.suffix_cons t ts).trans suffix, stay⟩,
      (List.suffix_cons t' us').trans suffix', stay'⟩
  back := by
    rintro ts m ts' m' us n us' n' ⟨words, ⟨suffix, -⟩, suffix', -⟩ - - ⟨-, ⟨-, hn⟩, -, hn'⟩
    exact ⟨words, ⟨suffix, hn⟩, suffix', hn'⟩
  rejected := by
    rintro ts m ts' m' cause ⟨words, ⟨suffix, -⟩, suffix', -⟩
    have ahead : (ts.map Token.lexeme).length = ts.length := List.length_map _
    rw [words, List.length_map] at ahead
    refine .rejected ⟨s.tokens.length - ts.length, _, _, Stream.all_getElem?_of_suffix suffix, ?_,
      .inl ⟨rfl, rfl⟩⟩
    rw [length, ← ahead]
    exact Stream.all_getElem?_of_suffix suffix'
  trailing := by
    rintro ts m ts' m' cause ⟨words, ⟨suffix, hm⟩, suffix', hm'⟩
    have ahead : (ts.map Token.lexeme).length = ts.length := List.length_map _
    rw [words, List.length_map] at ahead
    obtain ⟨eq, -⟩ := hp (s.headD_mem_all suffix) hm
    obtain ⟨eq', -⟩ := hp' (s'.headD_mem_all suffix') hm'
    refine .rejected ⟨s.tokens.length - ts.length, _, _, Stream.all_getElem?_of_suffix suffix, ?_,
      .inr ⟨congrArg Token.start eq, congrArg Token.start eq'⟩⟩
    rw [length, ← ahead]
    exact Stream.all_getElem?_of_suffix suffix'
  numeral _ := .numeralTooLong
  bottom := by
    rintro _ rfl
    exact .inl ⟨rfl, .nestedTooDeeply⟩
  descend := by
    rintro k _ rfl
    exact ⟨k, rfl, rfl⟩

/-- Texts with the same words are read alike, under every limit of nesting. -/
theorem readWithin_alike {text text' : List Char} {offset offset' : Nat}
    (same : (Stream.ofText text offset).lexemes = (Stream.ofText text' offset').lexemes)
    (levels : Nat) :
    Alike text offset text' offset' (readWithin levels text offset)
      (readWithin levels text' offset') := by
  let s := Stream.ofText text offset
  let s' := Stream.ofText text' offset'
  have length : s.tokens.length = s'.tokens.length := by
    simpa only [Stream.lexemes, List.length_map] using congrArg List.length same
  have ends : s.final.lexeme = s'.final.lexeme :=
    (Stream.read_final_lexeme _ _).trans (Stream.read_final_lexeme _ _).symm
  let c := Pairing.parallel (Memo.honest_remembering text offset)
    (Memo.honest_remembering text' offset') length ends
  have stand : c.stand s.tokens .empty s'.tokens .empty :=
    ⟨same, ⟨List.suffix_refl _, Memo.faithful_empty s⟩, List.suffix_refl _, Memo.faithful_empty s'⟩
  have equal : c.levels levels levels := rfl
  rcases Pairing.program equal stand with ⟨⟨tree, h, h'⟩ | ⟨f, f', h, h', alike⟩, -⟩ | ⟨_, -, excuse⟩
  · have read : readWithin levels text offset = .ok tree := congrArg (Except.mapError _) h
    have read' : readWithin levels text' offset' = .ok tree := congrArg (Except.mapError _) h'
    rw [read, read']
    exact .program
  · have read : readWithin levels text offset = .error (f.report text offset) :=
      congrArg (Except.mapError _) h
    have read' : readWithin levels text' offset' = .error (f'.report text' offset') :=
      congrArg (Except.mapError _) h'
    rw [read, read']
    exact alike.report
  · exact excuse.elim

/-! ## Blanks between tokens -/

/-- Blanks change no words where a token begins or stops. -/
theorem Stream.lexemes_insert_blanks {text gap : List Char} (blanks : ∀ c ∈ gap, isBlank c = true)
    {t : Token} (ht : t ∈ (Stream.ofText text 0).all) {p : Nat} (hp : p = t.start ∨ p = t.stop) :
    (Stream.ofText (text.take p ++ gap ++ text.drop p) 0).lexemes
      = (Stream.ofText text 0).lexemes := by
  obtain ⟨words, a, b, eq, cut, rfl⟩ : ∃ words a b, text = a ++ b ∧ Cut words a b ∧ p = a.length := by
    obtain ⟨start, stop⟩ := Stream.cut_of_mem ht
    simp only [List.drop_zero, Nat.zero_add] at start stop
    rcases hp with rfl | rfl
    · exact start
    · exact stop
  have widened : Cut words a (gap ++ b) := cut.change (.blanks blanks b)
  have ungapped : Cut [] gap b := .blank blanks
  subst eq
  rw [List.take_left, List.drop_left, List.append_assoc]
  calc (Stream.read 0 (a ++ (gap ++ b))).lexemes
      = words ++ (Stream.read 0 (gap ++ b)).lexemes := widened.lexemes_eq 0 0
    _ = words ++ (Stream.read 0 b).lexemes := congrArg (words ++ ·) (ungapped.lexemes_eq 0 0)
    _ = (Stream.read 0 (a ++ b)).lexemes := (cut.lexemes_eq 0 0).symm

/-- Nothing but the words matters to the parser. Two texts whose tokens have the same classes and texts
are read alike, under the limit of nesting that hosts use and under any other. And blanks put where a
token begins or stops leave all classes and texts as they were, and so what is read. -/
theorem reading_depends_on_words_only :
    (∀ text text' : List Char, (Stream.ofText text 0).pairs = (Stream.ofText text' 0).pairs →
      Alike text 0 text' 0 (readProgram text 0).program (readProgram text' 0).program ∧
        ∀ levels, Alike text 0 text' 0 (readWithin levels text 0) (readWithin levels text' 0)) ∧
    ∀ (text gap : List Char) (t : Token) (p : Nat), (∀ c ∈ gap, isBlank c = true) →
      t ∈ (Stream.ofText text 0).all → p = t.start ∨ p = t.stop →
        let wider := text.take p ++ gap ++ text.drop p
        (Stream.ofText wider 0).pairs = (Stream.ofText text 0).pairs ∧
          Alike wider 0 text 0 (readProgram wider 0).program (readProgram text 0).program ∧
            ∀ levels, Alike wider 0 text 0 (readWithin levels wider 0) (readWithin levels text 0) := by
  have alike {text text' : List Char}
      (words : (Stream.ofText text 0).lexemes = (Stream.ofText text' 0).lexemes) :
      Alike text 0 text' 0 (readProgram text 0).program (readProgram text' 0).program ∧
        ∀ levels, Alike text 0 text' 0 (readWithin levels text 0) (readWithin levels text' 0) :=
    ⟨readWithin_alike words nestingLimit, readWithin_alike words⟩
  refine ⟨fun text text' same => alike (Stream.lexemes_eq_of_pairs_eq same), ?_⟩
  intro text gap t p blanks ht hp wider
  have words := Stream.lexemes_insert_blanks blanks ht hp
  have ends := (Stream.read_final_lexeme 0 wider).trans (Stream.read_final_lexeme 0 text).symm
  exact ⟨Stream.pairs_eq_of_lexemes_eq words ends, alike words⟩

/-- A call that is not closed. -/
def unclosedCall : List Char := ['f', '(', '1', ';']

/-- The same call with blanks around its words. -/
def unclosedCallSpaced : List Char := ['f', ' ', '(', ' ', '1', '\n', ';']

theorem reading_depends_on_words_only_unclosed :
    (Stream.ofText unclosedCall 0).pairs = (Stream.ofText unclosedCallSpaced 0).pairs ∧
      Alike unclosedCall 0 unclosedCallSpaced 0 (readProgram unclosedCall 0).program
        (readProgram unclosedCallSpaced 0).program ∧
      ⟨.int "1", 2, 2, 3, []⟩ ∈ (Stream.ofText unclosedCall 0).all ∧
      (Stream.ofText (unclosedCall.take 2 ++ ['\t', '\r'] ++ unclosedCall.drop 2) 0).pairs
        = (Stream.ofText unclosedCall 0).pairs := by
  have same : (Stream.ofText unclosedCall 0).pairs = (Stream.ofText unclosedCallSpaced 0).pairs := by
    cbv
  have tokens : (Stream.ofText unclosedCall 0).all = [⟨.identifier "f", 0, 0, 1, []⟩,
      ⟨.operator "(", 1, 1, 2, []⟩, ⟨.int "1", 2, 2, 3, []⟩, ⟨.semicolon, 3, 3, 4, []⟩,
      ⟨.endOfInput, 4, 4, 4, []⟩] := by
    cbv
  have mem : ⟨.int "1", 2, 2, 3, []⟩ ∈ (Stream.ofText unclosedCall 0).all := by
    rw [tokens]
    simp
  have blanks : ∀ c ∈ ['\t', '\r'], isBlank c = true := by simp [isBlank]
  obtain ⟨alike, insertion⟩ := reading_depends_on_words_only
  exact ⟨same, (alike _ _ same).1, mem, (insertion _ _ _ 2 blanks mem (.inl rfl)).1⟩

end Abacus
