import Mathlib
import Abacus.Proofs.TokenChain
import Abacus.Proofs.WordsOnly

/-!
# Line and column identify the offset

The line of an offset comes from counting the line ends before it, and the column from looking back for
the nearest of them. Both are read here off one list, the offsets at which the lines of a text begin.
Those of the text before an offset are the first ones of the whole text: their number is the line, and
the column is counted from the last of them.

So the line is the last one that begins by the offset, and the column says how far into it the offset
is. Such a place marks no other offset, and places are in the order of their offsets.
-/

namespace Abacus

namespace Place

/-- The offsets at which the lines of a text begin: the first one where the text does, and each other
one just after a line end. -/
def lineStarts (text : List Char) : List Nat := 0 :: (text.idxsOf '\n').map (· + 1)

/-- The offset at which a line begins, if there is such a line. -/
def lineStart? (text : List Char) : Nat → Option Nat
  | 0 => none
  | n + 1 => (lineStarts text)[n]?

/-- Places in the order of reading: by the line, and on one line by the column. -/
def key (place : Place) : ℕ ×ₗ ℕ := toLex (place.line, place.column)

theorem key_lt_key_iff {p q : Place} :
    p.key < q.key ↔ p.line < q.line ∨ p.line = q.line ∧ p.column < q.column :=
  Prod.Lex.toLex_lt_toLex

/-- A place that stands for an offset of a text. -/
structure Marks (text : List Char) (place : Place) (offset : Nat) : Prop where
  one_le_line : 1 ≤ place.line
  one_le_column : 1 ≤ place.column
  /-- The column counts from where the line begins. -/
  recovered : ∃ start, lineStart? text place.line = some start ∧ start + place.column - 1 = offset
  /-- The line is the last one that begins by the offset. -/
  begun : ∀ n start, lineStart? text n = some start → (start ≤ offset ↔ n ≤ place.line)

/-! ## The order of places -/

namespace Marks

variable {text : List Char} {p q : Place} {i j : Nat}

theorem offset_unique (hi : Marks text p i) (hj : Marks text p j) : i = j := by
  obtain ⟨start, begins, rfl⟩ := hi.recovered
  obtain ⟨start', begins', rfl⟩ := hj.recovered
  cases begins.symm.trans begins'
  rfl

theorem key_lt_key (hp : Marks text p i) (hq : Marks text q j) (lt : i < j) : p.key < q.key := by
  obtain ⟨start, begins, hi⟩ := hp.recovered
  obtain ⟨start', begins', hj⟩ := hq.recovered
  have column := hp.one_le_column
  have column' := hq.one_le_column
  have line : p.line ≤ q.line := (hq.begun _ _ begins).1 (by omega)
  refine key_lt_key_iff.2 (line.lt_or_eq.imp_right fun same => ⟨same, ?_⟩)
  -- on one line both columns are counted from the same offset
  have common : start = start' := by
    rw [same] at begins
    exact Option.some.inj (begins.symm.trans begins')
  omega

end Marks

/-! ## Where lines begin -/

section Lines

variable {text : List Char} {offset : Nat}

theorem length_lineStarts (text : List Char) : (lineStarts text).length = text.count '\n' + 1 := by
  rw [lineStarts, List.length_cons, List.length_map, List.length_idxsOf]

theorem nodup_lineStarts (text : List Char) : (lineStarts text).Nodup := by
  refine List.nodup_cons.2 ⟨fun mem => ?_, List.nodup_idxsOf.map Nat.succ_injective⟩
  obtain ⟨k, -, eq⟩ := List.mem_map.1 mem
  cases eq

theorem mem_lineStarts {start : Nat} :
    start ∈ lineStarts text ↔ start = 0 ∨ ∃ k, text[k]? = some '\n' ∧ start = k + 1 := by
  have ends (k : Nat) : k ∈ text.idxsOf '\n' ↔ text[k]? = some '\n' := by
    rw [List.mem_idxsOf_iff_exists_getElem_pos, List.getElem?_eq_some_iff]
    simp only [beq_iff_eq]
  simp only [lineStarts, List.mem_cons, List.mem_map, ends, eq_comm]

/-- Of the lines of a text, those that begin by an offset are the lines of what stands before it. -/
theorem mem_lineStarts_take {start : Nat} :
    start ∈ lineStarts (text.take offset) ↔ start ∈ lineStarts text ∧ start ≤ offset := by
  simp only [mem_lineStarts, List.getElem?_take]
  constructor
  · rintro (rfl | ⟨k, here, rfl⟩)
    · exact ⟨.inl rfl, Nat.zero_le _⟩
    · split at here
      · next lt => exact ⟨.inr ⟨k, here, rfl⟩, lt⟩
      · cases here
  · rintro ⟨rfl | ⟨k, here, rfl⟩, le⟩
    · exact .inl rfl
    · exact .inr ⟨k, by rwa [if_pos (Nat.lt_of_succ_le le)], rfl⟩

/-- They are the first ones, as many as the line of the offset says. -/
theorem lineStarts_take (text : List Char) (offset : Nat) :
    lineStarts (text.take offset) = (lineStarts text).take (ofOffset text offset).line := by
  rw [lineStarts, lineStarts, ofOffset, List.idxsOf_take, List.take_succ_cons, List.map_take]

/-- Looking back from the end of a text for a line end finds where its last line begins. -/
theorem getLast?_lineStarts (text : List Char) :
    (lineStarts text).getLast? = some (lastLineStart text) := by
  induction text using List.reverseRecOn with
  | nil => rfl
  | append_singleton text c ih =>
    have starts : lineStarts (text ++ [c])
        = lineStarts text ++ if c = '\n' then [text.length + 1] else [] := by
      by_cases h : c = '\n' <;> simp [lineStarts, h]
    rw [starts, lastLineStart, List.reverse_concat, List.takeWhile_cons, List.length_append,
      List.length_singleton]
    by_cases h : c = '\n'
    · simp [h]
    · simp [h, ih, lastLineStart]

theorem lineStart?_line (text : List Char) (offset : Nat) :
    lineStart? text (ofOffset text offset).line = some (lastLineStart (text.take offset)) := by
  have size : (lineStarts (text.take offset)).length - 1 = (text.take offset).count '\n' := by
    rw [length_lineStarts, Nat.add_sub_cancel]
  calc (lineStarts text)[(text.take offset).count '\n']?
      = ((lineStarts text).take (ofOffset text offset).line)[(text.take offset).count '\n']? :=
        (List.getElem?_take_of_lt (Nat.lt_succ_self _)).symm
    _ = (lineStarts (text.take offset)).getLast? := by
        rw [← lineStarts_take, List.getLast?_eq_getElem?, size]
    _ = some (lastLineStart (text.take offset)) := getLast?_lineStarts _

theorem lastLineStart_take_le (text : List Char) (offset : Nat) :
    lastLineStart (text.take offset) ≤ offset :=
  (Nat.sub_le _ _).trans (List.length_take_le _ _)

/-- The lines that begin by an offset are those up to its own. -/
theorem lineStart?_le_iff {n start : Nat} (begins : lineStart? text n = some start) :
    start ≤ offset ↔ n ≤ (ofOffset text offset).line := by
  cases n with
  | zero => cases begins
  | succ n =>
    obtain ⟨lt, rfl⟩ := List.getElem?_eq_some_iff.1 begins
    -- no start stands in the list twice, so it is one of the first ones by its own number only
    have first (m : Nat) : (lineStarts text)[n] ∈ (lineStarts text).take m ↔ n < m := by
      rw [List.mem_take_iff_getElem]
      refine ⟨fun ⟨k, below, eq⟩ => ?_, fun below => ⟨n, Nat.lt_min.2 ⟨below, lt⟩, rfl⟩⟩
      obtain rfl := (nodup_lineStarts text).getElem_inj_iff.1 eq
      exact (Nat.lt_min.1 below).1
    calc (lineStarts text)[n] ≤ offset
        ↔ (lineStarts text)[n] ∈ lineStarts (text.take offset) :=
          (mem_lineStarts_take.trans (and_iff_right (List.getElem_mem lt))).symm
      _ ↔ n + 1 ≤ (ofOffset text offset).line := by rw [lineStarts_take, first, Nat.lt_iff_add_one_le]

/-- The place of an offset stands for it, also past the end of the text. -/
theorem marks_ofOffset (text : List Char) (offset : Nat) : Marks text (ofOffset text offset) offset where
  one_le_line := Nat.succ_pos _
  one_le_column := Nat.succ_pos _
  recovered := by
    have le := lastLineStart_take_le text offset
    refine ⟨_, lineStart?_line text offset, ?_⟩
    rw [ofOffset]
    dsimp only
    omega
  begun _ _ := lineStart?_le_iff

end Lines

end Place

/-! ## Tokens and refusals -/

/-- A text is refused with the place of an offset, under whatever limit of nesting. -/
theorem exists_remark_of_refused {levels origin : Nat} {text : List Char} {remark : Remark}
    (refused : readWithin levels text origin = .error (.refused remark)) :
    ∃ message offset, remark = .ofOffset message text offset := by
  unfold readWithin at refused
  generalize (parseWithin levels Memo.remembering text origin).1 = outcome at refused
  cases outcome with
  | ok tree => cases refused
  | error fault =>
    cases fault with
    | numeralTooLong digits => cases refused
    | nestedTooDeeply =>
      cases refused
      exact ⟨_, origin, rfl⟩
    | rejected cause offset =>
      cases refused
      exact ⟨_, offset, rfl⟩

/-- Line and column identify the offset. Places stand in the order of their offsets, past the end of the
text too. Each is a line and a column from one on, and the offset is recovered by counting the column from
where the line begins; the line is the last one that begins by the offset. So it is with the place of every
token, from wherever it is read, and of every refusal, under whatever limit of nesting; and no place is
that of two offsets. -/
theorem place_identifies_offset (text : List Char) :
    (StrictMono fun offset => (Place.ofOffset text offset).key) ∧
    (∀ offset, (Place.ofOffset text offset).Marks text offset) ∧
    (∀ origin,
      ((Token.readFrom text origin).place text).Marks text (Token.readFrom text origin).start) ∧
    (∀ origin, (readProgram text origin).program = readWithin nestingLimit text origin) ∧
    (∀ levels origin remark, readWithin levels text origin = .error (.refused remark) →
      ∃ (place : Place) (offset : Nat), remark.offset = offset ∧ remark.line = some ↑place.line ∧
        remark.column = some ↑place.column ∧ place.Marks text offset) ∧
    ∀ (place : Place) (i j : Nat), place.Marks text i → place.Marks text j → i = j := by
  have marks := Place.marks_ofOffset text
  refine ⟨fun i j lt => (marks i).key_lt_key (marks j) lt, marks, fun origin => marks _,
    fun origin => rfl, fun levels origin remark refused => ?_, fun place i j => Place.Marks.offset_unique⟩
  obtain ⟨message, offset, rfl⟩ := exists_remark_of_refused refused
  exact ⟨_, offset, rfl, rfl, rfl, marks offset⟩

/-- A bracket on the third line that nothing opens. -/
def strayBracket : List Char := ['x', ';', '\n', '\n', ' ', ' ', ')']

theorem place_identifies_offset_strayBracket :
    (Place.ofOffset strayBracket 3).key < (Place.ofOffset strayBracket 9).key ∧
      Place.lineStart? strayBracket 3 = some 4 ∧
      (Token.readFrom strayBracket 2).place strayBracket = ⟨3, 3⟩ ∧
      readWithin 3 strayBracket 0 = .error (.refused ⟨"unexpected ')'", 6, some 3, some 3⟩) ∧
      ∀ offset, Place.Marks strayBracket ⟨3, 3⟩ offset ↔ offset = 6 := by
  obtain ⟨order, -, -, -, refusals, unique⟩ := place_identifies_offset strayBracket
  have refused : readWithin 3 strayBracket 0
      = .error (.refused ⟨"unexpected ')'", 6, some 3, some 3⟩) := by
    have rejected : (parseWithin 3 Memo.remembering strayBracket 0).1
        = .error (.rejected (.unexpected (.operator ")")) 6) := by
      cbv
    rw [readWithin, rejected]
    rfl
  obtain ⟨⟨line, column⟩, six, atOffset, atLine, atColumn, marks⟩ := refusals 3 0 _ refused
  cases atOffset
  cases atLine
  cases atColumn
  refine ⟨order (by decide), by decide, by decide, refused, fun offset => ?_⟩
  exact ⟨fun other => unique _ _ _ other marks, fun eq => eq ▸ marks⟩

end Abacus
