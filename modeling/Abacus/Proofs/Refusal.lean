import Mathlib
import Abacus.Proofs.Acceptance
import Abacus.Proofs.WordsOnly

/-!
# Where a text is refused

Everything before the offset at which a text is refused could still have become a program. The rules say
so of tokens; the text is cut where the last of them stops, and the words that complete them are written
after the cut. So no token is blamed for one before it, and no rule commits itself too early.
-/

namespace Abacus

open Phrase

/-- The first token of a stream is read from where the stream begins. -/
theorem Stream.read_headD_origin (offset : Nat) (text : List Char) :
    ((read offset text).tokens.headD (read offset text).final).origin = offset := by
  rw [read]
  dsimp only
  split <;> exact Token.next_origin offset text

/-- Words after a cut, in a text that is read from an offset. -/
theorem lexemes_completed {text a b : List Char} {offset : Nat} {words rs : List Lexeme}
    (within : offset ≤ text.length) (split : text.drop offset = a ++ b) (cut : Cut words a b)
    (proper : ∀ l ∈ rs, l.Proper) :
    (Stream.ofText (text.take (offset + a.length) ++ ' ' :: writeWords rs) offset).lexemes
      = words ++ rs := by
  have size : offset ≤ (text.take (offset + a.length)).length := by
    rw [List.length_take]
    omega
  have before : (text.take (offset + a.length)).drop offset = a := by
    rw [List.drop_take, Nat.add_sub_cancel_left, split, List.take_left]
  have blank : ∀ c ∈ [' '], isBlank c = true := List.forall_mem_singleton.2 rfl
  have spaced : Cut [] [' '] (writeWords rs) := .blank blank
  rw [Stream.ofText, List.drop_append_of_le_length size, before]
  calc (Stream.read offset (a ++ ' ' :: writeWords rs)).lexemes
      = words ++ (Stream.read 0 (' ' :: writeWords rs)).lexemes :=
        (cut.change (.cons rfl b _)).lexemes_eq offset 0
    _ = words ++ (Stream.read 0 (writeWords rs)).lexemes :=
        congrArg (words ++ ·) (spaced.lexemes_eq 0 0)
    _ = words ++ rs := by rw [lexemes_writeWords proper]

/-- What can be said of an offset at which a text is refused. -/
structure ClosesText (text : List Char) (offset : Nat) (message : String) (pos : Nat) : Prop where
  offset_le : offset ≤ pos
  le_length : pos ≤ text.length
  /-- It is where a token ends, if not where the program begins; only what follows a whole program is
  reported where it begins itself. -/
  token : pos = offset ∨ (∃ t ∈ (Stream.ofText text offset).tokens, pos = t.stop) ∨
    ∃ t ∈ (Stream.ofText text offset).tokens,
      message = (Cause.unexpected t.lexeme).message ∧ pos = t.start
  /-- What stands before it can still become a program. -/
  viable : ∃ rest tree, parseFreely (text.take pos ++ rest) offset = .ok tree

section

variable {text a b : List Char} {offset : Nat} (split : text.drop offset = a ++ b)
include split

theorem offset_add_length_le (within : offset ≤ text.length) : offset + a.length ≤ text.length := by
  have size := congrArg List.length split
  rw [List.length_drop, List.length_append] at size
  omega

/-- A text that is cut after viable words becomes a program with words that complete them. -/
theorem exists_completed (within : offset ≤ text.length) {words rs : List Lexeme} {tree : Node}
    (cut : Cut words a b) (proper : ∀ l ∈ rs, l.Proper) (phrase : Program (words ++ rs) tree) :
    ∃ rest tree, parseFreely (text.take (offset + a.length) ++ rest) offset = .ok tree := by
  refine ⟨' ' :: writeWords rs, tree, (parseFreely_eq_ok_iff _ _ _).2 ?_⟩
  rwa [lexemes_completed within split cut proper]

end

/-- Where a rule fails, the tokens taken so far are viable, and so is the text up to where they end. -/
theorem closesText_of_closes {text : List Char} {offset : Nat} (within : offset ≤ text.length) {pos : Nat}
    (closes : Closes ⟨Memo.rereading, (Stream.ofText text offset).final⟩ Program
      (Stream.ofText text offset).tokens pos) (message : String) :
    ClosesText text offset message pos := by
  obtain ⟨taken, us, split, stands, rs, tree, proper, phrase⟩ := closes
  obtain ⟨a, b, eq, cut, resumed, stop⟩ := Stream.cut_of_split split
  have origin := Stream.read_headD_origin (offset + a.length) b
  rw [resumed] at origin
  obtain rfl : pos = offset + a.length := stands.trans origin
  refine ⟨Nat.le_add_right .., offset_add_length_le eq within, ?_,
    exists_completed eq within cut proper phrase⟩
  cases last : taken.getLast? with
  | none =>
    rw [last] at stop
    exact .inl stop.symm
  | some t =>
    rw [last] at stop
    refine .inr (.inl ⟨t, ?_, stop.symm⟩)
    rw [split]
    exact List.mem_append_left _ (List.mem_of_getLast? last)

/-- What follows a whole program is refused where it starts. -/
theorem closesText_of_after {text : List Char} {offset : Nat} (within : offset ≤ text.length)
    {taken us : List Token} {t : Token} {tree : Node}
    (split : (Stream.ofText text offset).tokens = taken ++ t :: us)
    (phrase : Program (taken.map Token.lexeme) tree) :
    ClosesText text offset (Cause.unexpected t.lexeme).message t.start := by
  obtain ⟨a, b, eq, cut, start⟩ := Stream.cut_of_split_start split
  have start : t.start = offset + a.length := start
  refine ⟨?_, ?_, .inr (.inr ⟨t, ?_, rfl, rfl⟩), ?_⟩
  · rw [start]
    exact Nat.le_add_right ..
  · rw [start]
    exact offset_add_length_le eq within
  · rw [split]
    exact List.mem_append_right _ List.mem_cons_self
  · rw [start]
    exact exists_completed eq within cut (List.forall_mem_nil _) (by rwa [List.append_nil])

theorem closesText_of_rejected {text : List Char} {offset : Nat} (within : offset ≤ text.length)
    {cause : Cause} {pos : Nat} (rejected : parseFreely text offset = .error (.rejected cause pos)) :
    ClosesText text offset cause.message pos := by
  obtain ⟨tree, accepted, -⟩ | ⟨f, refused, refuses⟩ := parseWithin_verdict _ text offset
  · cases accepted.symm.trans rejected
  · cases refused.symm.trans rejected
    cases refuses with
    | inside blame =>
      cases blame with
      | rejected arises closes => exact closesText_of_closes within closes _
    | after split phrase => exact closesText_of_after within split phrase

/-- The place where the program begins closes the empty program. -/
theorem closesText_offset {text : List Char} {offset : Nat} (within : offset ≤ text.length)
    (message : String) : ClosesText text offset message offset where
  offset_le := Nat.le_refl _
  le_length := within
  token := .inl rfl
  viable := by
    have words : (Stream.ofText (text.take offset ++ [' ']) offset).lexemes = [] :=
      lexemes_completed within (List.nil_append _).symm (.blank (List.forall_mem_nil _))
        (List.forall_mem_nil _)
    refine ⟨[' '], .block [], (parseFreely_eq_ok_iff _ _ _).2 ?_⟩
    rw [words]
    exact ⟨[], rfl, .nil⟩

/-- Wherever a text is refused, under whatever limit of nesting, the report tells the line and the column
of an offset between where the program begins and where the text ends. It is the end of a token, or
where the program begins, or the start of what follows a whole program. And what stands before it can
still become a program. -/
theorem text_before_refusal_is_viable {text : List Char} {offset : Nat} (within : offset ≤ text.length) :
    (readProgram text offset).program = readWithin nestingLimit text offset ∧
    ∀ levels remark, readWithin levels text offset = .error (.refused remark) →
      ∃ pos : Nat, remark.offset = pos ∧ remark.line = some ↑(Place.ofOffset text pos).line ∧
        remark.column = some ↑(Place.ofOffset text pos).column ∧
        ClosesText text offset remark.message pos := by
  refine ⟨rfl, fun levels remark refused => ?_⟩
  unfold readWithin at refused
  cases outcome : (parseWithin levels Memo.remembering text offset).1 with
  | ok tree =>
    rw [outcome] at refused
    cases refused
  | error f =>
    rw [outcome] at refused
    cases f with
    | numeralTooLong digits => cases refused
    | nestedTooDeeply =>
      cases refused
      exact ⟨offset, rfl, rfl, rfl, closesText_offset within _⟩
    | rejected cause pos =>
      cases refused
      refine ⟨pos, rfl, rfl, rfl, closesText_of_rejected within ?_⟩
      rcases parseWithin_eq_parseFreely_or text offset levels with eq | deep
      · rw [← eq, outcome]
      · cases outcome.symm.trans deep

/-- A program on the second line, with a call that is not closed. -/
def unclosedSecond : List Char := ['x', ';', '\n', 'f', '(', '1', ' ', ';']

theorem text_before_refusal_is_viable_second_line :
    2 ≤ unclosedSecond.length ∧
      readWithin 3 unclosedSecond 2
        = .error (.refused ⟨"expected ',' or ')' in call to f", 6, some 2, some 4⟩) ∧
      ∃ pos : Nat, (6 : Int) = pos ∧
        ClosesText unclosedSecond 2 "expected ',' or ')' in call to f" pos := by
  have within : 2 ≤ unclosedSecond.length := by decide
  have refused : readWithin 3 unclosedSecond 2
      = .error (.refused ⟨"expected ',' or ')' in call to f", 6, some 2, some 4⟩) := by
    have rejected : (parseWithin 3 Memo.remembering unclosedSecond 2).1
        = .error (.rejected (.argumentEnd "f") 6) := by
      cbv
    rw [readWithin, rejected]
    rfl
  obtain ⟨pos, eq, -, -, closes⟩ := (text_before_refusal_is_viable within).2 3 _ refused
  exact ⟨within, refused, pos, eq, closes⟩

end Abacus
