import Abacus.Proofs.LongestMatch

/-!
# Where a text can be cut

A word depends on the character after it, and on none beyond that. So a text can be cut wherever a token
begins or stops. `Cut words a b` says that in the text `a ++ b` the words of `a` are `words` and that
none of them goes on into `b`. The words of the whole are then those of `a` and those of `b`, and what
stands after the cut can be replaced, if the replacement begins alike or with a blank.

`Stream.cut_of_split` finds the cut that belongs to two parts of a stream of tokens.
-/

namespace Abacus

/-- `new` can stand after a word in the place of `old`. -/
def Follows (old new : List Char) : Prop :=
  new.head? = old.head? ∨ ∀ c, new.head? = some c → isBlank c = true

namespace Follows

variable {old new : List Char}

theorem refl (text : List Char) : Follows text text := .inl rfl

theorem nil (old : List Char) : Follows old [] := .inr nofun

theorem cons {c : Char} (blank : isBlank c = true) (old new : List Char) : Follows old (c :: new) := by
  refine .inr fun d hd => ?_
  cases hd
  exact blank

theorem append_left (h : Follows old new) (text : List Char) : Follows (text ++ old) (text ++ new) := by
  cases text with
  | nil => exact h
  | cons c text => exact .inl rfl

theorem blanks {gap : List Char} (h : ∀ c ∈ gap, isBlank c = true) (text : List Char) :
    Follows text (gap ++ text) := by
  cases gap with
  | nil => exact refl text
  | cons c gap => exact cons (h c List.mem_cons_self) _ _

end Follows

/-- After some blanks the text has the word `l`, spelt `c :: body`, and then `tail`. -/
structure HasWord (l : Lexeme) (gap : List Char) (c : Char) (body tail : List Char) : Prop where
  blanks : ∀ d ∈ gap, isBlank d = true
  solid : isBlank c = false
  spelling : Lexeme.ofHead c body = (l, body.length + 1)
  stops : ∀ d, tail.head? = some d → l.endsBefore d = true

namespace HasWord

variable {l : Lexeme} {gap : List Char} {c : Char} {body tail : List Char}

theorem head (h : HasWord l gap c body tail) : Lexeme.ofHead c (body ++ tail) = (l, body.length + 1) :=
  Lexeme.ofHead_append_iff.2 ⟨h.spelling, h.stops⟩

theorem change (h : HasWord l gap c body tail) {new : List Char} (follows : Follows tail new) :
    HasWord l gap c body new := by
  refine ⟨h.blanks, h.solid, h.spelling, fun d hd => ?_⟩
  rcases follows with same | blank
  · exact h.stops d (same ▸ hd)
  · exact l.endsBefore_of_isBlank (blank d hd)

theorem ne_endOfInput (h : HasWord l gap c body tail) : l ≠ .endOfInput := by
  have ne := Lexeme.ofHead_ne_endOfInput c body
  rwa [h.spelling] at ne

/-- More blanks before the word. -/
theorem after_blanks (h : HasWord l gap c body tail) {more : List Char}
    (blanks : ∀ d ∈ more, isBlank d = true) : HasWord l (more ++ gap) c body tail :=
  ⟨fun d hd => (List.mem_append.1 hd).elim (blanks d) (h.blanks d), h.solid, h.spelling, h.stops⟩

/-- A text is blank, or it has a first word. -/
theorem blank_or_exists (text : List Char) :
    (∀ c ∈ text, isBlank c = true) ∨
      ∃ l gap c body tail, text = gap ++ c :: (body ++ tail) ∧ HasWord l gap c body tail := by
  have split := List.takeWhile_append_dropWhile (p := isBlank) (l := text)
  have blanks : ∀ d ∈ text.takeWhile isBlank, isBlank d = true := fun _ => List.mem_takeWhile_imp
  cases rest : text.dropWhile isBlank with
  | nil =>
    rw [rest, List.append_nil] at split
    exact .inl (split ▸ blanks)
  | cons c cs =>
    have solid : isBlank c = false := by
      have := List.head?_dropWhile_not isBlank text
      simpa [rest] using this
    have pos := Lexeme.ofHead_size_pos c cs
    have le := Lexeme.ofHead_size_le c cs
    have whole : Lexeme.ofHead c
          (cs.take ((Lexeme.ofHead c cs).2 - 1) ++ cs.drop ((Lexeme.ofHead c cs).2 - 1))
        = ((Lexeme.ofHead c cs).1, (cs.take ((Lexeme.ofHead c cs).2 - 1)).length + 1) := by
      rw [List.take_append_drop, List.length_take, Nat.min_eq_left (by omega), Nat.sub_add_cancel pos]
    obtain ⟨spelling, stops⟩ := Lexeme.ofHead_append_iff.1 whole
    refine .inr ⟨_, text.takeWhile isBlank, c, _, _, ?_, blanks, solid, spelling, stops⟩
    rw [List.take_append_drop, ← rest, split]

end HasWord

/-! ## Reading -/

theorem Token.next_blank {gap : List Char} (blanks : ∀ c ∈ gap, isBlank c = true) (offset : Nat) :
    next offset gap
      = (⟨.endOfInput, offset, offset + gap.length, offset + gap.length, []⟩, []) := by
  have nothing : gap.dropWhile isBlank = [] := List.dropWhile_eq_nil_iff.2 blanks
  have all : gap.takeWhile isBlank = gap := List.takeWhile_eq_self_iff.2 blanks
  rw [next, nothing, all]

theorem Token.next_word {l : Lexeme} {gap : List Char} {c : Char} {body tail : List Char}
    (h : HasWord l gap c body tail) (offset : Nat) :
    next offset (gap ++ c :: (body ++ tail))
      = (⟨l, offset, offset + gap.length, offset + gap.length + (body.length + 1),
          dotsAfterFirst (offset + gap.length) (c :: body)⟩, tail) := by
  have stop : ¬ isBlank c = true := by simp [h.solid]
  have before : (gap ++ c :: (body ++ tail)).takeWhile isBlank = gap := by
    rw [List.takeWhile_append_of_pos h.blanks, List.takeWhile_cons_of_neg stop, List.append_nil]
  have after : (gap ++ c :: (body ++ tail)).dropWhile isBlank = c :: (body ++ tail) := by
    rw [List.dropWhile_append_of_pos h.blanks, List.dropWhile_cons_of_neg stop]
  rw [next, before, after]
  simp [h.head]

namespace Stream

theorem read_blank {gap : List Char} (blanks : ∀ c ∈ gap, isBlank c = true) (offset : Nat) :
    read offset gap
      = ⟨[], ⟨.endOfInput, offset, offset + gap.length, offset + gap.length, []⟩⟩ := by
  rw [read, Token.next_blank blanks]
  rfl

theorem read_word {l : Lexeme} {gap : List Char} {c : Char} {body tail : List Char}
    (h : HasWord l gap c body tail) (offset : Nat) :
    let stop := offset + gap.length + (body.length + 1)
    read offset (gap ++ c :: (body ++ tail))
      = ⟨⟨l, offset, offset + gap.length, stop,
            Token.dotsAfterFirst (offset + gap.length) (c :: body)⟩ :: (read stop tail).tokens,
          (read stop tail).final⟩ := by
  intro stop
  rw [read, Token.next_word h]
  exact if_neg h.ne_endOfInput

theorem read_final_stop (offset : Nat) (text : List Char) :
    (read offset text).final.stop = (read offset text).final.start := by
  rcases HasWord.blank_or_exists text with blanks | ⟨l, gap, c, body, tail, rfl, word⟩
  · rw [read_blank blanks]
  · rw [read_word word]
    exact read_final_stop _ tail
termination_by text.length
decreasing_by simp [*]; omega

/-- The words of a text do not depend on where it stands. -/
theorem read_lexemes_eq (text : List Char) (offset offset' : Nat) :
    (read offset text).lexemes = (read offset' text).lexemes := by
  rcases HasWord.blank_or_exists text with blanks | ⟨l, gap, c, body, tail, rfl, word⟩
  · rw [read_blank blanks, read_blank blanks]
    rfl
  · rw [read_word word, read_word word]
    exact congrArg (l :: ·) (read_lexemes_eq tail _ _)
termination_by text.length
decreasing_by simp [*]; omega

end Stream

/-! ## Cuts -/

/-- In the text `a ++ b` the words of `a` are `words`, and none of them goes on into `b`. -/
inductive Cut : List Lexeme → List Char → List Char → Prop
  | blank {gap b} (blanks : ∀ c ∈ gap, isBlank c = true) : Cut [] gap b
  | word {l gap c body words a b} (word : HasWord l gap c body (a ++ b)) (rest : Cut words a b) :
      Cut (l :: words) (gap ++ c :: (body ++ a)) b

namespace Cut

variable {words : List Lexeme} {a b : List Char}

theorem change (h : Cut words a b) {new : List Char} (follows : Follows b new) : Cut words a new := by
  induction h with
  | blank blanks => exact .blank blanks
  | word word _ ih => exact .word (word.change (follows.append_left _)) (ih follows)

/-- Blanks before all words. -/
theorem after_blanks (h : Cut words a b) {gap : List Char} (blanks : ∀ c ∈ gap, isBlank c = true) :
    Cut words (gap ++ a) b := by
  cases h with
  | blank blanks' => exact .blank fun c hc => (List.mem_append.1 hc).elim (blanks c) (blanks' c)
  | word word rest =>
    rw [← List.append_assoc]
    exact .word (word.after_blanks blanks) rest

/-- Blanks before the cut, or after it. -/
theorem append_blanks {gap : List Char} (h : Cut words a (gap ++ b))
    (blanks : ∀ c ∈ gap, isBlank c = true) : Cut words (a ++ gap) b := by
  generalize eq : gap ++ b = rest at h
  induction h with
  | blank before => exact .blank fun c hc => (List.mem_append.1 hc).elim (before c) (blanks c)
  | word word _ ih =>
    subst eq
    rw [← List.append_assoc] at word
    have whole := Cut.word word (ih rfl)
    simpa only [List.append_assoc, List.cons_append] using whole

/-- The words before the cut, and the words after it. -/
theorem lexemes_eq (h : Cut words a b) (offset offset' : Nat) :
    (Stream.read offset (a ++ b)).lexemes = words ++ (Stream.read offset' b).lexemes := by
  induction h generalizing offset with
  | @blank gap b blanks =>
    rw [List.nil_append]
    rcases HasWord.blank_or_exists b with blanks' | ⟨l, gap', c, body, tail, rfl, word⟩
    · have all : ∀ c ∈ gap ++ b, isBlank c = true := fun c hc =>
        (List.mem_append.1 hc).elim (blanks c) (blanks' c)
      rw [Stream.read_blank all, Stream.read_blank blanks']
      rfl
    · rw [← List.append_assoc, Stream.read_word (word.after_blanks blanks), Stream.read_word word]
      exact congrArg (l :: ·) (Stream.read_lexemes_eq tail _ _)
  | @word l gap c body words a b word _ ih =>
    rw [List.append_assoc, List.cons_append, List.append_assoc, Stream.read_word word]
    exact congrArg (l :: ·) (ih _)

end Cut

namespace Stream

/-- Two parts of a stream of tokens are the words before a cut and what is read after it. The cut is
where the last token of the first part stops, or where the text begins. -/
theorem cut_of_split {offset : Nat} {text : List Char} {taken us : List Token}
    (h : (read offset text).tokens = taken ++ us) :
    ∃ a b, text = a ++ b ∧ Cut (taken.map Token.lexeme) a b ∧
      read (offset + a.length) b = ⟨us, (read offset text).final⟩ ∧
      taken.getLast?.elim offset Token.stop = offset + a.length := by
  induction taken generalizing offset text with
  | nil => exact ⟨[], text, rfl, .blank (List.forall_mem_nil _), congrArg (Stream.mk · _) h, rfl⟩
  | cons t taken ih =>
    rcases HasWord.blank_or_exists text with blanks | ⟨l, gap, c, body, tail, rfl, word⟩
    · rw [read_blank blanks] at h
      cases h
    · rw [read_word word] at h ⊢
      obtain ⟨rfl, rest⟩ := List.cons.inj h
      obtain ⟨a, b, rfl, cut, resumed, stop⟩ := ih rest
      have length : offset + (gap ++ c :: (body ++ a)).length
          = offset + gap.length + (body.length + 1) + a.length := by
        simp only [List.length_append, List.length_cons]
        omega
      refine ⟨gap ++ c :: (body ++ a), b, by simp, .word word cut, ?_, ?_⟩
      · rw [length]
        exact resumed
      · rw [length, ← stop, List.getLast?_cons]
        cases taken.getLast? <;> rfl

/-- The cut can also be made where the first token of the second part begins. -/
theorem cut_of_split_start {offset : Nat} {text : List Char} {taken us : List Token}
    (h : (read offset text).tokens = taken ++ us) :
    ∃ a b, text = a ++ b ∧ Cut (taken.map Token.lexeme) a b ∧
      (us.headD (read offset text).final).start = offset + a.length := by
  obtain ⟨a, b, rfl, cut, resumed, -⟩ := cut_of_split h
  rcases HasWord.blank_or_exists b with blanks | ⟨l, gap, c, body, tail, rfl, word⟩
  · rw [read_blank blanks] at resumed
    obtain ⟨rfl, final⟩ := Stream.mk.inj resumed
    refine ⟨a ++ b, [], by simp, Cut.append_blanks (by simpa using cut) blanks, ?_⟩
    rw [List.headD_nil, ← final, List.length_append, Nat.add_assoc]
  · rw [read_word word] at resumed
    obtain ⟨rfl, -⟩ := Stream.mk.inj resumed
    refine ⟨a ++ gap, c :: (body ++ tail), by simp, cut.append_blanks word.blanks, ?_⟩
    rw [List.headD_cons, List.length_append, Nat.add_assoc]

/-- A text can be cut wherever a token begins or stops. -/
theorem cut_of_mem {offset : Nat} {text : List Char} {t : Token} (ht : t ∈ (read offset text).all) :
    (∃ words a b, text = a ++ b ∧ Cut words a b ∧ t.start = offset + a.length) ∧
      ∃ words a b, text = a ++ b ∧ Cut words a b ∧ t.stop = offset + a.length := by
  rcases List.mem_append.1 ht with inner | final
  · obtain ⟨taken, us, split⟩ := List.append_of_mem inner
    obtain ⟨a, b, eq, cut, start⟩ := cut_of_split_start split
    rw [← List.singleton_append, ← List.append_assoc] at split
    obtain ⟨a', b', eq', cut', -, stop⟩ := cut_of_split split
    rw [List.getLast?_concat] at stop
    exact ⟨⟨_, a, b, eq, cut, start⟩, _, a', b', eq', cut', stop⟩
  · cases List.mem_singleton.1 final
    obtain ⟨a, b, eq, cut, start⟩ := cut_of_split_start (List.append_nil _).symm
    have stop : (read offset text).final.stop = (read offset text).final.start :=
      read_final_stop offset text
    exact ⟨⟨_, a, b, eq, cut, start⟩, _, a, b, eq, cut, stop.trans start⟩

end Stream

end Abacus
