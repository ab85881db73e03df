import Abacus.Proofs.Acceptance
import Abacus.Proofs.Sealed
import Abacus.Proofs.WordsOnly

/-!
# Texts one after the other

Two programs make a program when one is written right after the other, with nothing between them. The
last word of the first is a semicolon or a closing brace, which no character can prolong; and no program
begins with a word that could belong to the one before it. So the words of both are those of the first
and then those of the second, and the same holds of the statements, under every limit of nesting.
-/

namespace Abacus

open Phrase

/-! ## Words -/

/-- A list of words has a last one, and a statement can end in it. -/
def EndsSealed (ls : List Lexeme) : Prop := ∃ l, ls.getLast? = some l ∧ l.seals

namespace EndsSealed

variable {ls rs : List Lexeme}

theorem semicolon (ls : List Lexeme) : EndsSealed (ls ++ [.semicolon]) :=
  ⟨_, List.getLast?_concat, .inl rfl⟩

theorem brace (ls : List Lexeme) : EndsSealed (ls ++ [.operator "\x7d"]) :=
  ⟨_, List.getLast?_concat, .inr rfl⟩

theorem append (ls : List Lexeme) (h : EndsSealed rs) : EndsSealed (ls ++ rs) := by
  obtain ⟨l, last, seals⟩ := h
  exact ⟨l, by rw [List.getLast?_append, last]; rfl, seals⟩

theorem cons (l : Lexeme) (h : EndsSealed rs) : EndsSealed (l :: rs) := h.append [l]

theorem tokens {ts : List Token} (h : EndsSealed (ts.map Token.lexeme)) : Sealed ts := by
  obtain ⟨l, last, seals⟩ := h
  rw [List.getLast?_map, Option.map_eq_some_iff] at last
  obtain ⟨t, last, rfl⟩ := last
  exact ⟨t, last, seals⟩

end EndsSealed

namespace Phrase

theorem Braced.endsSealed {ls b} (h : Braced ls b) : EndsSealed ls := by
  cases h with
  | block => exact (EndsSealed.brace _).cons _

theorem Arms.endsSealed {ls as} (h : Arms ls as) : EndsSealed ls := by
  cases h with
  | last _ body => exact body.endsSealed.append _
  | otherwise _ _ other => exact ((other.endsSealed.cons _).append _).append _
  | elif _ _ arms => exact ((arms.endsSealed.cons _).append _).append _

theorem Statement.endsSealed {ls s} (h : Statement ls s) : EndsSealed ls := by
  cases h with
  | assignment _ => exact ((EndsSealed.semicolon _).cons _).cons _
  | returns _ => exact (EndsSealed.semicolon _).cons _
  | expression _ => exact EndsSealed.semicolon _
  | function _ body => exact ((((body.endsSealed.cons _).append _).cons _).cons _).cons _
  | branch arms => exact arms.endsSealed.cons _
  | loop _ body => exact (body.endsSealed.append _).cons _

/-- Every statement ends in a semicolon or a brace. -/
theorem Block.nil_or_endsSealed {ls ss} (h : Block ls ss) : ls = [] ∨ EndsSealed ls := by
  generalize length : ls.length = n
  -- by the number of words: a semicolon alone adds a word but no statement
  induction n using Nat.strong_induction_on generalizing ls ss with
  | _ n ih =>
    subst length
    cases h with
    | nil => exact .inl rfl
    | semicolon block =>
      rcases ih _ (by simp) block rfl with rfl | rest
      · exact .inr (EndsSealed.semicolon [])
      · exact .inr (rest.cons _)
    | cons statement block =>
      have sealed := statement.endsSealed
      obtain ⟨l, rs, rfl, -⟩ := statement.begins
      rcases ih _ (by simp) block rfl with rfl | rest
      · rw [List.append_nil]
        exact .inr sealed
      · exact .inr (rest.append _)

end Phrase

namespace Lexeme

/-- Nothing prolongs a brace. -/
theorem endsBefore_brace {symbol : String} (brace : symbol = "\x7b" ∨ symbol = "\x7d") (d : Char) :
    (operator symbol).endsBefore d = true := by
  have single : ∀ known ∈ operatorTable, known.toList.head? = some '\x7b' ∨
      known.toList.head? = some '\x7d' → known.length = 1 := by decide
  simp only [endsBefore, decide_eq_true_eq]
  intro mem
  rcases brace with rfl | rfl
  · have := single _ mem (.inl (by simp))
    simp at this
  · have := single _ mem (.inr (by simp))
    simp at this

/-- Nothing prolongs a word in which a statement ends. -/
theorem seals.endsBefore {l : Lexeme} (h : l.seals) (d : Char) : l.endsBefore d = true := by
  rcases h with rfl | rfl
  · rfl
  · exact endsBefore_brace (.inr rfl) d

end Lexeme

/-- A cut after a word that nothing prolongs can be followed by anything. -/
theorem Cut.change_of_sealed {words : List Lexeme} {a b : List Char} (h : Cut words a b)
    (sealed : words = [] ∨ EndsSealed words) (new : List Char) : Cut words a new := by
  induction h with
  | blank blanks => exact .blank blanks
  | @word l gap c body words a b word rest ih =>
    have whole : EndsSealed (l :: words) := sealed.resolve_left (List.cons_ne_nil _ _)
    cases rest with
    | blank blanks =>
      have seals : l.seals := by
        obtain ⟨_, ⟨⟩, seals⟩ := whole
        exact seals
      exact .word ⟨word.blanks, word.solid, word.spelling, fun d _ => seals.endsBefore d⟩ (.blank blanks)
    | @word l' gap' c' body' words a' _ word' rest' =>
      have follows : Follows (gap' ++ c' :: (body' ++ a') ++ b) (gap' ++ c' :: (body' ++ a') ++ new) := by
        left
        cases gap' <;> rfl
      have later : EndsSealed (l' :: words) := by
        obtain ⟨last, eq, seals⟩ := whole
        exact ⟨last, by rwa [List.getLast?_cons_cons] at eq, seals⟩
      exact .word (word.change follows) (ih (.inr later))

namespace Stream

/-- A text is cut at its end. -/
theorem cut_whole (text : List Char) : Cut (ofText text 0).lexemes text [] := by
  obtain ⟨front, gap, rfl, cut, resumed, -⟩ := cut_of_split (List.append_nil (ofText text 0).tokens).symm
  have blanks : ∀ c ∈ gap, isBlank c = true := by
    rcases HasWord.blank_or_exists gap with blanks | ⟨l, gap, c, body, tail, rfl, word⟩
    · exact blanks
    · rw [read_word word] at resumed
      cases (Stream.mk.inj resumed).1
  have spaced : Cut (ofText (front ++ gap) 0).lexemes front (gap ++ []) := by
    rw [List.append_nil]
    exact cut
  exact spaced.append_blanks blanks

/-- The words of two texts, one after the other. -/
theorem lexemes_append {a : List Char}
    (sealed : (ofText a 0).lexemes = [] ∨ EndsSealed (ofText a 0).lexemes) (b : List Char) :
    (ofText (a ++ b) 0).lexemes = (ofText a 0).lexemes ++ (ofText b 0).lexemes :=
  ((cut_whole a).change_of_sealed sealed b).lexemes_eq 0 0

/-- The words of two texts with a blank between them. -/
theorem lexemes_append_blank (a : List Char) {c : Char} (blank : isBlank c = true) (b : List Char) :
    (ofText (a ++ c :: b) 0).lexemes = (ofText a 0).lexemes ++ (ofText b 0).lexemes := by
  have cut : Cut (ofText a 0).lexemes a ([c] ++ b) := (cut_whole a).change (.cons blank [] b)
  have blanks : ∀ d ∈ [c], isBlank d = true := List.forall_mem_singleton.2 blank
  rw [List.append_cons]
  exact (cut.append_blanks blanks).lexemes_eq 0 0

end Stream

/-! ## Blocks -/

/-- Two parsers that see what stands there, each on tokens of its own with the same words. -/
def Pairing.wordwise {src src' : Source} (direct : src.Direct) (direct' : src'.Direct)
    (ends : src.final.lexeme = src'.final.lexeme) : Pairing where
  left := src
  right := src'
  stand ts _ ts' _ := ts.map Token.lexeme = ts'.map Token.lexeme
  fault _ _ := True
  excused _ := False
  levels k l := k = l
  look := by
    intro ts m ts' m' same
    refine ⟨?_, same⟩
    rw [Source.look_token direct, Source.look_token direct']
    cases ts with
    | nil =>
      cases List.map_eq_nil_iff.1 same.symm
      exact ends
    | cons t ts =>
      obtain ⟨t', us', rfl, first, -⟩ := List.map_eq_cons_iff.1 same.symm
      exact first.symm
  nil := by
    intro m ts' m' same
    exact List.map_eq_nil_iff.1 same.symm
  cons := by
    intro t ts m ts' m' same
    cases ts' with
    | nil => cases same
    | cons t' us' => exact ⟨t', us', rfl, (List.cons.inj same).2⟩
  back same _ _ _ := same
  rejected _ _ := trivial
  trailing _ _ := trivial
  numeral _ := trivial
  bottom := by
    rintro _ rfl
    exact .inl ⟨rfl, trivial⟩
  descend := descend_of_eq

/-- With so many levels the words are read as a block of these statements, whatever tokens they belong
to. -/
def Reads (levels : Nat) (words : List Lexeme) (nodes : List Node) : Prop :=
  ∀ ⦃src : Source⦄, src.Direct → src.final.lexeme = .endOfInput →
    ∀ ⦃ts : List Token⦄, ts.map Token.lexeme = words → (src.block levels).Takes ts nodes []

/-- It is enough to read them once. -/
theorem reads_of_read {src : Source} (direct : src.Direct) (ends : src.final.lexeme = .endOfInput)
    {levels : Nat} {ts : List Token} {m n : Memo} {nodes : List Node} {lt}
    (read : src.block levels ts m = (.matched nodes [] lt, n)) :
    Reads levels (ts.map Token.lexeme) nodes := by
  intro src' direct' ends' ts' same m'
  let c := Pairing.wordwise direct direct' (ends.trans ends'.symm)
  have equal : c.levels levels levels := rfl
  have stand : c.stand ts m ts' m' := same.symm
  have outcome := Pairing.block equal stand
  rw [show c.left.block levels ts m = _ from read] at outcome
  change c.Outcome ts ts' _ (src'.block levels ts' m') at outcome
  generalize src'.block levels ts' m' = x at outcome ⊢
  cases outcome with
  | @matched _ _ us' _ _ _ _ _ _ stand =>
    obtain rfl : us' = [] := c.nil stand
    exact ⟨_, _, rfl⟩

/-- Words that are read as a block are one. -/
theorem Reads.block {levels : Nat} {words : List Lexeme} {nodes : List Node}
    (h : Reads levels words nodes) : Block words nodes := by
  let token (word : Lexeme) : Token := ⟨word, 0, 0, 0, []⟩
  let src : Source := ⟨Memo.rereading, token .endOfInput⟩
  have lexemes : (words.map token).map Token.lexeme = words := by
    rw [List.map_map]
    exact List.map_id words
  have direct : src.Direct := Source.direct_rereading _
  obtain ⟨lt, m, read⟩ := h direct rfl lexemes .empty
  have verdict := (Source.block_sound direct levels).verdict (words.map token) .empty
  rw [read] at verdict
  cases verdict with
  | matched taken split phrase =>
    rw [List.append_nil] at split
    rwa [← split, lexemes] at phrase

/-- The statements of the words before, and those of the words after. -/
theorem Reads.append {levels : Nat} {ls rs : List Lexeme} {nodes nodes' : List Node}
    (h : Reads levels ls nodes) (h' : Reads levels rs nodes') :
    Reads levels (ls ++ rs) (nodes ++ nodes') := by
  intro src direct ends ts words
  obtain ⟨before, after, rfl, rfl, rfl⟩ := List.map_eq_append_iff.1 words
  have sealed : SealedOrNil before := by
    rcases h.block.nil_or_endsSealed with nothing | sealed
    · exact .inl (List.map_eq_nil_iff.1 nothing)
    · exact .inr sealed.tokens
  have apart : NoArm after := by
    intro t first
    obtain ⟨us, rfl⟩ := List.head?_eq_some_iff.1 first
    have begins : Phrase.begins t.lexeme := h'.block.begins
    constructor
    · intro eq
      rw [eq] at begins
      cases begins
    · intro eq
      rw [eq] at begins
      cases begins
  exact Source.block_append direct apart sealed (h direct ends rfl) (h' direct ends rfl)

/-! ## Programs -/

/-- A program is read where its words are read as a block. -/
theorem readWithin_eq_ok_iff {levels : Nat} {text : List Char} {tree : Node} :
    readWithin levels text 0 = .ok tree ↔
      ∃ nodes, tree = .block nodes ∧ Reads levels (Stream.ofText text 0).lexemes nodes := by
  let s := Stream.ofText text 0
  have direct : Source.Direct ⟨Memo.rereading, s.final⟩ := Source.direct_rereading _
  have ends : s.final.lexeme = .endOfInput := Stream.read_final_lexeme _ _
  have outcome : readWithin levels text 0 = .ok tree ↔
      (Source.program ⟨Memo.rereading, s.final⟩ levels s.tokens .empty).1 = .ok tree := by
    rw [readWithin, parseWithin_eq_rereading]
    change (Except.mapError _ (Source.program ⟨Memo.rereading, s.final⟩ levels s.tokens .empty).1) = _ ↔ _
    cases (Source.program ⟨Memo.rereading, s.final⟩ levels s.tokens .empty).1 <;> simp [Except.mapError]
  rw [outcome]
  constructor
  · intro ok
    obtain ⟨nodes, rest, lt, m, read, rfl, last, -⟩ := Source.program_eq_ok ok
    have verdict := (Source.block_sound direct levels).verdict s.tokens .empty
    rw [read] at verdict
    cases verdict with
    | matched taken split phrase =>
      cases rest with
      | nil => exact ⟨nodes, rfl, reads_of_read direct ends read⟩
      | cons t rest =>
        have word : t ∈ s.tokens := by
          rw [split]
          simp
        rw [Source.look_token direct] at last
        exact absurd last (Stream.read_lexeme_ne word)
  · rintro ⟨nodes, rfl, reads⟩
    obtain ⟨lt, m, read⟩ := reads direct ends rfl .empty
    unfold Source.program Source.programOf
    rw [read]
    dsimp only
    rw [Source.look_token direct, List.headD_nil, if_pos ends]

/-- Two programs make one, with the statements of the first and then those of the second. -/
theorem readWithin_append {levels : Nat} {a b : List Char} {first second : Node}
    (ha : readWithin levels a 0 = .ok first) (hb : readWithin levels b 0 = .ok second) :
    ∃ nodes nodes', first = .block nodes ∧ second = .block nodes' ∧
      readWithin levels (a ++ b) 0 = .ok (.block (nodes ++ nodes')) := by
  obtain ⟨nodes, rfl, reads⟩ := readWithin_eq_ok_iff.1 ha
  obtain ⟨nodes', rfl, reads'⟩ := readWithin_eq_ok_iff.1 hb
  refine ⟨nodes, nodes', rfl, rfl, readWithin_eq_ok_iff.2 ⟨_, rfl, ?_⟩⟩
  rw [Stream.lexemes_append reads.block.nil_or_endsSealed]
  exact reads.append reads'

end Abacus
