import Mathlib
import Abacus.Proofs.LexicalGrammar

/-!
# The tokens of a text tile it

Reading token after token, each from where the one before stopped, comes to the end of the text. On the
way nothing is lost and nothing is read twice: what stands before a token is blank, and the blanks and
the tokens, one after the other, are the text (`tokens_tile_text`).

A token's value is the text it takes. Only a numeral with a dot is spelt anew, with its first dot and all
of its digits, and each of its other dots is warned of.
-/

namespace Abacus

/-- The characters of a text from one offset up to another. -/
def slice (text : List Char) (start stop : Nat) : List Char := (text.drop start).take (stop - start)

/-- A numeral without its dots after the first one, and with a zero if no digit comes after that. -/
def withOneDot (run : List Char) : List Char :=
  let later := (run.dropWhile (· != '.')).filter (· != '.')
  run.takeWhile (· != '.') ++ '.' :: if later.isEmpty then ['0'] else later

/-- The offsets of the dots of a text between two offsets, without the first one. -/
def dotsAgain (text : List Char) (start stop : Nat) : List Nat :=
  ((List.range' start (stop - start)).filter fun o => text[o]? == some '.').tail

/-- A token that takes a piece of the text, with nothing but blanks between the offset it was read from
and its start. -/
structure Token.Tile (text : List Char) (t : Token) : Prop where
  origin_le : t.origin ≤ t.start
  start_lt : t.start < t.stop
  stop_le : t.stop ≤ text.length
  gap : ∀ c ∈ slice text t.origin t.start, c ∈ [' ', '\t', '\r', '\n']
  value : t.lexeme.value.toList =
    if t.lexeme.kind = "FLOAT" then withOneDot (slice text t.start t.stop)
    else slice text t.start t.stop
  warnings : t.warnings text =
    if t.lexeme.kind = "FLOAT" then
      (dotsAgain text t.start t.stop).map fun o =>
        "repeated dots in the same number at " ++ Place.describe text o
    else []

/-! ## Values -/

theorem mem_blanks_of_isBlank {c : Char} (blank : isBlank c = true) : c ∈ [' ', '\t', '\r', '\n'] := by
  simpa [isBlank, or_assoc] using blank

/-- Of digits and dots, the digits are those that are no dots. -/
theorem isDigit_eq_bne {c : Char} (part : isNumeralPart c = true) : c.isDigit = (c != '.') := by
  rcases isNumeralPart_iff.1 part with digit | rfl
  · have digit := isDigit_iff.2 digit
    have noDot : c ≠ '.' := by
      rintro rfl
      cases digit
    rw [digit, bne_iff_ne.2 noDot]
  · rfl

theorem takeWhile_dropWhile_congr {p q : Char → Bool} {l : List Char} (h : ∀ c ∈ l, p c = q c) :
    l.takeWhile p = l.takeWhile q ∧ l.dropWhile p = l.dropWhile q := by
  induction l with
  | nil => exact ⟨rfl, rfl⟩
  | cons c l ih =>
    obtain ⟨here, below⟩ := List.forall_mem_cons.1 h
    obtain ⟨taken, left⟩ := ih below
    rw [List.takeWhile_cons, List.takeWhile_cons, List.dropWhile_cons, List.dropWhile_cons, here, taken,
      left]
    exact ⟨rfl, rfl⟩

theorem Lexeme.value_ofNumeral {run : List Char} (parts : ∀ c ∈ run, isNumeralPart c = true)
    (dotted : '.' ∈ run) : (ofNumeral run).value.toList = withOneDot run := by
  obtain ⟨tail, eq⟩ := exists_dropWhile_isDigit parts dotted
  obtain ⟨whole, rest⟩ := takeWhile_dropWhile_congr fun c hc => isDigit_eq_bne (parts c hc)
  have within : ∀ c ∈ tail, c ∈ run := fun c hc =>
    (List.dropWhile_sublist _).subset (eq ▸ List.mem_cons_of_mem '.' hc)
  have fraction : tail.filter Char.isDigit = tail.filter (· != '.') :=
    List.filter_congr fun c hc => isDigit_eq_bne (parts c (within c hc))
  have later : (run.dropWhile (· != '.')).filter (· != '.') = tail.filter (· != '.') := by
    rw [← rest, eq]
    rfl
  rw [withOneDot, ofNumeral, eq, whole, later]
  dsimp only [value]
  rw [fraction, String.toList_ofList]

theorem Lexeme.value_ofWord (word : String) : (ofWord word).value = word := by
  unfold ofWord
  split <;> rfl

/-- A word that stands alone has itself for its value, and a numeral with a dot is spelt anew. -/
theorem Lexical.value_ofHead {kind : String} {c : Char} {cs : List Char} (h : Lexical kind (c :: cs)) :
    (Lexeme.ofHead c cs).1.value.toList
      = if kind = "FLOAT" then withOneDot (c :: cs) else c :: cs := by
  have letters (word : IsWord (c :: cs)) : (Lexeme.ofHead c cs).1.value.toList = c :: cs := by
    rw [word.ofHead_eq, Lexeme.value_ofWord, String.toList_ofList]
  generalize eq : c :: cs = w at h letters
  cases h with
  | semicolon =>
    cases eq
    decide
  | keyword word _ => rw [letters word, if_neg (by decide)]
  | identifier word _ => rw [letters word, if_neg (by decide)]
  | operator known =>
    rw [Lexeme.ofHead_symbol known eq.symm, if_neg (by decide)]
    rfl
  | int numeral whole =>
    subst eq
    have digits : ∀ d ∈ c :: cs, d.isDigit = true := fun d hd => by
      rw [isDigit_eq_bne (numeral.isNumeralPart d hd), bne_iff_ne]
      exact ne_of_mem_of_not_mem hd whole
    rw [numeral.ofHead_eq, Lexeme.ofNumeral_int digits, if_neg (by decide)]
    exact String.toList_ofList
  | float numeral dotted =>
    subst eq
    rw [numeral.ofHead_eq, if_pos rfl]
    exact Lexeme.value_ofNumeral numeral.isNumeralPart dotted

/-! ## Slices -/

section Slices

variable {text : List Char} {start stop : Nat}

theorem slice_append_drop (text : List Char) (le : start ≤ stop) :
    slice text start stop ++ text.drop stop = text.drop start := by
  have rest : text.drop stop = (text.drop start).drop (stop - start) := by
    rw [List.drop_drop, Nat.add_sub_cancel' le]
  rw [slice, rest, List.take_append_drop]

theorem slice_eq_of_drop {w rest : List Char} (h : text.drop start = w ++ rest) :
    slice text start (start + w.length) = w := by
  rw [slice, Nat.add_sub_cancel_left, h, List.take_left]

theorem mem_slice_of_getElem? {o : Nat} {c : Char} (ge : start ≤ o) (lt : o < stop)
    (here : text[o]? = some c) : c ∈ slice text start stop := by
  refine List.mem_iff_getElem?.2 ⟨o - start, ?_⟩
  rw [slice, List.getElem?_take_of_lt (by omega), List.getElem?_drop, Nat.add_sub_cancel' ge, here]

end Slices

/-! ## Warnings -/

/-- No kind of word but one has dots. -/
theorem Lexical.dot_not_mem {kind : String} {w : List Char} (h : Lexical kind w) (ne : kind ≠ "FLOAT") :
    '.' ∉ w := by
  have letters (word : IsWord w) : '.' ∉ w := by
    intro dot
    cases word with
    | intro first others =>
      have parts : ∀ d ∈ _, isWordPart d = true := List.forall_mem_cons.2
        ⟨isWordPart_iff.2 (.inl first), fun d hd => isWordPart_iff.2 (others d hd)⟩
      cases parts '.' dot
  cases h with
  | semicolon => decide
  | keyword word _ => exact letters word
  | identifier word _ => exact letters word
  | operator known =>
    have all : ∀ symbol ∈ operatorTable, '.' ∉ symbol.toList := by decide
    exact all _ known
  | int _ whole => exact whole
  | float => exact absurd rfl ne

theorem HasWord.lexical_or_stray {l : Lexeme} {gap : List Char} {c : Char} {body tail : List Char}
    (h : HasWord l gap c body tail) : Lexical l.kind (c :: body) ∨ l = .stray c ∧ body = [] := by
  have spelt := Lexeme.ofHead_lexical_or_stray c body
  rw [h.spelling] at spelt
  rcases spelt with lexical | ⟨head, -⟩
  · have whole : (c :: body).take (body.length + 1) = c :: body :=
      List.take_of_length_le (Nat.le_refl _)
    dsimp only at lexical
    rw [whole] at lexical
    exact .inl lexical
  · obtain ⟨rfl, size⟩ := Prod.mk.inj head
    exact .inr ⟨rfl, List.eq_nil_of_length_eq_zero (Nat.succ.inj size)⟩

namespace Token

variable {text : List Char}

theorem readFrom_origin (text : List Char) (offset : Nat) : (readFrom text offset).origin = offset :=
  next_origin _ _

/-- The dots that a token remembers are those it has after its first one. -/
theorem extraDots_eq (text : List Char) (offset : Nat) :
    (readFrom text offset).extraDots
      = dotsAgain text (readFrom text offset).start (readFrom text offset).stop := by
  have le := readFrom_start_le_stop text offset
  have up (start size : Nat) : ((List.range' start size).filter fun o => text[o]? == some '.').Pairwise
      (· < ·) := List.Pairwise.filter _ List.pairwise_lt_range'
  refine (extraDots_pairwise text offset).eq_of_mem_iff ((up _ _).sublist (List.tail_sublist _)) ?_
  intro o
  have dot (o : Nat) : o ∈ (List.range' (readFrom text offset).start
      ((readFrom text offset).stop - (readFrom text offset).start)).filter
        (fun o => text[o]? == some '.') ↔ (readFrom text offset).HasDot text o := by
    rw [List.mem_filter, List.mem_range'_1, beq_iff_eq, Nat.add_sub_cancel' le]
    exact ⟨fun ⟨⟨ge, lt⟩, here⟩ => ⟨ge, lt, here⟩, fun ⟨ge, lt, here⟩ => ⟨⟨ge, lt⟩, here⟩⟩
  rw [mem_extraDots, dotsAgain, mem_tail_iff (up _ _), dot]
  simp only [dot, RepeatsDot]

theorem extraDots_eq_nil {offset : Nat}
    (h : (readFrom text offset).stop = (readFrom text offset).start + 1 ∨
      '.' ∉ slice text (readFrom text offset).start (readFrom text offset).stop) :
    (readFrom text offset).extraDots = [] := by
  refine List.eq_nil_iff_forall_not_mem.2 fun o mem => ?_
  obtain ⟨here, o', there, lt⟩ := mem_extraDots.1 mem
  rcases h with short | none
  · have := there.start_le
    have := here.lt_stop
    omega
  · exact none (mem_slice_of_getElem? here.start_le here.lt_stop here.dot)

/-! ## Tiles -/

/-- A token that is not the end of the input is a tile. -/
theorem tile_readFrom {offset : Nat} (h : (readFrom text offset).lexeme ≠ .endOfInput) :
    (readFrom text offset).Tile text := by
  rcases HasWord.blank_or_exists (text.drop offset) with blanks | ⟨l, gap, c, body, tail, eq, word⟩
  · unfold readFrom at h
    rw [next_blank blanks] at h
    exact absurd rfl h
  have token : readFrom text offset = ⟨l, offset, offset + gap.length,
      offset + gap.length + (body.length + 1), dotsAfterFirst (offset + gap.length) (c :: body)⟩ := by
    rw [readFrom, eq, next_word word]
  have lexeme : (readFrom text offset).lexeme = l := congrArg Token.lexeme token
  have start : (readFrom text offset).start = offset + gap.length := congrArg Token.start token
  have stop : (readFrom text offset).stop = offset + gap.length + (body.length + 1) :=
    congrArg Token.stop token
  have before : slice text offset (offset + gap.length) = gap := slice_eq_of_drop eq
  have behind : text.drop (offset + gap.length) = (c :: body) ++ tail := by
    rw [← List.drop_drop, eq, List.drop_left]
    rfl
  have taken : slice text (readFrom text offset).start (readFrom text offset).stop = c :: body := by
    rw [start, stop]
    exact slice_eq_of_drop behind
  have within : offset + gap.length + (body.length + 1) ≤ text.length := by
    have := congrArg List.length behind
    simp only [List.length_drop, List.length_append, List.length_cons] at this
    omega
  have spelt := word.lexical_or_stray
  refine ⟨?_, ?_, stop ▸ within, ?_, ?_, ?_⟩
  · rw [readFrom_origin, start]
    exact Nat.le_add_right _ _
  · omega
  · rw [readFrom_origin, start, before]
    exact fun d hd => mem_blanks_of_isBlank (word.blanks d hd)
  · rw [lexeme, taken]
    rcases spelt with lexical | ⟨rfl, rfl⟩
    · have value := lexical.value_ofHead
      rwa [word.spelling] at value
    · exact String.toList_singleton c
  · rw [lexeme]
    split
    · rw [Token.warnings, extraDots_eq]
    · next plain =>
      rw [Token.warnings, extraDots_eq_nil, List.map_nil]
      rcases spelt with lexical | ⟨-, rfl⟩
      · exact .inr (taken ▸ lexical.dot_not_mem plain)
      · exact .inl (by rw [stop, start]; rfl)

/-- The end of the input is at the end of the text, behind nothing but blanks. -/
theorem readFrom_endOfInput {offset : Nat} (le : offset ≤ text.length)
    (h : (readFrom text offset).lexeme = .endOfInput) :
    (readFrom text offset).start = text.length ∧ (readFrom text offset).stop = text.length ∧
      ∀ c ∈ slice text offset text.length, c ∈ [' ', '\t', '\r', '\n'] := by
  unfold readFrom at h ⊢
  rcases HasWord.blank_or_exists (text.drop offset) with blanks | ⟨l, gap, c, body, tail, eq, word⟩
  · have stop : offset + (text.drop offset).length = text.length := by
      rw [List.length_drop, Nat.add_sub_cancel' le]
    rw [next_blank blanks, stop]
    refine ⟨rfl, rfl, fun c hc => mem_blanks_of_isBlank (blanks c ?_)⟩
    exact List.mem_of_mem_take hc
  · rw [eq, next_word word] at h
    exact absurd h word.ne_endOfInput

end Token

/-! ## The whole text -/

namespace Stream

/-- The tokens of a text by their numbers. -/
theorem ofText_eq_map (text : List Char) (offset : Nat) :
    (ofText text offset).tokens
        = (List.range (ofText text offset).tokens.length).map (tokenAt text offset) ∧
      (ofText text offset).final = tokenAt text offset (ofText text offset).tokens.length := by
  have size : (ofText text offset).all.length = (ofText text offset).tokens.length + 1 :=
    List.length_append
  constructor
  · have le : (ofText text offset).tokens.length ≤ (ofText text offset).all.length := by omega
    have first := take_all le
    rwa [all, List.take_left] at first
  · refine ofText_getElem? ?_
    rw [all, List.getElem?_concat_length]

end Stream

/-- Up to any of the tokens, the text is what stands before them and what they take. -/
theorem drop_eq_flatMap {text : List Char} {offset n : Nat}
    (tiles : ∀ i < n, (tokenAt text offset i).Tile text) :
    text.drop offset = (List.range n).flatMap (fun i =>
      slice text (tokenAt text offset i).origin (tokenAt text offset i).start ++
        slice text (tokenAt text offset i).start (tokenAt text offset i).stop) ++
      text.drop (tokenOffset text offset n) := by
  induction n with
  | zero => rfl
  | succ n ih =>
    have tile := tiles n (Nat.lt_succ_self n)
    rw [ih fun i lt => tiles i (Nat.lt_succ_of_lt lt), List.range_succ, List.flatMap_append,
      List.flatMap_singleton, ← tokenAt_origin, List.append_assoc, List.append_assoc,
      ← slice_append_drop text tile.origin_le, ← slice_append_drop text (Nat.le_of_lt tile.start_lt)]
    rfl

/-- Reading token after token comes to the end of the input, at the end of the text. Each token before
takes a piece of the text behind nothing but blanks, and the next one is read from where it stops. So the
tokens stand in order and apart, and the blanks and the tokens are the text. -/
theorem tokens_tile_text (text : List Char) {offset : Nat} (le : offset ≤ text.length) :
    ∃ n,
      (∀ i < n, (tokenAt text offset i).lexeme ≠ .endOfInput ∧ (tokenAt text offset i).Tile text ∧
        offset ≤ (tokenAt text offset i).start ∧
        (tokenAt text offset (i + 1)).origin = (tokenAt text offset i).stop ∧
        (Token.next (tokenOffset text offset i) (text.drop (tokenOffset text offset i))).2
          = text.drop (tokenAt text offset i).stop) ∧
      (∀ i j, i < j → j ≤ n → (tokenAt text offset i).stop ≤ (tokenAt text offset j).start) ∧
      (tokenAt text offset n).lexeme = .endOfInput ∧
      (tokenAt text offset n).start = text.length ∧ (tokenAt text offset n).stop = text.length ∧
      (∀ c ∈ slice text (tokenAt text offset n).origin text.length, c ∈ [' ', '\t', '\r', '\n']) ∧
      (Stream.ofText text offset).tokens = (List.range n).map (tokenAt text offset) ∧
      (Stream.ofText text offset).final = tokenAt text offset n ∧
      text.drop offset = (List.range (n + 1)).flatMap fun i =>
        slice text (tokenAt text offset i).origin (tokenAt text offset i).start ++
          slice text (tokenAt text offset i).start (tokenAt text offset i).stop := by
  obtain ⟨tokens, final⟩ := Stream.ofText_eq_map text offset
  generalize (Stream.ofText text offset).tokens.length = n at tokens final
  have proper (i : Nat) (lt : i < n) : (tokenAt text offset i).lexeme ≠ .endOfInput := by
    have mem : tokenAt text offset i ∈ (Stream.ofText text offset).tokens :=
      tokens ▸ List.mem_map_of_mem (List.mem_range.2 lt)
    exact Stream.read_lexeme_ne mem
  have tiles (i : Nat) (lt : i < n) : (tokenAt text offset i).Tile text :=
    Token.tile_readFrom (proper i lt)
  have apart (i : Nat) : (tokenAt text offset (i + 1)).origin = (tokenAt text offset i).stop :=
    tokenAt_origin text offset (i + 1)
  have reached : tokenOffset text offset n ≤ text.length := by
    cases n with
    | zero => exact le
    | succ n => exact (tiles n (Nat.lt_succ_self n)).stop_le
  have ends : (tokenAt text offset n).lexeme = .endOfInput := final ▸ Stream.read_final_lexeme _ _
  obtain ⟨start, stop, blanks⟩ := Token.readFrom_endOfInput reached ends
  refine ⟨n, fun i lt => ⟨proper i lt, tiles i lt, ?_, apart i, Token.next_rest (proper i lt)⟩,
    fun i j lt _ => ?_, ends, start, stop, ?_, tokens, final, ?_⟩
  · exact (tokenOffset_monotone text offset (Nat.zero_le i)).trans (Token.readFrom_start_ge text _)
  · exact (tokenOffset_monotone text offset lt).trans (Token.readFrom_start_ge text _)
  · rw [tokenAt_origin]
    exact blanks
  · have rest : text.drop (tokenOffset text offset n)
        = slice text (tokenAt text offset n).origin (tokenAt text offset n).start ++
          slice text (tokenAt text offset n).start (tokenAt text offset n).stop := by
      have last : tokenAt text offset n = Token.readFrom text (tokenOffset text offset n) := rfl
      rw [← slice_append_drop text reached, tokenAt_origin, last, start, stop]
      simp [slice]
    rw [List.range_succ, List.flatMap_append, List.flatMap_singleton, ← rest]
    exact drop_eq_flatMap tiles

/-- A numeral with dots to spare, and blanks on both sides of it. -/
def spacedNumeral : List Char := [';', ' ', '1', '.', '.', '5', '.', '\t']

theorem tokens_tile_text_spacedNumeral :
    1 ≤ spacedNumeral.length ∧ (tokenAt spacedNumeral 1 0).Tile spacedNumeral ∧
      withOneDot ['1', '.', '.', '5', '.'] = ['1', '.', '5'] ∧ dotsAgain spacedNumeral 2 7 = [4, 6] ∧
      (tokenAt spacedNumeral 1 1).start = spacedNumeral.length := by
  have le : 1 ≤ spacedNumeral.length := by decide
  obtain ⟨n, tiles, -, ends, start, -⟩ := tokens_tile_text spacedNumeral le
  have one : n = 1 := by
    have first : (tokenAt spacedNumeral 1 0).lexeme ≠ .endOfInput := by decide
    have second : (tokenAt spacedNumeral 1 1).lexeme = .endOfInput := by decide
    rcases Nat.lt_trichotomy n 1 with lt | eq | gt
    · cases Nat.lt_one_iff.1 lt
      exact absurd ends first
    · exact eq
    · exact absurd second (tiles 1 gt).1
  subst one
  exact ⟨le, (tiles 0 Nat.one_pos).2.1, by decide, by decide, start⟩

end Abacus
