import Mathlib
import Abacus.Proofs.WordsOnly

/-!
# Reading from the middle of a text

A program can be read from any offset of a text. That is reading the rest of the text by itself, with
every offset larger by as much (`parseWithin_shift`): offsets are added to and compared with each other,
and never with anything else. The text before the offset is not looked at. It shows in the lines and the
columns that a message gives, and nowhere else.
-/

namespace Abacus

/-! ## Tokens further on -/

namespace Token

/-- The same token, `k` characters further on. -/
def shift (k : Nat) (t : Token) : Token where
  lexeme := t.lexeme
  origin := t.origin + k
  start := t.start + k
  stop := t.stop + k
  extraDots := t.extraDots.map (· + k)

@[simp] theorem shift_lexeme (k : Nat) (t : Token) : (t.shift k).lexeme = t.lexeme := rfl

@[simp] theorem shift_origin (k : Nat) (t : Token) : (t.shift k).origin = t.origin + k := rfl

@[simp] theorem shift_start (k : Nat) (t : Token) : (t.shift k).start = t.start + k := rfl

theorem dotsAfterFirst_shift (k start : Nat) (run : List Char) :
    dotsAfterFirst (start + k) run = (dotsAfterFirst start run).map (· + k) := by
  have indices : run.zipIdx (start + k) = (run.zipIdx start).map fun x => (x.1, x.2 + k) := by
    rw [Nat.add_comm start k, List.zipIdx_eq_map_add (i := k + start), List.zipIdx_eq_map_add (i := start),
      List.map_map]
    refine List.map_congr_left fun x _ => ?_
    simp only [Function.comp_apply, Prod.mk.injEq, true_and]
    omega
  rw [dotsAfterFirst, dotsAfterFirst, indices, List.filterMap_map, List.map_tail, List.map_filterMap]
  congr 1
  refine List.filterMap_congr fun x _ => ?_
  obtain ⟨c, i⟩ := x
  by_cases dot : c = '.'
  · simp [dot]
  · simp [dot]

theorem next_shift (k offset : Nat) (rest : List Char) :
    next (offset + k) rest = ((next offset rest).1.shift k, (next offset rest).2) := by
  have start (n : Nat) : offset + k + n = offset + n + k := by omega
  unfold next
  cases rest.dropWhile isBlank with
  | nil => simp [shift, start]
  | cons c cs => simp [shift, start, ← dotsAfterFirst_shift, Nat.add_right_comm _ k]

end Token

/-- The same tokens, `k` characters further on. -/
def Stream.shift (k : Nat) (s : Stream) : Stream := ⟨s.tokens.map (.shift k), s.final.shift k⟩

theorem Stream.read_shift (k offset : Nat) (rest : List Char) :
    read (offset + k) rest = (read offset rest).shift k := by
  fun_induction read offset rest with
  | case1 offset rest step last =>
    rw [read]
    simp only [Token.next_shift]
    exact if_pos last
  | case2 offset rest step more tail ih =>
    rw [read]
    simp only [Token.next_shift]
    have below := congrArg (fun s => Stream.mk (step.1.shift k :: s.tokens) s.final) ih
    exact (if_neg more).trans below

/-! ## Memos further on -/

namespace Memo

/-- The same tokens remembered, `k` characters further on. -/
def shift (k : Nat) (memo : Memo) : Memo := ⟨memo.tokens.map (.shift k)⟩

theorem find?_shift (k : Nat) (memo : Memo) (origin : Nat) :
    (memo.shift k).find? (origin + k) = (memo.find? origin).map (.shift k) := by
  have later : ((fun token : Token => decide (origin + k < token.origin)) ∘ Token.shift k)
      = fun token => decide (origin < token.origin) := by
    funext token
    simp
  unfold find? shift
  rw [List.dropWhile_map, later]
  cases memo.tokens.dropWhile fun token => decide (origin < token.origin) with
  | nil => rfl
  | cons token tokens =>
    by_cases same : token.origin = origin
    · simp [same]
    · simp [same]

theorem remembering_shift (k : Nat) (token : Token) (memo : Memo) :
    remembering (token.shift k) (memo.shift k)
      = ((remembering token memo).1.shift k, (remembering token memo).2.shift k) := by
  unfold remembering
  rw [Token.shift_origin, find?_shift]
  cases memo.find? token.origin with
  | none => rfl
  | some known => rfl

end Memo

/-- The same fault, `k` characters further on. -/
def ParseFault.shift (k : Nat) : ParseFault → ParseFault
  | rejected cause offset => rejected cause (offset + k)
  | nestedTooDeeply => nestedTooDeeply
  | numeralTooLong digits => numeralTooLong digits

theorem ParseFault.numeralTooLong_shift (k digits : Nat) :
    numeralTooLong digits = (numeralTooLong digits).shift k := rfl

/-! ## Two parsers, one further on -/

theorem headD_map_shift (k : Nat) (ts : List Token) (final : Token) :
    (ts.map (.shift k)).headD (final.shift k) = (ts.headD final).shift k := by
  cases ts <;> rfl

theorem Source.look_shift (k : Nat) (final : Token) (ts : List Token) (memo : Memo) :
    Source.look ⟨Memo.remembering, final.shift k⟩ (ts.map (.shift k)) (memo.shift k)
      = ((Source.look ⟨Memo.remembering, final⟩ ts memo).1.shift k,
          (Source.look ⟨Memo.remembering, final⟩ ts memo).2.shift k) := by
  show Memo.remembering _ _ = _
  rw [headD_map_shift, Memo.remembering_shift]
  rfl

/-- A parser on a stream that stands `k` characters further on, and one on the stream itself. -/
def Pairing.shifted (s : Stream) (k : Nat) : Pairing where
  left := ⟨Memo.remembering, s.final.shift k⟩
  right := ⟨Memo.remembering, s.final⟩
  stand ts m ts' m' := ts = ts'.map (.shift k) ∧ m = m'.shift k
  fault f f' := f = f'.shift k
  excused _ := False
  levels k l := k = l
  look := by
    rintro _ _ ts m ⟨rfl, rfl⟩
    rw [Source.look_shift]
    exact ⟨rfl, rfl, rfl⟩
  nil := by
    rintro _ ts m ⟨nothing, -⟩
    exact List.map_eq_nil_iff.1 nothing.symm
  cons := by
    rintro t ts _ ts' m ⟨further, rfl⟩
    obtain ⟨t', us', rfl, rfl, rfl⟩ := List.map_eq_cons_iff.1 further.symm
    exact ⟨t', us', rfl, rfl, congrArg Prod.snd (Memo.remembering_shift k t' m)⟩
  back := by
    rintro ts m ts' m' us n us' n' ⟨rfl, -⟩ - - ⟨-, rfl⟩
    exact ⟨rfl, rfl⟩
  rejected := by
    rintro _ _ ts m cause ⟨rfl, rfl⟩
    rw [Source.here, headD_map_shift]
    rfl
  trailing := by
    rintro _ _ ts m cause ⟨rfl, rfl⟩
    rw [Source.look_shift]
    rfl
  numeral := ParseFault.numeralTooLong_shift k
  bottom := by
    rintro _ rfl
    exact .inl ⟨rfl, rfl⟩
  descend := descend_of_eq

/-- Reading from an offset is reading the rest of the text, with all offsets larger by as much. -/
theorem parseWithin_shift (levels : Nat) (text : List Char) (k : Nat) :
    parseWithin levels Memo.remembering text k
      = ((parseWithin levels Memo.remembering (text.drop k) 0).1.mapError (.shift k),
          (parseWithin levels Memo.remembering (text.drop k) 0).2.shift k) := by
  let s := Stream.ofText (text.drop k) 0
  let c := Pairing.shifted s k
  have further : Stream.ofText text k = s.shift k := by
    have shifted := Stream.read_shift k 0 (text.drop k)
    rwa [Nat.zero_add] at shifted
  have start : c.stand (s.shift k).tokens .empty s.tokens .empty := ⟨rfl, rfl⟩
  have equal : c.levels levels levels := rfl
  unfold parseWithin
  rw [further]
  rcases Pairing.program equal start with ⟨outcome, _, _, -, memos⟩ | ⟨_, -, excuse⟩
  · refine Prod.ext ?_ memos
    rcases outcome with ⟨tree, h, h'⟩ | ⟨_, f, h, h', rfl⟩
    · exact h.trans (congrArg (Except.mapError _) h').symm
    · exact h.trans (congrArg (Except.mapError _) h').symm
  · exact excuse.elim

/-! ## What is told -/

/-- What is told of a text that is read from `k` on, and what is told of the rest by itself: the same tree;
or the same message at an offset that is larger by `k`, with the line and the column that this offset has
in the whole text; or the same report about the numerals that a host can read. -/
inductive Shifted (text : List Char) (k : Nat) : Except Report Node → Except Report Node → Prop
  | program {tree} : Shifted text k (.ok tree) (.ok tree)
  | refused {message p} :
      Shifted text k (.error (.refused (.ofOffset message text (p + k))))
        (.error (.refused (.ofOffset message (text.drop k) p)))
  | host {digits} : Shifted text k (.error (tooManyDigits digitLimit digits))
      (.error (tooManyDigits digitLimit digits))

/-- Faults move by as much as the text does, and a tree has no offsets in it. -/
theorem readWithin_shifted (levels : Nat) (text : List Char) (k : Nat) :
    Shifted text k (readWithin levels text k) (readWithin levels (text.drop k) 0) := by
  unfold readWithin
  rw [parseWithin_shift]
  cases (parseWithin levels Memo.remembering (text.drop k) 0).1 with
  | ok tree => exact .program
  | error fault =>
    cases fault with
    | rejected cause p => exact .refused
    | numeralTooLong digits => exact .host
    | nestedTooDeeply =>
      -- it is told where the program begins, which is offset zero of the rest
      have here : Shifted text k
          (.error (.refused (.ofOffset "program nested too deeply" text (0 + k)))) _ := .refused
      rwa [Nat.zero_add] at here

/-- What is told of a dot that repeats one. -/
def dotWarning (text : List Char) (offset : Nat) : String :=
  "repeated dots in the same number at " ++ Place.describe text offset

/-- The offsets of the dots that a memo warns of. -/
def Memo.dots (memo : Memo) : List Nat := memo.tokens.reverse.flatMap Token.extraDots

theorem Memo.warnings_eq_map_dots (text : List Char) (memo : Memo) :
    memo.warnings text = memo.dots.map (dotWarning text) := by
  rw [warnings, dots, List.map_flatMap]
  rfl

theorem Memo.dots_shift (k : Nat) (memo : Memo) : (memo.shift k).dots = memo.dots.map (· + k) := by
  rw [dots, dots, shift, ← List.map_reverse, List.flatMap_map, List.map_flatMap]
  rfl

/-- What is read from `k` on, and what is read from the rest by itself. The warnings are about the same
dots, whose offsets are larger by `k`. -/
structure Reading.IsShifted (text : List Char) (k : Nat) (whole rest : Reading) : Prop where
  program : Shifted text k whole.program rest.program
  warnings : ∃ dots : List Nat, rest.warnings = dots.map (dotWarning (text.drop k)) ∧
    whole.warnings = dots.map fun dot => dotWarning text (dot + k)

theorem readingWithin_isShifted (levels : Nat) (text : List Char) (k : Nat) :
    (readingWithin levels text k).IsShifted text k (readingWithin levels (text.drop k) 0) where
  program := readWithin_shifted levels text k
  warnings := by
    let memo := (parseWithin levels Memo.remembering (text.drop k) 0).2
    refine ⟨memo.dots, memo.warnings_eq_map_dots _, ?_⟩
    show (parseWithin levels Memo.remembering text k).2.warnings text = _
    rw [parseWithin_shift, Memo.warnings_eq_map_dots, Memo.dots_shift, List.map_map]
    rfl

/-- Reading a text from an offset is reading the rest of it, under every limit of nesting: the same tree
comes of it, or the same message at an offset that is larger by as much, and the same warnings. Two texts
that are the same from there on have the same trees, the same faults at the same offsets, and the same
tokens are looked at, whatever stands before. -/
theorem offset_shifts_reading (text : List Char) (k : Nat) :
    (∀ levels, (readingWithin levels text k).IsShifted text k (readingWithin levels (text.drop k) 0)) ∧
    (∀ text offset, readProgram text offset = readingWithin nestingLimit text offset) ∧
    ∀ other : List Char, other.drop k = text.drop k → ∀ levels,
      parseWithin levels Memo.remembering other k = parseWithin levels Memo.remembering text k := by
  refine ⟨fun levels => readingWithin_isShifted levels text k, fun _ _ => rfl, ?_⟩
  intro other same levels
  rw [parseWithin_shift levels other, parseWithin_shift levels text, same]

/-- A numeral with dots too many, where the second line should have a name. -/
def numberedFunction : List Char := ['x', ';', '\n', 'f', 'n', ' ', '1', '.', '.', '2']

theorem offset_shifts_reading_numberedFunction :
    (readingWithin 2 numberedFunction 3).IsShifted numberedFunction 3
        (readingWithin 2 (numberedFunction.drop 3) 0) ∧
      readingWithin 2 numberedFunction 3
        = ⟨.error (.refused (.ofOffset "expected identifier after 'fn'" numberedFunction 5)),
            ["repeated dots in the same number at offset 8 (line 2, column 6)"]⟩ ∧
      readingWithin 2 (numberedFunction.drop 3) 0
        = ⟨.error (.refused (.ofOffset "expected identifier after 'fn'" (numberedFunction.drop 3) 2)),
            ["repeated dots in the same number at offset 5 (line 1, column 6)"]⟩ ∧
      parseWithin 2 Memo.remembering (['\n', '\n', '"'] ++ numberedFunction.drop 3) 3
        = parseWithin 2 Memo.remembering numberedFunction 3 := by
  obtain ⟨shifted, -, others⟩ := offset_shifts_reading numberedFunction 3
  have rest : parseWithin 2 Memo.remembering (numberedFunction.drop 3) 0
      = (.error (.rejected .functionName 2),
          ⟨[⟨.float "1.2", 2, 3, 7, [5]⟩, ⟨.keyword "fn", 0, 0, 2, []⟩]⟩) := by cbv
  have whole : parseWithin 2 Memo.remembering numberedFunction 3
      = (.error (.rejected .functionName 5),
          ⟨[⟨.float "1.2", 5, 6, 10, [8]⟩, ⟨.keyword "fn", 3, 3, 5, []⟩]⟩) := by
    rw [parseWithin_shift, rest]
    rfl
  refine ⟨shifted 2, ?_, ?_, others _ rfl 2⟩
  · rw [readingWithin, readWithin, whole]
    exact congrArg (Reading.mk _) (by cbv)
  · rw [readingWithin, readWithin, rest]
    exact congrArg (Reading.mk _) (by cbv)

end Abacus
