import Abacus.Grammar.Report
import Abacus.Proofs.FixedPoint
import Abacus.Proofs.Pairing
import Abacus.Proofs.ParseComplete

/-!
# What the parser accepts

The parser commits itself early: it fails in the middle of an alternative instead of trying the next
one. It still accepts exactly the programs of the grammar, each with the one tree it has, as long as it
does not run out of levels. `parseFreely` is the parser with more levels than there are words, which
never runs out; the parser with fewer gives the same outcome or says that it did run out.
-/

namespace Abacus

open Phrase

/-- What comes of parsing with levels to spare. -/
def parseFreely (text : List Char) (offset : Nat) : Except ParseFault Node :=
  (parseWithin ((Stream.ofText text offset).tokens.length + 1) Memo.remembering text offset).1

/-! ## With levels to spare -/

/-- A program is refused without need of more levels: something is missing or out of place, or an
integer of the text has too many digits. -/
inductive Refused (words : List Lexeme) : ParseFault → Prop
  | rejected (cause : Cause) (offset : Nat) : Refused words (.rejected cause offset)
  | numeralTooLong {digits : String} (mem : .int digits ∈ words) (long : digitLimit < digits.length) :
      Refused words (.numeralTooLong digits.length)

/-- With more levels than tokens, depth is not complained of. -/
theorem Source.Refuses.refused {src : Source} {ts : List Token} {f : ParseFault}
    (h : src.Refuses (ts.length + 1) ts f) : Refused (ts.map Token.lexeme) f := by
  cases h with
  | after split program => exact .rejected _ _
  | inside blame =>
    cases blame with
    | rejected arises closes => exact .rejected _ _
    | nestedTooDeeply deep => exact absurd deep (Nat.not_succ_le_self _)
    | numeralTooLong mem long => exact .numeralTooLong mem long

/-- There is a tree that the parser finds, or a reason why it finds none. -/
theorem parseWithin_verdict (levels : Nat) (text : List Char) (offset : Nat) :
    let s := Stream.ofText text offset
    (∃ tree, (parseWithin levels Memo.remembering text offset).1 = .ok tree ∧ Program s.lexemes tree) ∨
      ∃ f, (parseWithin levels Memo.remembering text offset).1 = .error f ∧
        Source.Refuses ⟨Memo.rereading, s.final⟩ levels s.tokens f := by
  rw [parseWithin_eq_rereading]
  exact Source.program_sound (Source.direct_rereading _) (Stream.read_final_lexeme _ _)
    (fun t => Stream.read_lexeme_ne) levels .empty

theorem parseFreely_verdict (text : List Char) (offset : Nat) :
    (∃ tree, parseFreely text offset = .ok tree ∧ Program (Stream.ofText text offset).lexemes tree) ∨
      ∃ f, parseFreely text offset = .error f ∧ Refused (Stream.ofText text offset).lexemes f := by
  rcases parseWithin_verdict _ text offset with ok | ⟨f, eq, refuses⟩
  · exact .inl ok
  · exact .inr ⟨f, eq, refuses.refused⟩

theorem parseFreely_eq_ok_iff (text : List Char) (offset : Nat) (tree : Node) :
    parseFreely text offset = .ok tree ↔ Program (Stream.ofText text offset).lexemes tree := by
  constructor
  · intro ok
    rcases parseFreely_verdict text offset with ⟨found, eq, phrase⟩ | ⟨f, eq, -⟩
    · cases ok.symm.trans eq
      exact phrase
    · cases ok.symm.trans eq
  · intro phrase
    rw [parseFreely, parseWithin_eq_rereading]
    exact Source.program_takes (Source.direct_rereading _) (Stream.read_final_lexeme _ _) phrase
      (Nat.lt_succ_self _) .empty

theorem parseFreely_ne_nestedTooDeeply (text : List Char) (offset : Nat) :
    parseFreely text offset ≠ .error .nestedTooDeeply := by
  intro deep
  rcases parseFreely_verdict text offset with ⟨tree, eq, -⟩ | ⟨f, eq, refused⟩
  · cases deep.symm.trans eq
  · cases deep.symm.trans eq
    cases refused

/-- Words have one tree at most. Any words will do, whether or not a text has them: a token can be made
for each. -/
theorem Phrase.Program.unique {words : List Lexeme} {tree tree' : Node} (h : Program words tree)
    (h' : Program words tree') : tree = tree' := by
  let token (word : Lexeme) : Token := ⟨word, 0, 0, 0, []⟩
  let ts := words.map token
  have lexemes : ts.map Token.lexeme = words := by
    rw [List.map_map]
    exact List.map_id words
  have taken {tree : Node} (h : Program words tree) :
      (Source.program ⟨Memo.rereading, token .endOfInput⟩ (ts.length + 1) ts .empty).1 = .ok tree :=
    Source.program_takes (Source.direct_rereading _) rfl (by rwa [lexemes]) (Nat.lt_succ_self _) .empty
  exact Except.ok.inj ((taken h).symm.trans (taken h'))

/-! ## With some number of levels -/

theorem parseWithin_eq_parseFreely (text : List Char) (offset extra : Nat) :
    (parseWithin ((Stream.ofText text offset).tokens.length + 1 + extra) Memo.remembering text offset).1
      = parseFreely text offset := by
  have honest := Memo.honest_remembering text offset
  rcases parseWithin_eq_or_nestedTooDeeply honest honest
    ((Stream.ofText text offset).tokens.length + 1) extra with eq | ⟨-, deep⟩
  · exact eq.symm
  · exact absurd deep (parseFreely_ne_nestedTooDeeply text offset)

theorem parseWithin_eq_parseFreely_or (text : List Char) (offset levels : Nat) :
    (parseWithin levels Memo.remembering text offset).1 = parseFreely text offset ∨
      (parseWithin levels Memo.remembering text offset).1 = .error .nestedTooDeeply := by
  have honest := Memo.honest_remembering text offset
  rcases parseWithin_eq_or_nestedTooDeeply honest honest levels
    ((Stream.ofText text offset).tokens.length + 1) with eq | ⟨-, deep⟩
  · rw [Nat.add_comm, parseWithin_eq_parseFreely] at eq
    exact .inl eq
  · exact .inr deep

/-- Words that are fewer than the levels are read as the tree that they derive. -/
theorem readProgram_of_phrase {text : List Char} {offset : Nat} {tree : Node}
    (short : (Stream.ofText text offset).lexemes.length < nestingLimit)
    (phrase : Program (Stream.ofText text offset).lexemes tree) :
    (readProgram text offset).program = .ok tree := by
  have size : (Stream.ofText text offset).lexemes.length = (Stream.ofText text offset).tokens.length :=
    List.length_map _
  obtain ⟨extra, levels⟩ := Nat.exists_eq_add_of_le (Nat.succ_le_of_lt (size ▸ short))
  have read : (parse text offset).1 = .ok tree := by
    rw [parse, levels, parseWithin_eq_parseFreely]
    exact (parseFreely_eq_ok_iff text offset tree).2 phrase
  exact congrArg (Except.mapError (ParseFault.report text offset)) read

theorem parse_of_readProgram {text : List Char} {offset : Nat} {tree : Node}
    (read : (readProgram text offset).program = .ok tree) : (parse text offset).1 = .ok tree := by
  have read : (parse text offset).1.mapError (ParseFault.report text offset) = .ok tree := read
  cases outcome : (parse text offset).1 with
  | error fault =>
    rw [outcome] at read
    cases read
  | ok tree' =>
    rw [outcome] at read
    cases read
    rfl

/-- A tree that is read is the one that the words derive. -/
theorem phrase_of_readProgram {text : List Char} {offset : Nat} {tree : Node}
    (read : (readProgram text offset).program = .ok tree) :
    Program (Stream.ofText text offset).lexemes tree := by
  have parsed := parse_of_readProgram read
  rcases parseWithin_verdict nestingLimit text offset with ⟨found, eq, phrase⟩ | ⟨f, eq, -⟩
  · cases parsed.symm.trans eq
    exact phrase
  · cases parsed.symm.trans eq

/-! ## The whole of it -/

/-- The parser accepts exactly its grammar. Levels aside, it gives a tree if and only if the words of the
text derive it; and where they derive none it gives a reason that is one of the grammar, or an integer
with too many digits. Levels only ever make it say that there were too few. Words derive one tree at
most, and every numeral with a dot derives the double nearest to it. -/
theorem parse_accepts_exactly_grammar (text : List Char) (offset : Nat) :
    let words := (Stream.ofText text offset).lexemes
    (∀ tree, parseFreely text offset = .ok tree ↔ Program words tree) ∧
    ((∃ tree, Program words tree) ∨ ∃ f, parseFreely text offset = .error f ∧ Refused words f) ∧
    (∀ extra, (parseWithin (words.length + 1 + extra) Memo.remembering text offset).1
      = parseFreely text offset) ∧
    ((readProgram text offset).program
        = (parseFreely text offset).mapError (ParseFault.report text offset) ∨
      (readProgram text offset).program = .error (ParseFault.nestedTooDeeply.report text offset)) ∧
    (∀ words tree tree', Program words tree → Program words tree' → tree = tree') ∧
    (∀ numeral, .float numeral ∈ words →
      ∃ p : FixedPoint, numeral = String.ofList p.text ∧
        ∀ tree, Phrase.Value [.float numeral] tree ↔ tree = .float p.value) := by
  intro words
  refine ⟨parseFreely_eq_ok_iff text offset, ?_, ?_, ?_, fun _ _ _ h h' => h.unique h', ?_⟩
  · rcases parseFreely_verdict text offset with ⟨tree, -, phrase⟩ | refused
    · exact .inl ⟨tree, phrase⟩
    · exact .inr refused
  · intro extra
    have size : words.length = (Stream.ofText text offset).tokens.length := List.length_map _
    rw [size]
    exact parseWithin_eq_parseFreely text offset extra
  · unfold readProgram parse
    rcases parseWithin_eq_parseFreely_or text offset nestingLimit with eq | eq
    · exact .inl (congrArg (Except.mapError _) eq)
    · exact .inr (congrArg (Except.mapError _) eq)
  · intro numeral mem
    obtain ⟨t, ht, eq⟩ := List.mem_map.1 mem
    obtain ⟨p, rfl⟩ := Stream.read_float ht eq
    refine ⟨p, rfl, fun tree => ⟨fun h => ?_, ?_⟩⟩
    · cases h with
      | float reads =>
        cases (Numeral.readFloat?_fixedPoint p).symm.trans reads
        rfl
    · rintro rfl
      exact .float (Numeral.readFloat?_fixedPoint p)

end Abacus
