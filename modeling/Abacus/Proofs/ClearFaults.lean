import Mathlib
import Abacus.Grammar.Report
import Abacus.Proofs.ParsedSorts
import Abacus.Proofs.SplicedNames
import Abacus.Proofs.Tiling

/-!
# What is told of a text that is no program

A message about a text shows names and digits of the text as they are. Both stand on one line, since a
name has only letters and digits. So every message does, since a text is refused only for causes that its
words give rise to (`Cause.Arises`); and so do the names of a program that is read.
-/

namespace Abacus

/-! ## Words -/

/-- What a message shows of a word as it is stands on one line. -/
def Lexeme.OneLine : Lexeme → Prop
  | .identifier name => Abacus.OneLine name.toList
  | .int digits => Abacus.OneLine digits.toList
  | _ => True

theorem Lexeme.oneLine_ofWord {word : List Char} (parts : ∀ c ∈ word, isWordPart c = true) :
    (ofWord (String.ofList word)).OneLine := by
  unfold ofWord
  split
  · trivial
  · show Abacus.OneLine (String.ofList word).toList
    rw [String.toList_ofList]
    exact oneLine_of_class (by decide +kernel) parts

theorem Lexeme.oneLine_ofNumeral (run : List Char) : (ofNumeral run).OneLine := by
  unfold ofNumeral
  split
  · show Abacus.OneLine (String.ofList (run.takeWhile Char.isDigit)).toList
    rw [String.toList_ofList]
    exact oneLine_of_class (p := Char.isDigit) (by decide +kernel) fun d => List.mem_takeWhile_imp
  · trivial

theorem Lexeme.oneLine_ofHead (c : Char) (cs : List Char) : (ofHead c cs).1.OneLine := by
  unfold ofHead
  split
  · trivial
  · split
    · next letter =>
      refine oneLine_ofWord (List.forall_mem_cons.2 ⟨?_, fun d => List.mem_takeWhile_imp⟩)
      simp [isWordPart, letter]
    · split
      · trivial
      · split
        · exact oneLine_ofNumeral _
        · trivial

theorem Stream.oneLine_tokens {text : List Char} {offset : Nat} {t : Token}
    (mem : t ∈ (ofText text offset).tokens) : t.lexeme.OneLine := by
  rw [(ofText_eq_map text offset).1] at mem
  obtain ⟨i, -, rfl⟩ := List.mem_map.1 mem
  unfold tokenAt Token.readFrom Token.next
  split
  · trivial
  · exact Lexeme.oneLine_ofHead _ _

/-! ## Faults -/

/-- The cause stands on one line when it is put into words. -/
def Cause.OneLine (cause : Cause) : Prop := Abacus.OneLine cause.message.toList

instance (cause : Cause) : Decidable cause.OneLine := inferInstanceAs (Decidable (Abacus.OneLine _))

/-- Whatever the text is, the fault is told on one line. -/
def ParseFault.OneLine (f : ParseFault) : Prop := ∀ text offset, (f.report text offset).OneLine

theorem Remark.oneLine_ofOffset {message : String} (words : OneLine message.toList) (text : List Char)
    (offset : Nat) : (Report.refused (.ofOffset message text offset)).OneLine := by
  simp only [Report.oneLine_summary, Report.name, Report.message, Remark.text, ofOffset, numberOrNone,
    Text.oneLine_ofString, String.toList_append, oneLine_append, oneLine_int, words]
  decide +kernel

theorem ParseFault.oneLine_rejected {cause : Cause} (h : cause.OneLine) (position : Nat) :
    (rejected cause position).OneLine :=
  fun text _ => Remark.oneLine_ofOffset h text position

theorem ParseFault.oneLine_nestedTooDeeply : nestedTooDeeply.OneLine :=
  fun text offset => Remark.oneLine_ofOffset (by decide +kernel) text offset

theorem ParseFault.oneLine_numeralTooLong (digits : Nat) : (numeralTooLong digits).OneLine :=
  fun _ _ => oneLine_tooManyDigits _ _

namespace Cause

variable {word : String} (h : Abacus.OneLine word.toList)

include h

theorem oneLine_operator {context : String} (hc : Abacus.OneLine context.toList) (found : Lexeme) :
    (operator word context found).OneLine := by
  unfold Cause.OneLine message foundText
  dsimp only
  simp only [String.toList_append, oneLine_append, oneLine_quoted, h, hc]
  decide +kernel

/-- A cause that shows one word, as it is. -/
theorem oneLine_word : (parameter word).OneLine ∧ (parameterEnd word).OneLine ∧
    (condition word).OneLine ∧ (operand word).OneLine ∧ (literalRange word).OneLine ∧
    (argument word).OneLine ∧ (argumentEnd word).OneLine := by
  unfold Cause.OneLine message
  dsimp only
  simp only [String.toList_append, oneLine_append, h]
  decide +kernel

end Cause

theorem Cause.oneLine_functionName : functionName.OneLine := by decide +kernel

theorem Cause.oneLine_unexpected (found : Lexeme) : (unexpected found).OneLine := by
  unfold Cause.OneLine message
  dsimp only
  simp only [String.toList_append, oneLine_append, oneLine_quoted]
  decide +kernel

/-! ## Words and the causes that name them -/

/-- Words of which messages show nothing but what stands on one line. -/
abbrev CalmWords (words : List Lexeme) : Prop := ∀ l ∈ words, l.OneLine

theorem CalmWords.identifier {words : List Lexeme} (calm : CalmWords words) {name : String}
    (mem : .identifier name ∈ words) : OneLine name.toList :=
  calm _ mem

theorem CalmWords.int {words : List Lexeme} (calm : CalmWords words) {digits : String}
    (mem : .int digits ∈ words) : OneLine digits.toList :=
  calm _ mem

theorem oneLine_of_mem_conditionWords {word : String} (mem : word ∈ conditionWords) :
    OneLine word.toList :=
  (by decide +kernel : ∀ word ∈ conditionWords, OneLine word.toList) word mem

theorem oneLine_of_mem_binarySymbols {symbol : String} (mem : symbol ∈ binarySymbols) :
    OneLine symbol.toList :=
  (by decide +kernel : ∀ symbol ∈ binarySymbols, OneLine symbol.toList) symbol mem

theorem Construct.oneLine {words : List Lexeme} (calm : CalmWords words) {context : String}
    (h : Construct words context) : OneLine context.toList := by
  cases h with
  | arm mem =>
    simp only [String.toList_append, oneLine_append, oneLine_of_mem_conditionWords mem]
    decide +kernel
  | otherwise => decide +kernel
  | function mem =>
    simp only [String.toList_append, oneLine_append, CalmWords.identifier calm mem]
    decide +kernel

/-- Whatever a text of calm words is refused for is told on one line. -/
theorem Cause.Arises.oneLine {words : List Lexeme} (calm : CalmWords words) {cause : Cause}
    (h : cause.Arises words) : cause.OneLine := by
  have named {name : String} (mem : .identifier name ∈ words) :=
    oneLine_word (CalmWords.identifier calm mem)
  have context {before context : String} (start : Abacus.OneLine before.toList)
      (h : Abacus.OneLine context.toList) : Abacus.OneLine (before ++ context).toList := by
    rw [String.toList_append, oneLine_append]
    exact ⟨start, h⟩
  cases h with
  | bracket => exact oneLine_operator (by decide +kernel) (by decide +kernel) _
  | parameters mem =>
    exact oneLine_operator (by decide +kernel) (context (by decide +kernel) (CalmWords.identifier calm mem)) _
  | blockStart begun =>
    exact oneLine_operator (by decide +kernel) (context (by decide +kernel) (begun.oneLine calm)) _
  | blockEnd begun =>
    exact oneLine_operator (by decide +kernel) (context (by decide +kernel) (begun.oneLine calm)) _
  | functionName => exact oneLine_functionName
  | parameter mem => exact (named mem).1
  | parameterEnd mem => exact (named mem).2.1
  | condition mem => exact (oneLine_word (oneLine_of_mem_conditionWords mem)).2.2.1
  | operand mem => exact (oneLine_word (oneLine_of_mem_binarySymbols mem)).2.2.2.1
  | literalRange mem => exact (oneLine_word (CalmWords.int calm mem)).2.2.2.2.1
  | argument mem => exact (named mem).2.2.2.2.2.1
  | argumentEnd mem => exact (named mem).2.2.2.2.2.2

theorem Source.Refuses.oneLine {src : Source} {levels : Nat} {ts : List Token} {f : ParseFault}
    (calm : CalmWords (ts.map Token.lexeme)) (h : src.Refuses levels ts f) : f.OneLine := by
  cases h with
  | after split program => exact ParseFault.oneLine_rejected (Cause.oneLine_unexpected _) _
  | inside blame =>
    cases blame with
    | rejected arises closes => exact ParseFault.oneLine_rejected (arises.oneLine calm) _
    | nestedTooDeeply deep => exact ParseFault.oneLine_nestedTooDeeply
    | numeralTooLong mem long => exact ParseFault.oneLine_numeralTooLong _

/-! ## Trees -/

theorem Vocabulary.Names.said {k : Vocabulary} {name : Name} (h : k.Names name) :
    Name.Said k.name name := by
  cases h with
  | str mem =>
    rintro _ ⟨⟩
    exact mem

namespace Node

variable {k : Vocabulary}

theorem IsExpression.named {e : Node} (h : e.IsExpression k) : e.Named k.name := by
  induction h with
  | int => exact .int
  | float => exact .float
  | bool => exact .bool
  | reference named => exact .reference named.said
  | call named _ arguments => exact .call named.said arguments

mutual

theorem IsStatement.named {s : Node} : s.IsStatement k → s.Named k.name
  | .assignment _ value => .assignment value.named
  | .expression value => .expression value.named
  | .returns value => .returns value.named
  | .function named _ body => .function named.said body.named
  | .branch conditions bodies => .branch (fun arm mem => (conditions arm mem).named)
      fun arm mem => (bodies arm mem).named
  | .loop condition body => .loop condition.named body.named
  | .empty => .empty

/-- In a well-sorted tree, messages show names of the vocabulary. -/
theorem IsBlock.named {b : Node} : b.IsBlock k → b.Named k.name
  | .block each => .block fun s mem => (each s mem).named

end

end Node

/-! ## Texts -/

theorem calmWords_lexemes (text : List Char) (offset : Nat) :
    CalmWords (Stream.ofText text offset).lexemes := by
  intro l mem
  obtain ⟨t, token, rfl⟩ := List.mem_map.1 mem
  exact Stream.oneLine_tokens token

theorem oneLine_of_readProgram {text : List Char} {offset : Nat} {report : Report}
    (refused : (readProgram text offset).program = .error report) : report.OneLine := by
  have refused : (parse text offset).1.mapError (ParseFault.report text offset) = .error report := refused
  rcases parseWithin_verdict nestingLimit text offset with ⟨tree, ok, -⟩ | ⟨f, eq, refuses⟩
  · rw [parse, ok] at refused
    cases refused
  · rw [parse, eq] at refused
    cases refused
    exact refuses.oneLine (calmWords_lexemes text offset) text offset

theorem calm_of_readProgram {text : List Char} {offset : Nat} {program : Node}
    (read : (readProgram text offset).program = .ok program) : program.Named Text.OneLine := by
  have calm := calmWords_lexemes text offset
  have covers : (Vocabulary.script Text.OneLine).Covers (Stream.ofText text offset).lexemes :=
    ⟨fun _ mem => Text.oneLine_ofString.2 (oneLine_of_mem_binarySymbols mem),
      fun _ mem => Text.oneLine_ofString.2 (CalmWords.identifier calm mem)⟩
  exact ((phrase_of_readProgram read).isBlock covers).named

end Abacus
