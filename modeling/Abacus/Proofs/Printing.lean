import Mathlib
import Abacus.Grammar.Report
import Abacus.Proofs.Canonical

/-!
# Printing

`Node.print` writes a tree as a program, with no more brackets than its operators need: around a left
operand that binds less tightly than the operator, and around a right operand that binds no more tightly.
Blanks stand only where words would run together. What the parser makes of it is the tree it was printed
from, so the trees that programs have are exactly the canonical ones.

How doubles are written is left open: any choice of digits that are read as the double will do
(`FloatSpelling`).
-/

namespace Abacus

/-- A way to write doubles: digits, a dot and digits, which are read as the double again. -/
structure FloatSpelling where
  numeral : Float → FixedPoint
  fraction_ne_nil : ∀ x, (numeral x).fraction ≠ []
  value_numeral : ∀ p : FixedPoint, p.fraction ≠ [] → (numeral p.value).value = p.value

/-- The way to write doubles that picks some numeral for each. -/
theorem FloatSpelling.nonempty : Nonempty FloatSpelling := by
  have pick (x : Float) : ∃ q : FixedPoint, q.fraction ≠ [] ∧
      ∀ p : FixedPoint, p.fraction ≠ [] → p.value = x → q.value = x := by
    by_cases h : ∃ p : FixedPoint, p.fraction ≠ [] ∧ p.value = x
    · obtain ⟨p, fraction, value⟩ := h
      exact ⟨p, fraction, fun _ _ _ => value⟩
    · have zero : ∀ c ∈ ['0'], c.isDigit = true := List.forall_mem_singleton.2 rfl
      exact ⟨⟨['0'], ['0'], List.cons_ne_nil _ _, zero, zero⟩, List.cons_ne_nil _ _,
        fun p fraction value => absurd ⟨p, fraction, value⟩ h⟩
  choose numeral fraction value using pick
  exact ⟨numeral, fraction, fun p h => value p.value p h rfl⟩

/-! ## The printer -/

/-- The characters of a name. -/
def nameText : Name → String
  | .str name => String.ofList name.chars
  | _ => ""

/-- How tightly an operator binds: sums less than products. -/
def operatorLevel? (symbol : String) : Option Nat :=
  if symbol ∈ ["+", "-"] then some 0
  else if symbol ∈ ["*", "/"] then some 1
  else none

/-- How tightly an expression binds. What is no operator's call stands by itself. -/
def Node.binding : Node → Nat
  | .call callee [_, _] => (operatorLevel? (nameText callee)).getD 2
  | _ => 2

/-- The words of an operand that has to bind as tightly as `level`, and does as tightly as `binding`. -/
def bracketed (level binding : Nat) (words : List Lexeme) : List Lexeme :=
  if binding < level then .operator "(" :: (words ++ [.operator ")"]) else words

def commaSeparated : List (List Lexeme) → List Lexeme
  | [] => []
  | [item] => item
  | item :: items => item ++ .operator "," :: commaSeparated items

namespace Node

section

variable (spelling : FloatSpelling)

mutual

/-- The words of an expression. -/
def words : Node → List Lexeme
  | reference name => [.identifier (nameText name)]
  | int n => [.int (String.ofList (Nat.toDigits 10 n.toNat))]
  | float x => [.float (String.ofList (spelling.numeral x).text)]
  | call callee arguments =>
    match operatorLevel? (nameText callee), arguments, wordsOfEach arguments with
    | some level, [a, b], [left, right] =>
      bracketed level a.binding left ++
        .operator (nameText callee) :: bracketed (level + 1) b.binding right
    | _, _, items =>
      .identifier (nameText callee) :: .operator "(" :: (commaSeparated items ++ [.operator ")"])
  | _ => []

def wordsOfEach : List Node → List (List Lexeme)
  | [] => []
  | e :: es => words e :: wordsOfEach es

end

mutual

/-- The words of a statement. -/
def statementWords : Node → List Lexeme
  | assignment target value =>
    .identifier (nameText target) :: .operator "=" :: (value.words spelling ++ [.semicolon])
  | returns value => .keyword "return" :: (value.words spelling ++ [.semicolon])
  | expression value => value.words spelling ++ [.semicolon]
  | function name params body =>
    .keyword "fn" :: .identifier (nameText name) :: .operator "(" ::
      (commaSeparated (params.map fun param => [.identifier (nameText param)]) ++
        .operator ")" :: bracedWords body)
  | branch arms => .keyword "if" :: armWords arms
  | loop condition body => .keyword "while" :: (condition.words spelling ++ bracedWords body)
  | _ => []

/-- The words of a block in braces. -/
def bracedWords : Node → List Lexeme
  | block statements => .operator "\x7b" :: (blockWords statements ++ [.operator "\x7d"])
  | _ => []

def blockWords : List Node → List Lexeme
  | [] => []
  | s :: ss => statementWords s ++ blockWords ss

/-- The words of the arms of a branch, after `if` or `elif`. -/
def armWords : List (Node × Node) → List Lexeme
  | [] => []
  | [(condition, body)] => condition.words spelling ++ bracedWords body
  | [(condition, body), (.bool true, other)] =>
    condition.words spelling ++ (bracedWords body ++ .keyword "else" :: bracedWords other)
  | (condition, body) :: arms =>
    condition.words spelling ++ (bracedWords body ++ .keyword "elif" :: armWords arms)

end

/-- A program as a text. -/
def print : Node → List Char
  | block statements => writeWords (blockWords spelling statements)
  | _ => []

end

end Node

@[simp] theorem nameText_str (name : String) : nameText (.str name) = name := by
  simp [nameText]

/-! ## Words that derive what they were printed from -/

/-- The words are proper, and they are a phrase. -/
structure Written {α : Type} (D : List Lexeme → α → Prop) (ls : List Lexeme) (a : α) : Prop where
  phrase : D ls a
  proper : ∀ l ∈ ls, l.Proper

namespace Phrase

/-- The phrases that bind as tightly as a level. -/
def AtLevel : Nat → List Lexeme → Node → Prop
  | 0 => Expression
  | 1 => Product
  | _ => Value

namespace AtLevel

variable {m n : Nat} {ls : List Lexeme} {e : Node}

theorem of_value (h : Value ls e) : AtLevel n ls e :=
  match n with
  | 0 => .product (.value h)
  | 1 => .value h
  | _ + 2 => h

theorem expression (h : AtLevel n ls e) : Expression ls e :=
  match n, h with
  | 0, h => h
  | 1, h => .product h
  | _ + 2, h => .product (.value h)

theorem mono (le : m ≤ n) (h : AtLevel n ls e) : AtLevel m ls e :=
  match m, n, h with
  | 0, _, h => h.expression
  | 1, 0, _ => absurd le (by decide)
  | 1, 1, h => h
  | 1, _ + 2, h => of_value h
  | _ + 2, 0, _ => absurd le (by omega)
  | _ + 2, 1, _ => absurd le (by omega)
  | _ + 2, _ + 2, h => h

end AtLevel

end Phrase

open Phrase

section Parts

variable {ls : List Lexeme}

theorem proper_in_brackets (h : ∀ l ∈ ls, l.Proper) :
    ∀ l ∈ .operator "(" :: (ls ++ [.operator ")"]), l.Proper := by
  rw [List.forall_mem_cons, List.forall_mem_append, List.forall_mem_singleton]
  exact ⟨.operator (by decide), h, .operator (by decide)⟩

theorem bracketed_written (level : Nat) {binding : Nat} {e : Node} (h : Written (AtLevel binding) ls e) :
    Written (AtLevel level) (bracketed level binding ls) e := by
  unfold bracketed
  split
  · exact ⟨.of_value (.bracket h.phrase.expression), proper_in_brackets h.proper⟩
  · next tight => exact ⟨h.phrase.mono (Nat.le_of_not_lt tight), h.proper⟩

/-- Phrases that are written one by one are written with commas between them. -/
theorem commaSeparated_written {α : Type} {D : List Lexeme → α → Prop} {f : α → List Lexeme}
    {as : List α} (h : ∀ a ∈ as, Written D (f a) a) (nonempty : as ≠ []) :
    Written (Separated D) (commaSeparated (as.map f)) as := by
  induction as with
  | nil => exact absurd rfl nonempty
  | cons a as ih =>
    obtain ⟨first, rest⟩ := List.forall_mem_cons.1 h
    cases as with
    | nil => exact ⟨.one first.phrase, first.proper⟩
    | cons b bs =>
      have tail := ih rest (List.cons_ne_nil _ _)
      refine ⟨.more first.phrase tail.phrase, ?_⟩
      have comma : Lexeme.Proper (.operator ",") := .operator (by decide)
      rw [List.map_cons, List.map_cons, commaSeparated, List.forall_mem_append, List.forall_mem_cons]
      · exact ⟨first.proper, comma, tail.proper⟩
      · exact List.cons_ne_nil _ _

end Parts

/-! ## Expressions -/

theorem operatorLevel?_of_isName {name : String} (h : IsName name) : operatorLevel? name = none := by
  obtain ⟨-, c, cs, chars, start, -⟩ := h
  have starts (symbol : String) (d : Char) (spelt : symbol.toList = [d])
      (other : isWordStart d = false) : name ≠ symbol := by
    rintro rfl
    obtain ⟨rfl, -⟩ := List.cons.inj (chars.symm.trans spelt)
    rw [start] at other
    cases other
  have plus := starts "+" '+' (by decide) (by decide)
  have minus := starts "-" '-' (by decide) (by decide)
  have times := starts "*" '*' (by decide) (by decide)
  have by' := starts "/" '/' (by decide) (by decide)
  simp [operatorLevel?, plus, minus, times, by']

theorem operatorLevel?_of_mem {symbol : String} (known : symbol ∈ ["+", "-", "*", "/"]) :
    symbol ∈ operatorTable ∧
      (symbol ∈ ["+", "-"] ∧ operatorLevel? symbol = some 0 ∨
        symbol ∈ ["*", "/"] ∧ operatorLevel? symbol = some 1) := by
  simp only [List.mem_cons, List.not_mem_nil, or_false] at known
  rcases known with rfl | rfl | rfl | rfl <;> decide

namespace Node

variable (spelling : FloatSpelling)

theorem wordsOfEach_eq_map (es : List Node) : wordsOfEach spelling es = es.map (words spelling) := by
  induction es with
  | nil => rfl
  | cons e es ih => rw [wordsOfEach, ih, List.map_cons]

theorem words_call {name : String} (isName : IsName name) (arguments : List Node) :
    words spelling (.call (.str name) arguments) = .identifier name :: .operator "(" ::
      (commaSeparated (arguments.map (words spelling)) ++ [.operator ")"]) := by
  have none := operatorLevel?_of_isName isName
  rw [words, nameText_str, wordsOfEach_eq_map]
  intro level a b left right operator
  rw [nameText_str, none] at operator
  cases operator

theorem words_operator {symbol : String} {level : Nat} (known : operatorLevel? symbol = some level)
    (a b : Node) :
    words spelling (.call (.str symbol) [a, b]) = bracketed level a.binding (words spelling a) ++
      .operator symbol :: bracketed (level + 1) b.binding (words spelling b) := by
  conv_lhs => unfold words
  rw [nameText_str, known, wordsOfEach_eq_map]
  rfl

theorem binding_call {name : String} (isName : IsName name) (arguments : List Node) :
    (Node.call (.str name) arguments).binding = 2 := by
  have none := operatorLevel?_of_isName isName
  unfold binding
  split
  · next eq =>
    cases eq
    simp [none]
  · rfl

theorem binding_operator {symbol : String} {level : Nat} (known : operatorLevel? symbol = some level)
    (a b : Node) : (Node.call (.str symbol) [a, b]).binding = level := by
  simp [binding, known]

variable {spelling}

/-- The digits of an integer are read as the integer. -/
theorem int_written {n : Int} (nonneg : 0 ≤ n) (le : n ≤ maxInt) :
    Written Value [.int (String.ofList (Nat.toDigits 10 n.toNat))] (.int n) := by
  have value : Numeral.natOfDigits (Nat.toDigits 10 n.toNat) = n.toNat :=
    Nat.ofDigitChars_eq_foldl.symm.trans Nat.ofDigitChars_ten_toDigits
  have small : n.toNat < 10 ^ 10 := by
    unfold maxInt at le
    omega
  have short : (Nat.toDigits 10 n.toNat).length ≤ 10 :=
    (Nat.length_toDigits_le_iff (by decide) (by decide)).2 small
  have denotes : ((Numeral.natOfDigits (String.ofList (Nat.toDigits 10 n.toNat)).toList : Nat) : Int)
      = n := by
    rw [String.toList_ofList, value, Int.toNat_of_nonneg nonneg]
  have fits : fitsInt32 n = true := by
    simp only [fitsInt32, Bool.and_eq_true, decide_eq_true_eq]
    exact ⟨Int.le_trans (by decide) nonneg, le⟩
  refine ⟨?_, List.forall_mem_singleton.2 (.int ?_ ?_)⟩
  · rw [← denotes] at fits
    have room : (String.ofList (Nat.toDigits 10 n.toNat)).length ≤ digitLimit := by
      rw [String.length_ofList, digitLimit]
      omega
    have phrase := Value.int room fits
    rwa [denotes] at phrase
  · rw [String.toList_ofList]
    exact Nat.toDigits_ne_nil
  · rw [String.toList_ofList]
    exact fun c => Nat.isDigit_of_mem_toDigits (by decide) (by decide)

/-- The words of an expression derive it, at the level where it binds. -/
theorem words_written {e : Node} (h : e.IsCanonicalExpression) :
    Written (AtLevel e.binding) (e.words spelling) e := by
  induction h with
  | reference isName =>
    rw [words, nameText_str]
    exact ⟨.of_value .reference, List.forall_mem_singleton.2 (.identifier isName)⟩
  | int nonneg le =>
    have h := int_written nonneg le
    rw [words]
    exact ⟨.of_value h.phrase, h.proper⟩
  | float p fraction =>
    have reads := Numeral.readFloat?_fixedPoint (spelling.numeral p.value)
    rw [spelling.value_numeral p fraction] at reads
    rw [words]
    exact ⟨.of_value (.float reads),
      List.forall_mem_singleton.2 (.float _ (spelling.fraction_ne_nil _))⟩
  | @call name arguments isName _ ih =>
    rw [binding_call isName, words_call spelling isName]
    have items : Written Arguments (commaSeparated (arguments.map (words spelling))) arguments := by
      by_cases empty : arguments = []
      · subst empty
        exact ⟨.none, List.forall_mem_nil _⟩
      · have h := commaSeparated_written (D := Expression)
          (fun a mem => ⟨(ih a mem).phrase.expression, (ih a mem).proper⟩) empty
        exact ⟨.some (items_of_separated h.phrase), h.proper⟩
    exact ⟨.call items.phrase,
      List.forall_mem_cons.2 ⟨.identifier isName, proper_in_brackets items.proper⟩⟩
  | @operator symbol a b known _ _ left right =>
    obtain ⟨inTable, ⟨additive, level⟩ | ⟨multiplicative, level⟩⟩ := operatorLevel?_of_mem known
    · have hl := bracketed_written 0 left
      have hr := bracketed_written 1 right
      rw [binding_operator level, words_operator spelling level]
      refine ⟨.apply hl.phrase additive hr.phrase, ?_⟩
      rw [List.forall_mem_append, List.forall_mem_cons]
      exact ⟨hl.proper, .operator inTable, hr.proper⟩
    · have hl := bracketed_written 1 left
      have hr := bracketed_written 2 right
      rw [binding_operator level, words_operator spelling level]
      refine ⟨.apply hl.phrase multiplicative hr.phrase, ?_⟩
      rw [List.forall_mem_append, List.forall_mem_cons]
      exact ⟨hl.proper, .operator inTable, hr.proper⟩

/-! ## Statements -/

variable (spelling)

theorem expression_written {e : Node} (h : e.IsCanonicalExpression) :
    Written Expression (e.words spelling) e :=
  ⟨(words_written h).phrase.expression, (words_written h).proper⟩

theorem parameters_written {params : List String} (h : ∀ param ∈ params, IsName param) :
    Written Parameters
      (commaSeparated ((params.map fun (param : String) => (.str param : Name)).map fun param =>
        [.identifier (nameText param)])) params := by
  have each : ∀ param ∈ params, Written Identifier [.identifier (nameText (.str param))] param := by
    intro param mem
    rw [nameText_str]
    exact ⟨rfl, List.forall_mem_singleton.2 (.identifier (h param mem))⟩
  rw [List.map_map]
  by_cases empty : params = []
  · subst empty
    exact ⟨.none, List.forall_mem_nil _⟩
  · have items := commaSeparated_written each empty
    exact ⟨.some items.phrase, items.proper⟩

/-- The words of statements, one after the other. -/
theorem block_written {statements : List Node}
    (h : ∀ s ∈ statements, Written Statement (s.statementWords spelling) s) :
    Written Block (blockWords spelling statements) statements := by
  induction statements with
  | nil => exact ⟨.nil, List.forall_mem_nil _⟩
  | cons s ss ih =>
    obtain ⟨first, rest⟩ := List.forall_mem_cons.1 h
    rw [blockWords]
    exact ⟨.cons first.phrase (ih rest).phrase,
      List.forall_mem_append.2 ⟨first.proper, (ih rest).proper⟩⟩

theorem AreCanonicalArms.ne_nil {arms : List (Node × Node)} (h : AreCanonicalArms arms) :
    arms ≠ [] := by
  cases h <;> exact List.cons_ne_nil _ _

/-- `true` is not the condition of an only arm. -/
theorem AreCanonicalArms.ne_otherwise {arms : List (Node × Node)} (h : AreCanonicalArms arms)
    (other : Node) : arms ≠ [(.bool true, other)] := by
  rintro rfl
  cases h with
  | last condition _ => cases condition
  | elif _ _ none => exact none.ne_nil rfl

/-- Further arms follow `elif`. -/
theorem armWords_elif {arms : List (Node × Node)} (h : AreCanonicalArms arms) (c b : Node) :
    armWords spelling ((c, b) :: arms)
      = c.words spelling ++ (b.bracedWords spelling ++ .keyword "elif" :: armWords spelling arms) := by
  rw [armWords]
  · exact h.ne_nil
  · exact h.ne_otherwise

mutual

/-- A canonical statement is written in words that derive it. -/
theorem statement_written {s : Node} :
    s.IsCanonicalStatement → Written Statement (s.statementWords spelling) s
  | .assignment isName value => by
    have value := expression_written spelling value
    rw [statementWords, nameText_str]
    refine ⟨.assignment value.phrase, ?_⟩
    simp only [List.forall_mem_cons, List.forall_mem_append]
    exact ⟨.identifier isName, .operator (by decide), value.proper, .semicolon, List.forall_mem_nil _⟩
  | .returns value => by
    have value := expression_written spelling value
    rw [statementWords]
    refine ⟨.returns value.phrase, ?_⟩
    simp only [List.forall_mem_cons, List.forall_mem_append]
    exact ⟨.keyword (by decide), value.proper, .semicolon, List.forall_mem_nil _⟩
  | .expression value => by
    have value := expression_written spelling value
    rw [statementWords]
    refine ⟨.expression value.phrase, ?_⟩
    simp only [List.forall_mem_cons, List.forall_mem_append]
    exact ⟨value.proper, .semicolon, List.forall_mem_nil _⟩
  | .function isName areNames body => by
    have parameters := parameters_written areNames
    have body := braced_written body
    rw [statementWords, nameText_str]
    refine ⟨.function parameters.phrase body.phrase, ?_⟩
    simp only [List.forall_mem_cons, List.forall_mem_append]
    exact ⟨.keyword (by decide), .identifier isName, .operator (by decide), parameters.proper,
      .operator (by decide), body.proper⟩
  | .branch arms => by
    have arms := arms_written arms
    rw [statementWords]
    exact ⟨.branch arms.phrase, List.forall_mem_cons.2 ⟨.keyword (by decide), arms.proper⟩⟩
  | .loop condition body => by
    have condition := expression_written spelling condition
    have body := braced_written body
    rw [statementWords]
    refine ⟨.loop condition.phrase body.phrase, ?_⟩
    simp only [List.forall_mem_cons, List.forall_mem_append]
    exact ⟨.keyword (by decide), condition.proper, body.proper⟩

theorem braced_written {b : Node} : b.IsCanonicalBlock → Written Braced (b.bracedWords spelling) b
  | .block canonical => by
    have block := block_written spelling fun s mem => statement_written (canonical s mem)
    rw [bracedWords]
    refine ⟨.block block.phrase, ?_⟩
    simp only [List.forall_mem_cons, List.forall_mem_append]
    exact ⟨.operator (by decide), block.proper, .operator (by decide), List.forall_mem_nil _⟩

/-- Arms are written in their order; a last one whose condition is `true` is an `else`. -/
theorem arms_written {arms : List (Node × Node)} :
    AreCanonicalArms arms → Written Arms (armWords spelling arms) arms
  | .last condition body => by
    have condition := expression_written spelling condition
    have body := braced_written body
    rw [armWords]
    exact ⟨.last condition.phrase body.phrase,
      List.forall_mem_append.2 ⟨condition.proper, body.proper⟩⟩
  | .otherwise condition body other => by
    have condition := expression_written spelling condition
    have body := braced_written body
    have other := braced_written other
    rw [armWords]
    refine ⟨.otherwise condition.phrase body.phrase other.phrase, ?_⟩
    simp only [List.forall_mem_cons, List.forall_mem_append]
    exact ⟨condition.proper, body.proper, .keyword (by decide), other.proper⟩
  | .elif condition body arms => by
    have condition := expression_written spelling condition
    have body := braced_written body
    have rest := arms_written arms
    rw [armWords_elif spelling arms]
    refine ⟨.elif condition.phrase body.phrase rest.phrase, ?_⟩
    simp only [List.forall_mem_cons, List.forall_mem_append]
    exact ⟨condition.proper, body.proper, .keyword (by decide), rest.proper⟩

end

/-- A canonical program is read from what is printed of it. -/
theorem parseFreely_print {tree : Node} (h : tree.IsCanonicalBlock) :
    parseFreely (tree.print spelling) 0 = .ok tree := by
  obtain @⟨statements, canonical⟩ := h
  have block := block_written spelling fun s mem => statement_written spelling (canonical s mem)
  refine (parseFreely_eq_ok_iff _ _ _).2 ⟨statements, rfl, ?_⟩
  rw [Stream.ofText, List.drop_zero, print, lexemes_writeWords block.proper]
  exact block.phrase

end Node

/-- Parsing inverts printing, and gives canonical trees only. Whatever is read from a text is canonical,
under whatever limit of nesting. A canonical tree is read from what is printed of it, however doubles are
written, unless it nests too deeply for the limit. So programs have exactly the canonical trees. -/
theorem parse_inverts_print :
    (∀ levels text offset tree,
      (parseWithin levels Memo.remembering text offset).1 = .ok tree → tree.IsCanonicalBlock) ∧
    (∀ text offset tree, (readProgram text offset).program = .ok tree → tree.IsCanonicalBlock) ∧
    Nonempty FloatSpelling ∧
    (∀ (spelling : FloatSpelling) (tree : Node), tree.IsCanonicalBlock →
      parseFreely (tree.print spelling) 0 = .ok tree ∧
        ((readProgram (tree.print spelling) 0).program = .ok tree ∨
          (readProgram (tree.print spelling) 0).program
            = .error (ParseFault.nestedTooDeeply.report (tree.print spelling) 0))) ∧
    ∀ tree : Node, (∃ text, parseFreely text 0 = .ok tree) ↔ tree.IsCanonicalBlock := by
  refine ⟨fun _ _ _ _ => isCanonicalBlock_of_parseWithin,
    fun _ _ _ => isCanonicalBlock_of_readProgram, FloatSpelling.nonempty, ?_,
    fun tree => ⟨?_, fun h => ?_⟩⟩
  · intro spelling tree h
    have ok := Node.parseFreely_print spelling h
    refine ⟨ok, ?_⟩
    unfold readProgram parse
    rcases parseWithin_eq_parseFreely_or (tree.print spelling) 0 nestingLimit with eq | deep
    · exact .inl (congrArg (Except.mapError _) (eq.trans ok))
    · exact .inr (congrArg (Except.mapError _) deep)
  · rintro ⟨text, ok⟩
    exact isCanonicalBlock_of_parseWithin ok
  · obtain ⟨spelling⟩ := FloatSpelling.nonempty
    exact ⟨tree.print spelling, Node.parseFreely_print spelling h⟩

/-- Operands on both sides that need brackets, and one that needs none. -/
def bracketedProduct : Node :=
  .block [.assignment (.str "x") (.call (.str "*")
    [.call (.str "-") [.int 1, .call (.str "-") [.int 2, .int 3]],
      .call (.str "f") [.reference (.str "y"), .int 4]])]

/-- `x=(1-(2-3))*f(y,4);` -/
def bracketedProductText : List Char :=
  ['x', '=', '(', '1', '-', '(', '2', '-', '3', ')', ')', '*', 'f', '(', 'y', ',', '4', ')', ';']

theorem bracketedProduct_isCanonicalBlock : bracketedProduct.IsCanonicalBlock := by
  have isName (c : Char) (start : isWordStart c = true) (free : String.ofList [c] ∉ reservedWords) :
      IsName (String.ofList [c]) := ⟨free, c, [], String.toList_ofList, start, List.forall_mem_nil _⟩
  have int (n : Int) (nonneg : 0 ≤ n) (le : n ≤ maxInt) : (Node.int n).IsCanonicalExpression :=
    .int nonneg le
  refine .block (List.forall_mem_singleton.2 (.assignment (isName 'x' (by decide) (by decide)) ?_))
  refine .operator (by decide) (.operator (by decide) (int 1 (by decide) (by decide))
    (.operator (by decide) (int 2 (by decide) (by decide)) (int 3 (by decide) (by decide)))) ?_
  refine .call (isName 'f' (by decide) (by decide)) (List.forall_mem_cons.2 ⟨?_, ?_⟩)
  · exact .reference (isName 'y' (by decide) (by decide))
  · exact List.forall_mem_singleton.2 (int 4 (by decide) (by decide))

theorem parse_inverts_print_bracketedProduct :
    bracketedProduct.IsCanonicalBlock ∧
      (∀ spelling, bracketedProduct.print spelling = bracketedProductText) ∧
      parseFreely bracketedProductText 0 = .ok bracketedProduct := by
  have printed (spelling : FloatSpelling) : bracketedProduct.print spelling = bracketedProductText := by
    cbv
  obtain ⟨-, -, ⟨spelling⟩, back, -⟩ := parse_inverts_print
  refine ⟨bracketedProduct_isCanonicalBlock, printed, ?_⟩
  rw [← printed spelling]
  exact (back spelling bracketedProduct bracketedProduct_isCanonicalBlock).1

end Abacus
