import Abacus.Proofs.Acceptance
import Abacus.Proofs.Spelling

/-!
# Canonical trees

The trees that programs have. Every node stands in its place, names are names, integers are those that
can be written without a sign, and doubles are those that digits with a dot denote. A call is that of a
function, or that of an operator with two operands. A branch has an arm at least, and `true` is the
condition of nothing but a last arm after others.

Words derive no other trees (`Phrase.Program.isCanonical`), since the names and numerals of a text are
well-formed.
-/

namespace Abacus

namespace Node

inductive IsCanonicalExpression : Node → Prop
  | reference {name} (isName : IsName name) : IsCanonicalExpression (.reference (.str name))
  | int {n : Int} (nonneg : 0 ≤ n) (le : n ≤ maxInt) : IsCanonicalExpression (.int n)
  | float (p : FixedPoint) (fraction : p.fraction ≠ []) : IsCanonicalExpression (.float p.value)
  | call {name arguments} (isName : IsName name) (canonical : ∀ a ∈ arguments, IsCanonicalExpression a) :
      IsCanonicalExpression (.call (.str name) arguments)
  | operator {symbol : String} {a b} (known : symbol ∈ ["+", "-", "*", "/"])
      (left : IsCanonicalExpression a) (right : IsCanonicalExpression b) :
      IsCanonicalExpression (.call (.str symbol) [a, b])

mutual

inductive IsCanonicalStatement : Node → Prop
  | assignment {name e} (isName : IsName name) (value : IsCanonicalExpression e) :
      IsCanonicalStatement (.assignment (.str name) e)
  | returns {e} (value : IsCanonicalExpression e) : IsCanonicalStatement (.returns e)
  | expression {e} (value : IsCanonicalExpression e) : IsCanonicalStatement (.expression e)
  | function {name : String} {params : List String} {b} (isName : IsName name)
      (areNames : ∀ param ∈ params, IsName param) (body : IsCanonicalBlock b) :
      IsCanonicalStatement
        (.function (.str name) (params.map fun (param : String) => .str param) b)
  | branch {arms} (canonical : AreCanonicalArms arms) : IsCanonicalStatement (.branch arms)
  | loop {c b} (condition : IsCanonicalExpression c) (body : IsCanonicalBlock b) :
      IsCanonicalStatement (.loop c b)

inductive IsCanonicalBlock : Node → Prop
  | block {statements} (canonical : ∀ s ∈ statements, IsCanonicalStatement s) :
      IsCanonicalBlock (.block statements)

/-- One arm or more. An `else` has the condition `true` and is the last of two or more. -/
inductive AreCanonicalArms : List (Node × Node) → Prop
  | last {c b} (condition : IsCanonicalExpression c) (body : IsCanonicalBlock b) :
      AreCanonicalArms [(c, b)]
  | otherwise {c b o} (condition : IsCanonicalExpression c) (body : IsCanonicalBlock b)
      (other : IsCanonicalBlock o) : AreCanonicalArms [(c, b), (.bool true, o)]
  | elif {c b arms} (condition : IsCanonicalExpression c) (body : IsCanonicalBlock b)
      (canonical : AreCanonicalArms arms) : AreCanonicalArms ((c, b) :: arms)

end

end Node

/-! ## Words derive canonical trees -/

/-- The words are those of some text. -/
abbrev FromText (ls : List Lexeme) : Prop := ∀ l ∈ ls, l.Proper ∨ ∃ d, l = .stray d

namespace FromText

variable {ls rs : List Lexeme}

theorem left (h : FromText (ls ++ rs)) : FromText ls := fun l hl => h l (List.mem_append_left _ hl)

theorem right (h : FromText (ls ++ rs)) : FromText rs := fun l hl => h l (List.mem_append_right _ hl)

theorem tail {l : Lexeme} (h : FromText (l :: ls)) : FromText ls :=
  fun r hr => h r (List.mem_cons_of_mem _ hr)

theorem isName {name : String} (h : FromText ls) (mem : .identifier name ∈ ls) : IsName name := by
  rcases h _ mem with proper | ⟨d, eq⟩
  · cases proper with
    | identifier isName => exact isName
  · cases eq

theorem fixedPoint {numeral : String} (h : FromText ls) (mem : .float numeral ∈ ls) :
    ∃ p : FixedPoint, p.fraction ≠ [] ∧ numeral = String.ofList p.text := by
  rcases h _ mem with proper | ⟨d, eq⟩
  · cases proper with
    | float p fraction => exact ⟨p, fraction, rfl⟩
  · cases eq

end FromText

namespace Phrase

open Node (IsCanonicalExpression IsCanonicalStatement IsCanonicalBlock AreCanonicalArms)

mutual

theorem Expression.isCanonical {ls e} : Expression ls e → FromText ls → IsCanonicalExpression e
  | .product product, h => product.isCanonical h
  | .apply left additive right, h =>
      .operator (List.mem_append_left ["*", "/"] additive) (left.isCanonical h.left)
        (right.isCanonical h.right.tail)

theorem Product.isCanonical {ls e} : Product ls e → FromText ls → IsCanonicalExpression e
  | .value value, h => value.isCanonical h
  | .apply left multiplicative right, h =>
      .operator (List.mem_append_right ["+", "-"] multiplicative) (left.isCanonical h.left)
        (right.isCanonical h.right.tail)

theorem Value.isCanonical {ls e} : Value ls e → FromText ls → IsCanonicalExpression e
  | .call arguments, h =>
      .call (h.isName List.mem_cons_self) (arguments.areCanonical h.tail.tail.left)
  | .bracket expression, h => expression.isCanonical h.tail.left
  | .float reads, h => by
    obtain ⟨p, fraction, rfl⟩ := h.fixedPoint List.mem_cons_self
    cases (Numeral.readFloat?_fixedPoint p).symm.trans reads
    exact .float p fraction
  | .int _ fits, _ => .int (Int.natCast_nonneg _) (of_decide_eq_true (Bool.and_eq_true_iff.1 fits).2)
  | .reference, h => .reference (h.isName List.mem_cons_self)

theorem Arguments.areCanonical {ls es} :
    Arguments ls es → FromText ls → ∀ e ∈ es, IsCanonicalExpression e
  | .none, _ => List.forall_mem_nil _
  | .some items, h => items.areCanonical h

theorem Items.areCanonical {ls es} : Items ls es → FromText ls → ∀ e ∈ es, IsCanonicalExpression e
  | .one item, h => List.forall_mem_singleton.2 (item.isCanonical h)
  | .more item items, h =>
      List.forall_mem_cons.2 ⟨item.isCanonical h.left, items.areCanonical h.right.tail⟩

end

theorem Separated.areNames {ls names} (h : Separated Identifier ls names) (words : FromText ls) :
    ∀ name ∈ names, IsName name := by
  induction h with
  | one item =>
    cases item
    exact List.forall_mem_singleton.2 (words.isName List.mem_cons_self)
  | more item _ ih =>
    cases item
    exact List.forall_mem_cons.2 ⟨words.isName List.mem_cons_self, ih words.right.tail⟩

theorem Parameters.areNames {ls names} (h : Parameters ls names) (words : FromText ls) :
    ∀ name ∈ names, IsName name := by
  cases h with
  | none => exact List.forall_mem_nil _
  | some items => exact items.areNames words

mutual

theorem Statement.isCanonical {ls s} : Statement ls s → FromText ls → IsCanonicalStatement s
  | .assignment value, h =>
      .assignment (h.isName List.mem_cons_self) (value.isCanonical h.tail.tail.left)
  | .returns value, h => .returns (value.isCanonical h.tail.left)
  | .expression value, h => .expression (value.isCanonical h.left)
  | .function parameters body, h =>
      .function (h.tail.isName List.mem_cons_self) (parameters.areNames h.tail.tail.tail.left)
        (body.isCanonical h.tail.tail.tail.right.tail)
  | .branch arms, h => .branch (arms.areCanonical h.tail)
  | .loop condition body, h =>
      .loop (condition.isCanonical h.tail.left) (body.isCanonical h.tail.right)

theorem Braced.isCanonical {ls b} : Braced ls b → FromText ls → IsCanonicalBlock b
  | .block block, h => .block (block.areCanonical h.tail.left)

theorem Arms.areCanonical {ls arms} : Arms ls arms → FromText ls → AreCanonicalArms arms
  | .last condition body, h => .last (condition.isCanonical h.left) (body.isCanonical h.right)
  | .otherwise condition body other, h =>
      .otherwise (condition.isCanonical h.left) (body.isCanonical h.right.left)
        (other.isCanonical h.right.right.tail)
  | .elif condition body arms, h =>
      .elif (condition.isCanonical h.left) (body.isCanonical h.right.left)
        (arms.areCanonical h.right.right.tail)

theorem Block.areCanonical {ls ss} : Block ls ss → FromText ls → ∀ s ∈ ss, IsCanonicalStatement s
  | .nil, _ => List.forall_mem_nil _
  | .semicolon block, h => block.areCanonical h.tail
  | .cons statement block, h =>
      List.forall_mem_cons.2 ⟨statement.isCanonical h.left, block.areCanonical h.right⟩

end

theorem Program.isCanonical {ls tree} (h : Program ls tree) (words : FromText ls) :
    IsCanonicalBlock tree := by
  obtain ⟨statements, rfl, block⟩ := h
  exact .block (block.areCanonical words)

end Phrase

/-- What is read from a text is canonical, under whatever limit of nesting. -/
theorem isCanonicalBlock_of_parseWithin {levels : Nat} {text : List Char} {offset : Nat} {tree : Node}
    (ok : (parseWithin levels Memo.remembering text offset).1 = .ok tree) : tree.IsCanonicalBlock := by
  have free : parseFreely text offset = .ok tree := by
    rcases parseWithin_eq_parseFreely_or text offset levels with eq | deep
    · exact eq ▸ ok
    · cases ok.symm.trans deep
  exact ((parseFreely_eq_ok_iff text offset tree).1 free).isCanonical (Stream.proper_or_stray _ _)

theorem isCanonicalBlock_of_readProgram {text : List Char} {offset : Nat} {tree : Node}
    (ok : (readProgram text offset).program = .ok tree) : tree.IsCanonicalBlock := by
  have ok : (parse text offset).1.mapError (ParseFault.report text offset) = .ok tree := ok
  cases outcome : (parse text offset).1 with
  | ok found =>
    rw [outcome] at ok
    cases ok
    exact isCanonicalBlock_of_parseWithin outcome
  | error fault =>
    rw [outcome] at ok
    cases ok

end Abacus
