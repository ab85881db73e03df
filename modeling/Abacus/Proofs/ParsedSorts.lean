import Abacus.Proofs.Acceptance
import Abacus.Proofs.Sorts

/-!
# Programs from texts are well-sorted

Whatever the words of a text derive has statements, expressions and blocks in their places, texts for
names and integers of thirty-two bits. Its names stand among the words (`Vocabulary.Covers`). So every
program that the parser gives is well-sorted in any vocabulary that has all strings among its names.
-/

namespace Abacus

/-- What scripts are made of: integers of thirty-two bits, and no values but those that scripts compute.
Of the names no more is said than that they are texts. -/
def Vocabulary.script (names : Text → Prop) : Vocabulary where
  name := names
  integer n := fitsInt32 n = true
  foreign := False
  integer_of_fits := id

/-- Every string is a name. -/
abbrev Vocabulary.HasStrings (k : Vocabulary) : Prop := ∀ s : String, k.name s

/-- What a tree can take for names from these words, and from the operators between them. -/
structure Vocabulary.Covers (k : Vocabulary) (ls : List Lexeme) : Prop where
  symbols : ∀ symbol ∈ binarySymbols, k.name symbol
  names : ∀ name : String, .identifier name ∈ ls → k.name name

namespace Vocabulary

variable {k : Vocabulary} {l : Lexeme} {ls rs : List Lexeme}

theorem HasStrings.covers (words : k.HasStrings) (ls : List Lexeme) : k.Covers ls where
  symbols symbol _ := words symbol
  names name _ := words name

namespace Covers

theorem left (h : k.Covers (ls ++ rs)) : k.Covers ls where
  symbols := h.symbols
  names name mem := h.names name (List.mem_append_left _ mem)

theorem right (h : k.Covers (ls ++ rs)) : k.Covers rs where
  symbols := h.symbols
  names name mem := h.names name (List.mem_append_right _ mem)

theorem tail (h : k.Covers (l :: ls)) : k.Covers ls where
  symbols := h.symbols
  names name mem := h.names name (List.mem_cons_of_mem _ mem)

theorem head {name : String} (h : k.Covers (.identifier name :: ls)) : k.Names (.str name) :=
  .str (h.names name List.mem_cons_self)

theorem additive (h : k.Covers ls) {symbol : String} (mem : symbol ∈ ["+", "-"]) :
    k.Names (.str symbol) :=
  have binary : ["+", "-"] ⊆ binarySymbols := by decide
  .str (h.symbols symbol (binary mem))

theorem multiplicative (h : k.Covers ls) {symbol : String} (mem : symbol ∈ ["*", "/"]) :
    k.Names (.str symbol) :=
  have binary : ["*", "/"] ⊆ binarySymbols := by decide
  .str (h.symbols symbol (binary mem))

end Covers

end Vocabulary

namespace Phrase

variable {k : Vocabulary}

mutual

theorem Expression.isExpression {ls e} : Expression ls e → k.Covers ls → e.IsExpression k
  | .product product, covers => product.isExpression covers
  | .apply left symbol right, covers => .call (covers.additive symbol) <|
      List.forall_mem_cons.2 ⟨left.isExpression covers.left,
        List.forall_mem_singleton.2 (right.isExpression covers.right.tail)⟩

theorem Product.isExpression {ls e} : Product ls e → k.Covers ls → e.IsExpression k
  | .value value, covers => value.isExpression covers
  | .apply left symbol right, covers => .call (covers.multiplicative symbol) <|
      List.forall_mem_cons.2 ⟨left.isExpression covers.left,
        List.forall_mem_singleton.2 (right.isExpression covers.right.tail)⟩

theorem Value.isExpression {ls e} : Value ls e → k.Covers ls → e.IsExpression k
  | .call arguments, covers => .call covers.head (arguments.isExpression covers.tail.tail.left)
  | .bracket expression, covers => expression.isExpression covers.tail.left
  | .float _, _ => .float
  | .int _ fits, _ => .int (k.integer_of_fits fits)
  | .reference, covers => .reference covers.head

theorem Arguments.isExpression {ls es} : Arguments ls es → k.Covers ls → ∀ e ∈ es, e.IsExpression k
  | .none, _ => List.forall_mem_nil _
  | .some items, covers => items.isExpression covers

theorem Items.isExpression {ls es} : Items ls es → k.Covers ls → ∀ e ∈ es, e.IsExpression k
  | .one item, covers => List.forall_mem_singleton.2 (item.isExpression covers)
  | .more item items, covers =>
      List.forall_mem_cons.2 ⟨item.isExpression covers.left, items.isExpression covers.right.tail⟩

end

/-- The parameters of a function are names among its words. -/
theorem Parameters.names {ls names} (h : Parameters ls names) (covers : k.Covers ls) :
    ∀ name ∈ names, k.Names (.str (name : String)) := by
  cases h with
  | none => exact List.forall_mem_nil _
  | some items =>
    induction items with
    | one item =>
      cases item
      exact List.forall_mem_singleton.2 covers.head
    | more item _ ih =>
      cases item
      exact List.forall_mem_cons.2 ⟨covers.head, ih covers.right.tail⟩

mutual

theorem Statement.isStatement {ls s} : Statement ls s → k.Covers ls → s.IsStatement k
  | .assignment value, covers => .assignment covers.head (value.isExpression covers.tail.tail.left)
  | .returns value, covers => .returns (value.isExpression covers.tail.left)
  | .expression value, covers => .expression (value.isExpression covers.left)
  | .function parameters body, covers => by
    have inside := covers.tail.tail.tail
    refine .function covers.tail.head (fun p hp => ?_) (body.isBlock inside.right.tail)
    obtain ⟨param, mem, rfl⟩ := List.mem_map.1 hp
    exact parameters.names inside.left param mem
  | .branch arms, covers => .branch (fun arm mem => (arms.isSorted covers.tail arm mem).1)
      fun arm mem => (arms.isSorted covers.tail arm mem).2
  | .loop condition body, covers =>
      .loop (condition.isExpression covers.tail.left) (body.isBlock covers.tail.right)

theorem Braced.isBlock {ls b} : Braced ls b → k.Covers ls → b.IsBlock k
  | .block block, covers => .block (block.isStatement covers.tail.left)

theorem Arms.isSorted {ls arms} :
    Arms ls arms → k.Covers ls → ∀ arm ∈ arms, arm.1.IsExpression k ∧ arm.2.IsBlock k
  | .last condition body, covers => List.forall_mem_singleton.2
      ⟨condition.isExpression covers.left, body.isBlock covers.right⟩
  | .otherwise condition body other, covers => List.forall_mem_cons.2
      ⟨⟨condition.isExpression covers.left, body.isBlock covers.right.left⟩,
        List.forall_mem_singleton.2 ⟨.bool, other.isBlock covers.right.right.tail⟩⟩
  | .elif condition body arms, covers => List.forall_mem_cons.2
      ⟨⟨condition.isExpression covers.left, body.isBlock covers.right.left⟩,
        arms.isSorted covers.right.right.tail⟩

theorem Block.isStatement {ls ss} : Block ls ss → k.Covers ls → ∀ s ∈ ss, s.IsStatement k
  | .nil, _ => List.forall_mem_nil _
  | .semicolon block, covers => block.isStatement covers.tail
  | .cons statement block, covers =>
      List.forall_mem_cons.2 ⟨statement.isStatement covers.left, block.isStatement covers.right⟩

end

theorem Program.isBlock {ls tree} (h : Program ls tree) (covers : k.Covers ls) : tree.IsBlock k := by
  obtain ⟨statements, rfl, block⟩ := h
  exact .block (block.isStatement covers)

end Phrase

theorem isBlock_of_readProgram {k : Vocabulary} (words : k.HasStrings) {text : List Char}
    {offset : Nat} {program : Node} (read : (readProgram text offset).program = .ok program) :
    program.IsBlock k :=
  (phrase_of_readProgram read).isBlock (words.covers _)

end Abacus
