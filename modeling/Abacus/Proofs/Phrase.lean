import Abacus.Grammar.Program

/-!
# The grammar

The grammar as a relation between words and trees, without any order of alternatives and without
looking ahead:

    block          := statement*
    statement      := assignment ';' | return ';' | expression ';' | function | branch | loop | ';'
    assignment     := IDENT '=' expression
    return         := 'return' expression
    function       := 'fn' IDENT '(' (IDENT (',' IDENT)*)? ')' braced
    branch         := 'if' expression braced ('elif' expression braced)* ('else' braced)?
    loop           := 'while' expression braced
    braced         := '{' block '}'
    expression     := product (('+' | '-') product)*
    product        := value (('*' | '/') value)*
    value          := IDENT '(' (expression (',' expression)*)? ')' | '(' expression ')'
                    | FLOAT | INT | IDENT

Repetitions of operators are left recursive here, since they group to the left.
-/

namespace Abacus

namespace Phrase

/-- One or more phrases with commas between them. -/
inductive Separated {α : Type} (D : List Lexeme → α → Prop) : List Lexeme → List α → Prop
  | one {ls a} (item : D ls a) : Separated D ls [a]
  | more {ls a rs as} (item : D ls a) (items : Separated D rs as) :
      Separated D (ls ++ .operator "," :: rs) (a :: as)

mutual

inductive Expression : List Lexeme → Node → Prop
  | product {ls e} (product : Product ls e) : Expression ls e
  | apply {ls a symbol rs b} (left : Expression ls a) (additive : symbol ∈ ["+", "-"])
      (right : Product rs b) :
      Expression (ls ++ .operator symbol :: rs) (.call (.str symbol) [a, b])

inductive Product : List Lexeme → Node → Prop
  | value {ls e} (value : Value ls e) : Product ls e
  | apply {ls a symbol rs b} (left : Product ls a) (multiplicative : symbol ∈ ["*", "/"])
      (right : Value rs b) :
      Product (ls ++ .operator symbol :: rs) (.call (.str symbol) [a, b])

inductive Value : List Lexeme → Node → Prop
  | call {name ls es} (arguments : Arguments ls es) :
      Value (.identifier name :: .operator "(" :: (ls ++ [.operator ")"])) (.call (.str name) es)
  | bracket {ls e} (expression : Expression ls e) :
      Value (.operator "(" :: (ls ++ [.operator ")"])) e
  | float {numeral : String} {x} (reads : Numeral.readFloat? numeral = some x) :
      Value [.float numeral] (.float x)
  /-- A numeral that is short enough to be read and fits thirty-two bits. -/
  | int {digits} (short : digits.length ≤ digitLimit)
      (fits : fitsInt32 (Numeral.natOfDigits digits.toList)) :
      Value [.int digits] (.int (Numeral.natOfDigits digits.toList))
  | reference {name} : Value [.identifier name] (.reference (.str name))

inductive Arguments : List Lexeme → List Node → Prop
  | none : Arguments [] []
  | some {ls es} (items : Items ls es) : Arguments ls es

inductive Items : List Lexeme → List Node → Prop
  | one {ls e} (item : Expression ls e) : Items ls [e]
  | more {ls e rs es} (item : Expression ls e) (items : Items rs es) :
      Items (ls ++ .operator "," :: rs) (e :: es)

end

theorem items_of_separated {ls : List Lexeme} {es : List Node} (h : Separated Expression ls es) :
    Items ls es := by
  induction h with
  | one item => exact .one item
  | more item _ ih => exact .more item ih

/-- A name on its own. -/
def Identifier (ls : List Lexeme) (name : String) : Prop := ls = [.identifier name]

inductive Parameters : List Lexeme → List String → Prop
  | none : Parameters [] []
  | some {ls names} (items : Separated Identifier ls names) : Parameters ls names

mutual

inductive Statement : List Lexeme → Node → Prop
  | assignment {name ls e} (value : Expression ls e) :
      Statement (.identifier name :: .operator "=" :: (ls ++ [.semicolon]))
        (.assignment (.str name) e)
  | returns {ls e} (value : Expression ls e) :
      Statement (.keyword "return" :: (ls ++ [.semicolon])) (.returns e)
  | expression {ls e} (value : Expression ls e) : Statement (ls ++ [.semicolon]) (.expression e)
  | function {name ps params ls b} (parameters : Parameters ps params) (body : Braced ls b) :
      Statement (.keyword "fn" :: .identifier name :: .operator "(" :: (ps ++ .operator ")" :: ls))
        (.function (.str name) (params.map fun (param : String) => .str param) b)
  | branch {ls as} (arms : Arms ls as) : Statement (.keyword "if" :: ls) (.branch as)
  | loop {ls c rs b} (condition : Expression ls c) (body : Braced rs b) :
      Statement (.keyword "while" :: (ls ++ rs)) (.loop c b)

inductive Braced : List Lexeme → Node → Prop
  | block {ls ss} (block : Block ls ss) :
      Braced (.operator "\x7b" :: (ls ++ [.operator "\x7d"])) (.block ss)

/-- What follows `if` and `elif`. An `else` has the condition `true`. -/
inductive Arms : List Lexeme → List (Node × Node) → Prop
  | last {ls c rs b} (condition : Expression ls c) (body : Braced rs b) : Arms (ls ++ rs) [(c, b)]
  | otherwise {ls c rs b os o} (condition : Expression ls c) (body : Braced rs b)
      (other : Braced os o) :
      Arms (ls ++ (rs ++ .keyword "else" :: os)) [(c, b), (.bool true, o)]
  | elif {ls c rs b ms as} (condition : Expression ls c) (body : Braced rs b) (arms : Arms ms as) :
      Arms (ls ++ (rs ++ .keyword "elif" :: ms)) ((c, b) :: as)

/-- Statements in a row. A semicolon on its own leaves nothing in the tree. -/
inductive Block : List Lexeme → List Node → Prop
  | nil : Block [] []
  | semicolon {ls ss} (block : Block ls ss) : Block (.semicolon :: ls) ss
  | cons {ls s rs ss} (statement : Statement ls s) (block : Block rs ss) :
      Block (ls ++ rs) (s :: ss)

end

/-- The words of a whole program, and its tree. -/
def Program (ls : List Lexeme) (tree : Node) : Prop :=
  ∃ statements, tree = .block statements ∧ Block ls statements

theorem Statement.ne_empty {ls s} (h : Statement ls s) : s ≠ .empty := by
  rintro rfl
  cases h

/-! ## How phrases begin -/

/-- Whether a word can begin an expression. -/
def opens : Lexeme → Bool
  | .identifier _ | .float _ | .int _ => true
  | .operator symbol => symbol == "("
  | _ => false

mutual

theorem Expression.opening {ls e} : Expression ls e → ∃ l rs, ls = l :: rs ∧ opens l
  | .product product => product.opening
  | .apply left _ _ => by
    obtain ⟨l, rs, rfl, opening⟩ := left.opening
    exact ⟨l, _, rfl, opening⟩

theorem Product.opening {ls e} : Product ls e → ∃ l rs, ls = l :: rs ∧ opens l
  | .value value => value.opening
  | .apply left _ _ => by
    obtain ⟨l, rs, rfl, opening⟩ := left.opening
    exact ⟨l, _, rfl, opening⟩

theorem Value.opening {ls e} : Value ls e → ∃ l rs, ls = l :: rs ∧ opens l
  | .call _ => ⟨_, _, rfl, rfl⟩
  | .bracket _ => ⟨_, _, rfl, rfl⟩
  | .float _ => ⟨_, _, rfl, rfl⟩
  | .int _ _ => ⟨_, _, rfl, rfl⟩
  | .reference => ⟨_, _, rfl, rfl⟩

end

theorem Items.opening {ls es} (h : Items ls es) : ∃ l rs, ls = l :: rs ∧ opens l := by
  cases h with
  | one item => exact item.opening
  | more item _ =>
    obtain ⟨l, rs, rfl, opening⟩ := item.opening
    exact ⟨l, _, rfl, opening⟩

theorem Separated.starts {ls names} (h : Separated Identifier ls names) :
    ∃ name rs, ls = .identifier name :: rs := by
  cases h with
  | one item => exact ⟨_, _, item⟩
  | more item _ => exact ⟨_, _, by rw [item]; rfl⟩

/-- Whether a word can begin a statement. -/
def begins : Lexeme → Bool
  | .keyword word => word == "return" || word == "fn" || word == "if" || word == "while"
  | .semicolon => true
  | l => opens l

theorem Statement.begins {ls s} (h : Statement ls s) : ∃ l rs, ls = l :: rs ∧ begins l := by
  cases h with
  | expression value =>
    obtain ⟨l, rs, rfl, opening⟩ := value.opening
    refine ⟨l, _, rfl, ?_⟩
    cases l <;> first | exact opening | cases opening
  | _ => exact ⟨_, _, rfl, rfl⟩

/-- A block that is not empty begins with a statement or a semicolon. -/
theorem Block.begins {l ls ss} (h : Block (l :: ls) ss) : Phrase.begins l := by
  generalize eq : l :: ls = words at h
  cases h with
  | nil => cases eq
  | semicolon _ =>
    cases eq
    rfl
  | cons statement _ =>
    obtain ⟨l', rs, rfl, begins⟩ := statement.begins
    cases eq
    exact begins

theorem no_equals_joined {ls rs : List Lexeme} {symbol : String} (left : Lexeme.operator "=" ∉ ls)
    (differs : symbol ≠ "=") (right : Lexeme.operator "=" ∉ rs) :
    Lexeme.operator "=" ∉ ls ++ .operator symbol :: rs := by
  simp [left, right, differs.symm]

mutual

/-- No expression holds an equals sign, so no expression can be taken for an assignment. -/
theorem Expression.no_equals {ls e} : Expression ls e → Lexeme.operator "=" ∉ ls
  | .product product => product.no_equals
  | .apply left additive right =>
      no_equals_joined left.no_equals (fun eq => by simp [eq] at additive) right.no_equals

theorem Product.no_equals {ls e} : Product ls e → Lexeme.operator "=" ∉ ls
  | .value value => value.no_equals
  | .apply left multiplicative right =>
      no_equals_joined left.no_equals (fun eq => by simp [eq] at multiplicative) right.no_equals

theorem Value.no_equals {ls e} : Value ls e → Lexeme.operator "=" ∉ ls
  | .call arguments => by simpa using arguments.no_equals
  | .bracket expression => by simpa using expression.no_equals
  | .float _ => by simp
  | .int _ _ => by simp
  | .reference => by simp

theorem Arguments.no_equals {ls es} : Arguments ls es → Lexeme.operator "=" ∉ ls
  | .none => List.not_mem_nil
  | .some items => items.no_equals

theorem Items.no_equals {ls es} : Items ls es → Lexeme.operator "=" ∉ ls
  | .one item => item.no_equals
  | .more item items => no_equals_joined item.no_equals (by decide) items.no_equals

end

end Phrase

end Abacus
