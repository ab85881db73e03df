import Abacus.Grammar.Fault
import Abacus.Grammar.Memo

/-!
# Rules

A rule looks at a list of tokens. It matches the first few of them and gives a value and the rest; or
it misses, and the next alternative is tried on the same list; or it fails, and the text is no
program.

The type of a rule says how much it takes. A rule of grade `false` takes at least one token when it
matches; one of grade `true` may take none. The rest carries the proof, so whatever repeats a rule of
grade `false` ends.
-/

namespace Abacus

/-- What comes of trying a rule. The rest is shorter than `bound`. -/
inductive Attempt (α : Type) (bound : Nat) where
  | matched (value : α) (rest : List Token) (shorter : rest.length < bound)
  | missed
  | failed (fault : ParseFault)

namespace Attempt

variable {α β : Type} {m n : Nat}

def map (f : α → β) : Attempt α n → Attempt β n
  | matched value rest shorter => matched (f value) rest shorter
  | missed => missed
  | failed fault => failed fault

/-- The same outcome under a larger bound. -/
def widen (h : m ≤ n) : Attempt α m → Attempt α n
  | matched value rest shorter => matched value rest (Nat.lt_of_lt_of_le shorter h)
  | missed => missed
  | failed fault => failed fault

end Attempt

/-- A rule of the grammar. -/
abbrev Rule (grade : Bool) (α : Type) :=
  (ts : List Token) → Memo → Attempt α (ts.length + grade.toNat) × Memo

namespace Rule

variable {α β : Type} {g h : Bool}

def map (f : α → β) (p : Rule g α) : Rule g β := fun ts memo =>
  let (attempt, memo) := p ts memo
  (attempt.map f, memo)

theorem bind_bound {l m n : Nat} (h₁ : m < l + g.toNat) (h₂ : n < m + h.toNat) :
    n < l + (g && h).toNat := by
  cases g <;> cases h <;> simp_all <;> omega

/-- One rule and then another. If the second misses, the two together do. -/
def bind (p : Rule g α) (f : α → Rule h β) : Rule (g && h) β := fun ts memo =>
  match p ts memo with
  | (.matched a rest shorter, memo) =>
    match f a rest memo with
    | (.matched b rest' shorter', memo) => (.matched b rest' (bind_bound shorter shorter'), memo)
    | (.missed, memo) => (.missed, memo)
    | (.failed fault, memo) => (.failed fault, memo)
  | (.missed, memo) => (.missed, memo)
  | (.failed fault, memo) => (.failed fault, memo)

/-- The second rule, where the first one misses. -/
def orElse (p q : Rule g α) : Rule g α := fun ts memo =>
  match p ts memo with
  | (.missed, memo) => q ts memo
  | (outcome, memo) => (outcome, memo)

/-- The rule that fails. -/
def fail (fault : ParseFault) : Rule g α := fun _ memo =>
  (.failed fault, memo)

end Rule

/-- Where the parser looks: a way of looking, and the token at the end of the input. -/
structure Source where
  peek : Peek
  final : Token

namespace Source

variable {α : Type} (src : Source)

/-- The offset at which the parser stands. -/
def here (ts : List Token) : Nat :=
  (ts.headD src.final).origin

/-- The token ahead. -/
def look (ts : List Token) (memo : Memo) : Token × Memo :=
  src.peek (ts.headD src.final) memo

/-- Takes one token, if `f` has a value for it. -/
def take (f : Lexeme → Option α) : Rule false α := fun ts memo =>
  let (token, memo) := src.look ts memo
  match ts, f token.lexeme with
  | _ :: rest, some value => (.matched value rest (Nat.lt_succ_self _), memo)
  | _, _ => (.missed, memo)

/-- Takes one given word. -/
def eat (lexeme : Lexeme) : Rule false Unit :=
  src.take fun found => if found = lexeme then some () else none

def keyword (word : String) : Rule false Unit := src.eat (.keyword word)

def operator (symbol : String) : Rule false Unit := src.eat (.operator symbol)

def identifier : Rule false String :=
  src.take fun found =>
    match found with
    | .identifier name => some name
    | _ => none

/-- Where the rule misses, the text is no program. -/
def orFail {g : Bool} (p : Rule g α) (cause : Cause) : Rule g α := fun ts memo =>
  match p ts memo with
  | (.missed, memo) => (.failed (.rejected cause (src.here ts)), memo)
  | (outcome, memo) => (outcome, memo)

/-- Takes an operator that has to be there. -/
def expect (symbol context : String) : Rule false Unit := fun ts memo =>
  match src.operator symbol ts memo with
  | (.missed, memo) =>
    let (token, memo) := src.look ts memo
    (.failed (.rejected (.operator symbol context token.lexeme) (src.here ts)), memo)
  | (outcome, memo) => (outcome, memo)

/-- One or more items with commas between them, up to the closing bracket. -/
def items (item : Rule false α) (noItem noEnd : Cause) (ts : List Token) (memo : Memo) :
    Attempt (List α) (ts.length + false.toNat) × Memo :=
  match src.orFail item noItem ts memo with
  | (.matched first rest shorter, memo) =>
    match src.operator "," rest memo with
    | (.matched _ rest' shorter', memo) =>
      have : rest'.length < ts.length := Nat.lt_trans shorter' shorter
      let (attempt, memo) := items item noItem noEnd rest' memo
      ((attempt.map (first :: ·)).widen (Nat.le_of_lt this), memo)
    | (_, memo) =>
      match src.orFail (src.operator ")") noEnd rest memo with
      | (.matched _ rest' shorter', memo) => (.matched [first] rest' (Nat.lt_trans shorter' shorter), memo)
      | (.missed, memo) => (.missed, memo)
      | (.failed fault, memo) => (.failed fault, memo)
  | (.missed, memo) => (.missed, memo)
  | (.failed fault, memo) => (.failed fault, memo)
termination_by ts.length

end Source

end Abacus
