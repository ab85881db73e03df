import Abacus.Grammar.Rule
import Abacus.Number.Numeral
import Abacus.Tree.Basic

/-!
# Expressions

    expression     := multiplication (('+' | '-') multiplication)*
    multiplication := value (('*' | '/') value)*
    value          := call | '(' expression ')' | FLOAT | INT | IDENT
    call           := IDENT '(' (expression (',' expression)*)? ')'

Operators of one level group to the left, and each becomes a call of its symbol. Brackets nest only so
deep: every bracket and every call uses up one level.
-/

namespace Abacus

/-- The largest integer. -/
def maxInt : Int := 2147483647

/-- The smallest integer. -/
def minInt : Int := -2147483648

/-- An integer of thirty-two bits. -/
def fitsInt32 (n : Int) : Bool := minInt ≤ n && n ≤ maxInt

namespace Source

variable (src : Source)

/-- The operators of a chain and their right operands, after the left operand. -/
def chainTail (symbols : List String) (operand : Rule false Node) (left : Node) (ts : List Token)
    (memo : Memo) : Attempt Node (ts.length + true.toNat) × Memo :=
  let (token, memo) := src.look ts memo
  match ts, token.lexeme with
  | first :: rest, .operator symbol =>
    if symbol ∈ symbols then
      match src.orFail operand (.operand symbol) rest memo with
      | (.matched right rest' shorter, memo) =>
        have : rest'.length < rest.length := shorter
        let (attempt, memo) := chainTail symbols operand (.call (.str symbol) [left, right]) rest' memo
        (attempt.widen (by simp only [List.length_cons, Bool.toNat_true]; omega), memo)
      | (.missed, memo) => (.missed, memo)
      | (.failed fault, memo) => (.failed fault, memo)
    else
      (.matched left (first :: rest) (Nat.lt_succ_self _), memo)
  | ts, _ => (.matched left ts (Nat.lt_succ_self _), memo)
termination_by ts.length
decreasing_by simp only [List.length_cons]; omega

/-- Operands with operators of one level between them, grouped to the left. -/
def chain (symbols : List String) (operand : Rule false Node) : Rule false Node :=
  operand.bind fun left => src.chainTail symbols operand left

/-- The literal or the name that a lexeme stands for, at `offset`. -/
def literalOf (offset : Nat) : Lexeme → Option (Except ParseFault Node)
  | .float numeral => (Numeral.readFloat? numeral).map fun x => .ok (.float x)
  | .int digits =>
    if digitLimit < digits.length then
      some (.error (.numeralTooLong digits.length))
    else
      let value : Int := Numeral.natOfDigits digits.toList
      if fitsInt32 value then some (.ok (.int value))
      else some (.error (.rejected (.literalRange digits) offset))
  | .identifier name => some (.ok (.reference (.str name)))
  | _ => none

/-- A literal or a name. -/
def literal : Rule false Node := fun ts memo =>
  match src.take (literalOf (src.here ts)) ts memo with
  | (.matched (.ok node) rest shorter, memo) => (.matched node rest shorter, memo)
  | (.matched (.error fault) _ _, memo) => (.failed fault, memo)
  | (.missed, memo) => (.missed, memo)
  | (.failed fault, memo) => (.failed fault, memo)

/-- An expression between brackets. -/
def parenthesised (expression : Rule false Node) : Rule false Node :=
  (src.operator "(").bind fun _ =>
    expression.bind fun value =>
      (src.expect ")" "to close parenthesis").map fun _ => value

/-- The arguments of a call, after the opening bracket. -/
def arguments (expression : Rule false Node) (function : String) : Rule false (List Node) :=
  ((src.operator ")").map fun _ => []).orElse
    (src.items expression (.argument function) (.argumentEnd function))

/-- A call of a function by its name. -/
def call (expression : Rule false Node) : Rule false Node :=
  src.identifier.bind fun name =>
    (src.operator "(").bind fun _ =>
      (src.arguments expression name).map fun arguments => .call (.str name) arguments

/-- What an operator stands between. -/
def value (expression : Rule false Node) : Rule false Node :=
  (src.call expression).orElse ((src.parenthesised expression).orElse src.literal)

/-- An expression whose brackets nest no deeper than `levels`. -/
def expression : Nat → Rule false Node
  | 0 => Rule.fail .nestedTooDeeply
  | levels + 1 => src.chain ["+", "-"] (src.chain ["*", "/"] (src.value (expression levels)))

end Source

end Abacus
