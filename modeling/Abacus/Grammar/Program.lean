import Abacus.Grammar.Expression

/-!
# Programs

    block      := statement*
    statement  := assignment ';' | return ';' | expression ';' | function | branch | loop | ';'
    assignment := IDENT '=' expression
    return     := 'return' expression
    function   := 'fn' IDENT '(' (IDENT (',' IDENT)*)? ')' braced
    branch     := 'if' expression braced ('elif' expression braced)* ('else' braced)?
    loop       := 'while' expression braced
    braced     := '{' block '}'

The alternatives of a statement are tried in this order. A function, a branch or a loop that has begun
must be complete. A semicolon on its own leaves nothing in the tree.
-/

namespace Abacus

namespace Source

variable (src : Source)

/-- A statement with its semicolon. -/
def terminated (p : Rule false Node) : Rule false Node :=
  p.bind fun node => (src.eat .semicolon).map fun _ => node

def assignment (expression : Rule false Node) : Rule false Node :=
  src.identifier.bind fun name =>
    (src.operator "=").bind fun _ =>
      expression.map fun value => .assignment (.str name) value

def returning (expression : Rule false Node) : Rule false Node :=
  (src.keyword "return").bind fun _ => expression.map .returns

/-- A block in braces. -/
def braced (block : Rule true (List Node)) (context : String) : Rule false Node :=
  (src.expect "\x7b" ("after " ++ context)).bind fun _ =>
    block.bind fun statements =>
      (src.expect "\x7d" ("to close " ++ context)).map fun _ => .block statements

/-- The parameters of a function, after the opening bracket. -/
def parameters (function : String) : Rule false (List String) :=
  ((src.operator ")").map fun _ => []).orElse
    (src.items src.identifier (.parameter function) (.parameterEnd function))

def function (block : Rule true (List Node)) : Rule false Node :=
  (src.keyword "fn").bind fun _ =>
    (src.orFail src.identifier .functionName).bind fun name =>
      (src.expect "(" ("after fn " ++ name)).bind fun _ =>
        (src.parameters name).bind fun params =>
          (src.braced block ("fn " ++ name ++ "(...)")).map fun body =>
            .function (.str name) (params.map fun (param : String) => .str param) body

/-- A condition and its block, after `word`. -/
def arm (expression : Rule false Node) (block : Rule true (List Node)) (word : String) :
    Rule false (Node × Node) :=
  (src.orFail expression (.condition word)).bind fun condition =>
    (src.braced block (word ++ " condition")).map fun body => (condition, body)

/-- The arms of a branch, after `word`. -/
def arms (expression : Rule false Node) (block : Rule true (List Node)) (word : String)
    (ts : List Token) (memo : Memo) : Attempt (List (Node × Node)) (ts.length + false.toNat) × Memo :=
  match src.arm expression block word ts memo with
  | (.matched first rest shorter, memo) =>
    match src.keyword "elif" rest memo with
    | (.matched _ rest' shorter', memo) =>
      have : rest'.length < ts.length := Nat.lt_trans shorter' shorter
      let (attempt, memo) := arms expression block "elif" rest' memo
      ((attempt.map (first :: ·)).widen (Nat.le_of_lt this), memo)
    | (_, memo) =>
      match src.keyword "else" rest memo with
      | (.matched _ rest' shorter', memo) =>
        have : rest'.length < ts.length := Nat.lt_trans shorter' shorter
        let (attempt, memo) := src.braced block "'else'" rest' memo
        ((attempt.map fun body => [first, (.bool true, body)]).widen (Nat.le_of_lt this), memo)
      | (_, memo) => (.matched [first] rest shorter, memo)
  | (.missed, memo) => (.missed, memo)
  | (.failed fault, memo) => (.failed fault, memo)
termination_by ts.length

def branch (expression : Rule false Node) (block : Rule true (List Node)) : Rule false Node :=
  (src.keyword "if").bind fun _ =>
    Rule.map .branch (src.arms expression block "if")

def loop (expression : Rule false Node) (block : Rule true (List Node)) : Rule false Node :=
  (src.keyword "while").bind fun _ =>
    (src.arm expression block "while").map fun (condition, body) => .loop condition body

def statement (expression : Rule false Node) (block : Rule true (List Node)) : Rule false Node :=
  (src.terminated (src.assignment expression)).orElse <|
  (src.terminated (src.returning expression)).orElse <|
  (src.terminated (expression.map .expression)).orElse <|
  (src.function block).orElse <|
  (src.branch expression block).orElse <|
  (src.loop expression block).orElse <|
  (src.eat .semicolon).map fun _ => .empty

/-- Statements, as many as there are, without the empty ones. -/
def statements (statement : Rule false Node) (ts : List Token) (memo : Memo) :
    Attempt (List Node) (ts.length + true.toNat) × Memo :=
  match statement ts memo with
  | (.matched first rest shorter, memo) =>
    have : rest.length < ts.length := shorter
    let (attempt, memo) := statements statement rest memo
    let keep (tail : List Node) : List Node :=
      match first with
      | .empty => tail
      | _ => first :: tail
    ((attempt.map keep).widen (by simp only [Bool.toNat_true]; omega), memo)
  | (.missed, memo) => (.matched [] ts (Nat.lt_succ_self _), memo)
  | (.failed fault, memo) => (.failed fault, memo)
termination_by ts.length

/-- A block whose brackets and blocks nest no deeper than `levels`. -/
def block : Nat → Rule true (List Node)
  | 0 => Rule.fail .nestedTooDeeply
  | levels + 1 =>
    statements (src.statement (src.expression (levels + 1)) (block levels))

/-- A whole program: what `block` takes, and nothing after it. -/
def programOf (block : Rule true (List Node)) (ts : List Token) (memo : Memo) :
    Except ParseFault Node × Memo :=
  match block ts memo with
  | (.matched statements rest _, memo) =>
    let (token, memo) := src.look rest memo
    if token.lexeme = .endOfInput then
      (.ok (.block statements), memo)
    else
      (.error (.rejected (.unexpected token.lexeme) token.start), memo)
  | (.missed, memo) => (.ok (.block []), memo)
  | (.failed fault, memo) => (.error fault, memo)

/-- A program whose brackets and blocks nest no deeper than `levels`. -/
def program (levels : Nat) (ts : List Token) (memo : Memo) : Except ParseFault Node × Memo :=
  src.programOf (src.block levels) ts memo

end Source

/-- How deep brackets and blocks may nest. -/
def nestingLimit : Nat := 250

/-- The program that stands in `text` from `offset` on, and the tokens that were looked at. -/
def parseWithin (levels : Nat) (peek : Peek) (text : List Char) (offset : Nat) :
    Except ParseFault Node × Memo :=
  let stream := Stream.ofText text offset
  Source.program ⟨peek, stream.final⟩ levels stream.tokens .empty

/-- The program that stands in `text` from `offset` on, and the tokens that were looked at. -/
def parse (text : List Char) (offset : Nat) : Except ParseFault Node × Memo :=
  parseWithin nestingLimit Memo.remembering text offset

end Abacus
