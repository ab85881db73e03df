import Abacus.Eval.Machine

/-!
# Evaluation

`evaluate` gives the value of an expression and `execute` runs a statement; a statement that returns
gives the value it returns. Both see variables from one scope. The body of a branch or a loop runs in
that scope. The body of a function runs in a new scope that hangs off the scope of the call, so it sees
the variables of its caller.

Evaluation inside evaluation goes down one level, and there are only so many levels. A loop may go on
for only so many rounds. Both bounds are faults of their own when they are reached.
-/

namespace Abacus

namespace Eval

/-- The values of expressions, from left to right. -/
def evaluateAll (evaluate : Node → Eval Value) : List Node → Eval (List Value)
  | [] => return []
  | node :: nodes => do
    let value ← evaluate node
    return value :: (← evaluateAll evaluate nodes)

/-- Runs statements until one returns. -/
def runStatements (execute : Node → Eval (Option Value)) : List Node → Eval (Option Value)
  | [], m => (.ok none, m)
  | node :: nodes, m =>
    match execute node m with
    | (.ok none, m) => runStatements execute nodes m
    | (.ok (some value), m) => (.ok (some value), m)
    | (.error fault, m) => (.error fault, m)

/-- Runs a node that has to be a block. -/
def runBlock (execute : Node → Eval (Option Value)) : Node → Eval (Option Value)
  | .block statements => runStatements execute statements
  | node => fail (.notBlock node.tag)

/-- Runs the block of the first arm whose condition is true. -/
def runArms (evaluate : Node → Eval Value) (execute : Node → Eval (Option Value)) :
    List (Node × Node) → Eval (Option Value)
  | [] => return none
  | (condition, body) :: arms => do
    let value ← evaluate condition
    tell (.ifCondition value)
    if value.isTrue then runBlock execute body else runArms evaluate execute arms

/-- Runs a body as long as a condition is true, until it returns. -/
def runLoop (condition : Eval Value) (body : Eval (Option Value)) : Nat → Eval (Option Value)
  | 0, m => (.error .unfinished, m)
  | rounds + 1, m =>
    match (condition.bind fun value => (tell (.whileCondition value)).bind fun _ => .pure value) m with
    | (.error fault, m) => (.error fault, m)
    | (.ok value, m) =>
      if value.isTrue then
        match body m with
        | (.ok none, m) => runLoop condition body rounds m
        | (.ok (some value), m) => (.ok (some value), m)
        | (.error fault, m) => (.error fault, m)
      else (.ok none, m)

/-- Sets the parameters of a function, one after the other. -/
def bindAll (scope : Nat) : List (Name × Value) → Eval Unit
  | [] => return ()
  | (name, value) :: bindings => do
    assign scope name value
    bindAll scope bindings

/-- The first name that cannot be a variable is a fault. -/
def checkKeys : List Name → Eval Unit
  | [] => return ()
  | name :: names => if name.isKey then checkKeys names else fail (.notKey name)

/-- The first parameter that is no text is a fault, where a declaration is told. -/
def checkTexts (index : Nat) : List Name → Eval Unit
  | [] => return ()
  | .str _ :: names => checkTexts (index + 1) names
  | name :: _ => fail (.notText index name.kindName)

/-- Calls a function from `caller`. -/
def callFunction (execute : Node → Nat → Eval (Option Value)) (name : Name) (params : List Name)
    (body : Node) (arguments : List Value) (caller : Nat) : Eval Value :=
  if arguments.length = params.length then do
    checkKeys params
    inNewScope caller fun scope => do
      bindAll scope (params.zip arguments)
      let returned ← runBlock (execute · scope) body
      return returned.getD .void
  else fail (.argumentCount name params.length arguments.length)

/-- Declares a function. -/
def declare (scope : Nat) (name : Name) (params : List Name) (body : Node) : Eval Unit := do
  assign scope name (.function name params body)
  if ← tells (TraceLine.define name params).threshold then
    checkTexts 0 params
  tell (.define name params)

section

variable (rounds : Nat)

mutual

/-- The value of an expression, as seen from a scope. -/
def evaluate (levels : Nat) (node : Node) (scope : Nat) : Eval Value :=
  match levels with
  | 0 => fail .tooDeep
  | levels + 1 =>
    match node with
    | .int n => return .int n
    | .float x => return .float x
    | .bool b => return .int b.toInt
    | .reference name => do
      let value ← lookup scope name
      tell (.lookup name value)
      return value
    | .call callee arguments => do
      let function ← lookup scope callee
      tell (.call callee arguments.length)
      let values ← evaluateAll (fun node => evaluate levels node scope) arguments
      match function with
      | .builtin op => native op values
      | .function name params body =>
        callFunction (fun node scope => execute levels node scope) name params body values scope
      | _ => fail (.notCallable callee)
    | node => fail (.notExpression node.tag)

/-- Runs a statement in a scope. -/
def execute (levels : Nat) (node : Node) (scope : Nat) : Eval (Option Value) :=
  match levels with
  | 0 => fail .tooDeep
  | levels + 1 =>
    match node with
    | .assignment target expression => do
      let value ← evaluate levels expression scope
      assign scope target value
      tell (.assign target value)
      return none
    | .expression expression => do
      let _ ← evaluate levels expression scope
      return none
    | .returns expression => do
      return some (← evaluate levels expression scope)
    | .function name params body => do
      declare scope name params body
      return none
    | .branch arms =>
      runArms (fun node => evaluate levels node scope) (fun node => execute levels node scope) arms
    | .loop condition body =>
      runLoop (evaluate levels condition scope)
        (runBlock (fun node => execute levels node scope) body) rounds
    | .empty => return none
    | node => fail (.notStatement node.tag)

end

end

end Eval

end Abacus
