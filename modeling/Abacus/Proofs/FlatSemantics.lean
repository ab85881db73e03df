import Abacus.Eval.Interpreter

/-!
# A semantics without scopes

What programs mean, told with one map from names to values instead of a chain of scopes. A variable is
what the map has for it; an assignment or a declaration changes the map; branches and loops go on with
the map they find. A call looks up the function, evaluates the arguments from left to right and runs the
body on a copy of the map in which the parameters have been set. The copy is thrown away afterwards.

The relations say how a run ends (with a value or a fault), what it has printed by then, line after
line, and with which map it leaves off. They know of no limits: a run that goes on forever is related to
nothing.
-/

namespace Abacus

namespace Flat

/-- The values of all variables. -/
abbrev Env := Name → Option Value

namespace Env

def set (env : Env) (name : Name) (value : Value) : Env := fun other =>
  if other.sameKey name then some value else env other

/-- Sets one variable after the other, so of two values for a name the last one stays. -/
def overlay (env : Env) : List (Name × Value) → Env
  | [] => env
  | (name, value) :: bindings => (env.set name value).overlay bindings

end Env

/-- Functions and built-in operations can be called. -/
def callable : Value → Bool
  | .builtin _ => true
  | .function _ _ _ => true
  | _ => false

/-- The value of a body: what it returns, if it returns anything. -/
def bodyValue (ending : Except EvalFault (Option Value)) : Except EvalFault Value :=
  ending.map fun returned => returned.getD .void

mutual

/-- The value of an expression, or why it has none. -/
inductive Evaluates : Env → Node → Except EvalFault Value → List Text → Prop
  | int {env n} : Evaluates env (.int n) (.ok (.int n)) []
  | float {env x} : Evaluates env (.float x) (.ok (.float x)) []
  | bool {env} {b : Bool} : Evaluates env (.bool b) (.ok (.int b.toInt)) []
  | reference {env name v} (bound : env name = some v) : Evaluates env (.reference name) (.ok v) []
  | unbound {env name} (free : env name = none) :
      Evaluates env (.reference name) (.error (.undefined name)) []
  | noCallee {env name es} (free : env name = none) :
      Evaluates env (.call name es) (.error (.undefined name)) []
  | argumentFault {env name es v f lines} (callee : env name = some v)
      (arguments : EvaluatesAll env es (.error f) lines) :
      Evaluates env (.call name es) (.error f) lines
  | notCallable {env name es v vs lines} (callee : env name = some v) (other : callable v = false)
      (arguments : EvaluatesAll env es (.ok vs) lines) :
      Evaluates env (.call name es) (.error (.notCallable name)) lines
  | native {env name es op vs lines v text} (callee : env name = some (.builtin op))
      (arguments : EvaluatesAll env es (.ok vs) lines) (computed : op.call vs = .ok (v, text)) :
      Evaluates env (.call name es) (.ok v) (lines ++ text.toList)
  | nativeFault {env name es op vs lines f} (callee : env name = some (.builtin op))
      (arguments : EvaluatesAll env es (.ok vs) lines) (failed : op.call vs = .error f) :
      Evaluates env (.call name es) (.error (.operand f)) lines
  | wrongCount {env name es function ps b vs lines}
      (callee : env name = some (.function function ps b))
      (arguments : EvaluatesAll env es (.ok vs) lines) (count : vs.length ≠ ps.length) :
      Evaluates env (.call name es) (.error (.argumentCount function ps.length vs.length)) lines
  | call {env name es function ps b vs lines r lines' env'}
      (callee : env name = some (.function function ps b))
      (arguments : EvaluatesAll env es (.ok vs) lines) (count : vs.length = ps.length)
      (body : ExecutesBlock (env.overlay (ps.zip vs)) b r lines' env') :
      Evaluates env (.call name es) (bodyValue r) (lines ++ lines')

/-- The values of expressions, from left to right. -/
inductive EvaluatesAll : Env → List Node → Except EvalFault (List Value) → List Text → Prop
  | nil {env} : EvaluatesAll env [] (.ok []) []
  | fault {env e es f lines} (first : Evaluates env e (.error f) lines) :
      EvaluatesAll env (e :: es) (.error f) lines
  | cons {env e es v r lines lines'} (first : Evaluates env e (.ok v) lines)
      (rest : EvaluatesAll env es r lines') :
      EvaluatesAll env (e :: es) (r.map (v :: ·)) (lines ++ lines')

/-- A statement gives a value if it returns. -/
inductive Executes : Env → Node → Except EvalFault (Option Value) → List Text → Env → Prop
  | assignment {env name e v lines} (value : Evaluates env e (.ok v) lines) :
      Executes env (.assignment name e) (.ok none) lines (env.set name v)
  | assignmentFault {env name e f lines} (value : Evaluates env e (.error f) lines) :
      Executes env (.assignment name e) (.error f) lines env
  | expression {env e r lines} (value : Evaluates env e r lines) :
      Executes env (.expression e) (r.map fun _ => none) lines env
  | returns {env e r lines} (value : Evaluates env e r lines) :
      Executes env (.returns e) (r.map some) lines env
  | function {env name ps b} :
      Executes env (.function name ps b) (.ok none) [] (env.set name (.function name ps b))
  | branch {env as r lines env'} (arms : ExecutesArms env as r lines env') :
      Executes env (.branch as) r lines env'
  | loop {env c b r lines env'} (rounds : ExecutesLoop env c b r lines env') :
      Executes env (.loop c b) r lines env'
  | empty {env} : Executes env .empty (.ok none) [] env

/-- The first arm whose condition is true. -/
inductive ExecutesArms :
    Env → List (Node × Node) → Except EvalFault (Option Value) → List Text → Env → Prop
  | nil {env} : ExecutesArms env [] (.ok none) [] env
  | fault {env c b arms f lines} (condition : Evaluates env c (.error f) lines) :
      ExecutesArms env ((c, b) :: arms) (.error f) lines env
  | taken {env c b arms v lines r lines' env'} (condition : Evaluates env c (.ok v) lines)
      (holds : v.isTrue = true) (body : ExecutesBlock env b r lines' env') :
      ExecutesArms env ((c, b) :: arms) r (lines ++ lines') env'
  | skipped {env c b arms v lines r lines' env'} (condition : Evaluates env c (.ok v) lines)
      (fails : v.isTrue = false) (rest : ExecutesArms env arms r lines' env') :
      ExecutesArms env ((c, b) :: arms) r (lines ++ lines') env'

/-- Rounds of a loop, as long as the condition is true and the body does not return. -/
inductive ExecutesLoop : Env → Node → Node → Except EvalFault (Option Value) → List Text → Env → Prop
  | fault {env c b f lines} (condition : Evaluates env c (.error f) lines) :
      ExecutesLoop env c b (.error f) lines env
  | done {env c b v lines} (condition : Evaluates env c (.ok v) lines) (fails : v.isTrue = false) :
      ExecutesLoop env c b (.ok none) lines env
  | stopped {env c b v lines r lines' env'} (condition : Evaluates env c (.ok v) lines)
      (holds : v.isTrue = true) (body : ExecutesBlock env b r lines' env') (stop : r ≠ .ok none) :
      ExecutesLoop env c b r (lines ++ lines') env'
  | next {env c b v lines lines' env' r lines'' env''} (condition : Evaluates env c (.ok v) lines)
      (holds : v.isTrue = true) (body : ExecutesBlock env b (.ok none) lines' env')
      (rest : ExecutesLoop env' c b r lines'' env'') :
      ExecutesLoop env c b r (lines ++ (lines' ++ lines'')) env''

inductive ExecutesBlock : Env → Node → Except EvalFault (Option Value) → List Text → Env → Prop
  | block {env ss r lines env'} (statements : ExecutesAll env ss r lines env') :
      ExecutesBlock env (.block ss) r lines env'

/-- Statements one after the other, until one returns. -/
inductive ExecutesAll : Env → List Node → Except EvalFault (Option Value) → List Text → Env → Prop
  | nil {env} : ExecutesAll env [] (.ok none) [] env
  | stopped {env s ss r lines env'} (first : Executes env s r lines env') (stop : r ≠ .ok none) :
      ExecutesAll env (s :: ss) r lines env'
  | next {env s ss lines env' r lines' env''} (first : Executes env s (.ok none) lines env')
      (rest : ExecutesAll env' ss r lines' env'') :
      ExecutesAll env (s :: ss) r (lines ++ lines') env''

end

/-- A whole program: how it ends, what it prints, and the map it leaves. -/
def Runs (env : Env) (program : Node) (r : Except EvalFault Value) (lines : List Text) (env' : Env) :
    Prop :=
  ∃ ending, ExecutesBlock env program ending lines env' ∧ r = bodyValue ending

end Flat

end Abacus
