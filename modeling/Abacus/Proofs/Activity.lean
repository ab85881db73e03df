import Mathlib.Logic.Relation
import Abacus.Eval.Interpreter
import Abacus.Grammar.Report

/-!
# The points of a run

A run is made of activities: expressions are evaluated, statements are executed, variables are set,
functions are called. An activity begins others, each on the machine that the ones before it have left
(`Activity.Begins`), and a point of a run is any activity that is begun in the course of it, with the
machine on which it is begun (`Activity.Within`). The rules of `Begins` follow the definitions of the
evaluator, one for each of its calls, and speak of the evaluator's own outcomes.

The machines on which runs begin are those that earlier runs have left (`Machine.Played`).
-/

namespace Abacus

/-- Something that the evaluator does. -/
inductive Activity where
  | run (levels : Nat) (program : Node) (scope : Nat)
  | evaluate (levels : Nat) (node : Node) (scope : Nat)
  | evaluateAll (levels : Nat) (nodes : List Node) (scope : Nat)
  | execute (levels : Nat) (node : Node) (scope : Nat)
  | runStatements (levels : Nat) (nodes : List Node) (scope : Nat)
  | runBlock (levels : Nat) (node : Node) (scope : Nat)
  | runArms (levels : Nat) (arms : List (Node × Node)) (scope : Nat)
  /-- A loop that has some rounds left. -/
  | runLoop (levels : Nat) (condition body : Node) (scope left : Nat)
  | native (op : NativeOp) (arguments : List Value)
  | callFunction (levels : Nat) (name : Name) (params : List Name) (body : Node)
      (arguments : List Value) (caller : Nat)
  | assign (scope : Nat) (name : Name) (value : Value)
  | bindAll (scope : Nat) (bindings : List (Name × Value))

/-- A computation, with other values for its results. -/
def Eval.giving {α β : Type} (p : Eval α) (f : α → β) : Eval β := fun m =>
  ((p m).1.map f, (p m).2)

namespace Activity

/-- The values that are handed to an activity. -/
def given : Activity → List Value
  | native _ arguments => arguments
  | callFunction _ _ _ _ arguments _ => arguments
  | assign _ _ value => [value]
  | bindAll _ bindings => bindings.map Prod.snd
  | _ => []

section

variable (rounds : Nat)

/-- Does the activity, and gives the values it results in. -/
def perform : Activity → Eval (List Value)
  | run levels program scope => (Machine.run ⟨levels, rounds⟩ program scope).giving fun v => [v]
  | evaluate levels node scope => (Eval.evaluate rounds levels node scope).giving fun v => [v]
  | evaluateAll levels nodes scope =>
    (Eval.evaluateAll (fun node => Eval.evaluate rounds levels node scope) nodes).giving id
  | execute levels node scope => (Eval.execute rounds levels node scope).giving Option.toList
  | runStatements levels nodes scope =>
    (Eval.runStatements (fun node => Eval.execute rounds levels node scope) nodes).giving Option.toList
  | runBlock levels node scope =>
    (Eval.runBlock (fun node => Eval.execute rounds levels node scope) node).giving Option.toList
  | runArms levels arms scope =>
    (Eval.runArms (fun node => Eval.evaluate rounds levels node scope)
      (fun node => Eval.execute rounds levels node scope) arms).giving Option.toList
  | runLoop levels condition body scope left =>
    (Eval.runLoop (Eval.evaluate rounds levels condition scope)
      (Eval.runBlock (fun node => Eval.execute rounds levels node scope) body) left).giving Option.toList
  | native op arguments => (Eval.native op arguments).giving fun v => [v]
  | callFunction levels name params body arguments caller =>
    (Eval.callFunction (fun node scope => Eval.execute rounds levels node scope) name params body
      arguments caller).giving fun v => [v]
  | assign scope name value => (Eval.assign scope name value).giving fun _ => []
  | bindAll scope bindings => (Eval.bindAll scope bindings).giving fun _ => []

/-- An activity that is begun on a machine begins another, on the machine there is by then. -/
inductive Begins : Activity × Machine → Activity × Machine → Prop
  | program {levels program scope m} :
      Begins (run levels program scope, m) (runBlock levels program scope, m)
  -- a call: its arguments, and then what it calls
  | arguments {levels callee es scope f m m₁ m₂}
      (found : Eval.lookup scope callee m = (.ok f, m₁))
      (told : Eval.tell (.call callee es.length) m₁ = (.ok (), m₂)) :
      Begins (evaluate (levels + 1) (.call callee es) scope, m) (evaluateAll levels es scope, m₂)
  | operation {levels callee es scope op vs m m₁ m₂ m₃}
      (found : Eval.lookup scope callee m = (.ok (.builtin op), m₁))
      (told : Eval.tell (.call callee es.length) m₁ = (.ok (), m₂))
      (values : Eval.evaluateAll (fun e => Eval.evaluate rounds levels e scope) es m₂ = (.ok vs, m₃)) :
      Begins (evaluate (levels + 1) (.call callee es) scope, m) (native op vs, m₃)
  | function {levels callee es scope name params body vs m m₁ m₂ m₃}
      (found : Eval.lookup scope callee m = (.ok (.function name params body), m₁))
      (told : Eval.tell (.call callee es.length) m₁ = (.ok (), m₂))
      (values : Eval.evaluateAll (fun e => Eval.evaluate rounds levels e scope) es m₂ = (.ok vs, m₃)) :
      Begins (evaluate (levels + 1) (.call callee es) scope, m)
        (callFunction levels name params body vs scope, m₃)
  | first {levels e es scope m} :
      Begins (evaluateAll levels (e :: es) scope, m) (evaluate levels e scope, m)
  | others {levels e es scope v m m₁} (value : Eval.evaluate rounds levels e scope m = (.ok v, m₁)) :
      Begins (evaluateAll levels (e :: es) scope, m) (evaluateAll levels es scope, m₁)
  -- a function: its parameters are set in a new scope, and then its body runs there
  | parameters {levels name params body vs caller m m₁} (count : vs.length = params.length)
      (keys : Eval.checkKeys params m = (.ok (), m₁)) :
      Begins (callFunction levels name params body vs caller, m)
        (bindAll (m₁.store.push caller).1 (params.zip vs),
          { m₁ with store := (m₁.store.push caller).2 })
  | body {levels name params body vs caller m m₁ m₂} (count : vs.length = params.length)
      (keys : Eval.checkKeys params m = (.ok (), m₁))
      (bound : Eval.bindAll (m₁.store.push caller).1 (params.zip vs)
        { m₁ with store := (m₁.store.push caller).2 } = (.ok (), m₂)) :
      Begins (callFunction levels name params body vs caller, m)
        (runBlock levels body (m₁.store.push caller).1, m₂)
  | parameter {scope name v bindings m} :
      Begins (bindAll scope ((name, v) :: bindings), m) (assign scope name v, m)
  | otherParameters {scope name v bindings m m₁} (set : Eval.assign scope name v m = (.ok (), m₁)) :
      Begins (bindAll scope ((name, v) :: bindings), m) (bindAll scope bindings, m₁)
  -- statements
  | assigned {levels target e scope m} :
      Begins (execute (levels + 1) (.assignment target e) scope, m) (evaluate levels e scope, m)
  | assigns {levels target e scope v m m₁}
      (value : Eval.evaluate rounds levels e scope m = (.ok v, m₁)) :
      Begins (execute (levels + 1) (.assignment target e) scope, m) (assign scope target v, m₁)
  | expression {levels e scope m} :
      Begins (execute (levels + 1) (.expression e) scope, m) (evaluate levels e scope, m)
  | returned {levels e scope m} :
      Begins (execute (levels + 1) (.returns e) scope, m) (evaluate levels e scope, m)
  | declares {levels name params body scope m} :
      Begins (execute (levels + 1) (.function name params body) scope, m)
        (assign scope name (.function name params body), m)
  | branch {levels arms scope m} :
      Begins (execute (levels + 1) (.branch arms) scope, m) (runArms levels arms scope, m)
  | loop {levels condition body scope m} :
      Begins (execute (levels + 1) (.loop condition body) scope, m)
        (runLoop levels condition body scope rounds, m)
  -- blocks
  | block {levels statements scope m} :
      Begins (runBlock levels (.block statements) scope, m) (runStatements levels statements scope, m)
  | statement {levels s ss scope m} :
      Begins (runStatements levels (s :: ss) scope, m) (execute levels s scope, m)
  | statements {levels s ss scope m m₁}
      (done : Eval.execute rounds levels s scope m = (.ok none, m₁)) :
      Begins (runStatements levels (s :: ss) scope, m) (runStatements levels ss scope, m₁)
  -- the arms of a branch
  | armCondition {levels c b arms scope m} :
      Begins (runArms levels ((c, b) :: arms) scope, m) (evaluate levels c scope, m)
  | armBody {levels c b arms scope v m m₁ m₂}
      (value : Eval.evaluate rounds levels c scope m = (.ok v, m₁))
      (told : Eval.tell (.ifCondition v) m₁ = (.ok (), m₂)) (holds : v.isTrue = true) :
      Begins (runArms levels ((c, b) :: arms) scope, m) (runBlock levels b scope, m₂)
  | otherArms {levels c b arms scope v m m₁ m₂}
      (value : Eval.evaluate rounds levels c scope m = (.ok v, m₁))
      (told : Eval.tell (.ifCondition v) m₁ = (.ok (), m₂)) (fails : v.isTrue = false) :
      Begins (runArms levels ((c, b) :: arms) scope, m) (runArms levels arms scope, m₂)
  -- the rounds of a loop
  | loopCondition {levels c b scope left m} :
      Begins (runLoop levels c b scope (left + 1), m) (evaluate levels c scope, m)
  | loopBody {levels c b scope left v m m₁ m₂}
      (value : Eval.evaluate rounds levels c scope m = (.ok v, m₁))
      (told : Eval.tell (.whileCondition v) m₁ = (.ok (), m₂)) (holds : v.isTrue = true) :
      Begins (runLoop levels c b scope (left + 1), m) (runBlock levels b scope, m₂)
  | nextRound {levels c b scope left v m m₁ m₂ m₃}
      (value : Eval.evaluate rounds levels c scope m = (.ok v, m₁))
      (told : Eval.tell (.whileCondition v) m₁ = (.ok (), m₂)) (holds : v.isTrue = true)
      (done : Eval.runBlock (fun node => Eval.execute rounds levels node scope) b m₂ = (.ok none, m₃)) :
      Begins (runLoop levels c b scope (left + 1), m) (runLoop levels c b scope left, m₃)

/-- In the course of an activity that is begun on a machine, another is begun on another machine. -/
def Within : Activity × Machine → Activity × Machine → Prop := Relation.ReflTransGen (Begins rounds)

end

end Activity

/-- A machine on which nothing has been done but to run programs that texts hold, one after the other,
each in any scope, and to make new scopes for them. The runs may have ended in any way. -/
inductive Machine.Played : Machine → Prop
  | start (level : Nat) (tracesToFile printsStrictly : Bool) :
      Played (start level tracesToFile printsStrictly)
  | child {m} (played : Played m) (parent : Nat) : Played { m with store := (m.store.push parent).2 }
  | run {m text offset program} (played : Played m)
      (read : (readProgram text offset).program = .ok program) (limits : Limits) (scope : Nat) :
      Played (run limits program scope m).2

end Abacus
