import Abacus.Proofs.Upholds

/-!
# Two runs side by side

Nothing that a run does depends on its trace, but telling a line and declaring a function. So two machines
that are alike but for their traces do the same things. This file says so once for everything the
evaluator is made of. `Machine.Beside T` relates two such machines, with `T` between their traces;
`Eval.Together T E p q` says that `p` and `q` take machines that stand beside each other to the same
outcome and to such machines. What is left to a relation `T` is to say why the two steps that do depend on
the trace go together (`Eval.Listening`).

The run on the right may have higher limits than the one on the left. Then the left one may stop early, in
a fault that `E` excuses, and nothing more is said of the two runs. An excuse may also lie in the trace that
the run on the right leaves behind: in a line that was told there and could not be told on the left.
-/

namespace Abacus

/-- The same machine but for the trace. -/
structure Machine.Beside (T : Trace → Trace → Prop) (m n : Machine) : Prop where
  store : n.store = m.store
  printed : n.printed = m.printed
  printsStrictly : n.printsStrictly = m.printsStrictly
  trace : T m.trace n.trace

theorem Machine.Beside.eq {T : Trace → Trace → Prop} {m n : Machine} (h : Beside T m n) :
    n = { m with trace := n.trace } := by
  obtain ⟨store, printed, printsStrictly, -⟩ := h
  cases n
  cases store
  cases printed
  cases printsStrictly
  rfl

namespace Eval

variable {α β : Type} {T : Trace → Trace → Prop} {E : EvalFault → Trace → Prop}

/-- The same outcome, on machines beside each other, or an excuse. -/
inductive Agree (T : Trace → Trace → Prop) (E : EvalFault → Trace → Prop) :
    Except EvalFault α × Machine → Except EvalFault α × Machine → Prop
  | same {r m n} (beside : Machine.Beside T m n) : Agree T E (r, m) (r, n)
  | excused {f m outcome} (excuse : E f outcome.2.trace) : Agree T E (.error f, m) outcome

/-- A computation after which every excuse still is one. -/
def KeepsExcuses (E : EvalFault → Trace → Prop) (q : Eval α) : Prop :=
  ∀ f, Upholds (Machine.Traced (E f)) (fun _ => True) q

/-- Two computations that agree wherever they begin beside each other. -/
structure Together (T : Trace → Trace → Prop) (E : EvalFault → Trace → Prop) (p q : Eval α) : Prop where
  agree : ∀ ⦃m n⦄, Machine.Beside T m n → Agree T E (p m) (q n)
  keeps : KeepsExcuses E q

/-- Excuses that do not speak of a trace are kept by anything. -/
theorem Together.of_agree {E : EvalFault → Prop} {p q : Eval α}
    (agree : ∀ ⦃m n⦄, Machine.Beside T m n → Agree T (fun f _ => E f) (p m) (q n)) :
    Together T (fun f _ => E f) p q :=
  ⟨agree, fun _ _ excuse => ⟨excuse, fun _ _ => trivial⟩⟩

/-! ## Steps -/

theorem together_pure (a : α) : Together T E (pure a) (pure a) where
  agree _ _ beside := .same beside
  keeps _ := upholds_pure trivial

theorem together_fail (f : EvalFault) : Together T E (fail f : Eval α) (fail f) where
  agree _ _ beside := .same beside
  keeps _ := upholds_fail f

theorem together_excused {f : EvalFault} (excuse : ∀ trace, E f trace) {q : Eval α}
    (keeps : KeepsExcuses E q) : Together T E (fail f) q where
  agree _ _ _ := .excused (excuse _)
  keeps := keeps

/-- Two runs in two parts each. If the first parts end in the same fault or in an excuse, so do the whole
runs. -/
theorem Together.bind {p q : Eval α} {f g : α → Eval β} (first : Together T E p q)
    (rest : ∀ a, Together T E (f a) (g a)) : Together T E (p >>= f) (q >>= g) := by
  refine ⟨fun m n beside => ?_, fun f => (first.keeps f).bind fun a _ => (rest a).keeps f⟩
  have agree := first.agree beside
  rcases left : p m with ⟨r, m'⟩
  rcases right : q n with ⟨r', n'⟩
  rw [left, right] at agree
  cases agree with
  | same beside' =>
    cases r with
    | error fault =>
      rw [bind_of_error left, bind_of_error right]
      exact .same beside'
    | ok a =>
      rw [bind_of_ok left, bind_of_ok right]
      exact (rest a).agree beside'
  | @excused fault =>
    next excuse =>
    rw [bind_of_error left]
    refine .excused ?_
    -- the right one may go on from here
    cases r' with
    | error fault' =>
      rw [bind_of_error right]
      exact excuse
    | ok a =>
      rw [bind_of_ok right]
      exact ((rest a).keeps fault n' excuse).1

theorem write_together (text : Option Text) : Together T E (write text) (write text) := by
  refine ⟨fun m n beside => ?_, fun f => write_traced text⟩
  unfold write putting
  dsimp only
  rw [beside.printsStrictly]
  split
  · exact .same beside
  · exact .same ⟨beside.store, congrArg (text.toList ++ ·) beside.printed, rfl, beside.trace⟩

theorem lookup_together (scope : Nat) (name : Name) :
    Together T E (lookup scope name) (lookup scope name) := by
  refine ⟨fun m n beside => ?_, fun f => lookup_traced scope name⟩
  unfold lookup
  rw [beside.store]
  split
  · split
    · exact .same beside
    · exact .same beside
  · exact .same beside

theorem assign_together (scope : Nat) (name : Name) (value : Value) :
    Together T E (assign scope name value) (assign scope name value) := by
  refine ⟨fun m n beside => ?_, fun f => assign_traced scope name value⟩
  unfold assign
  split
  · exact .same ⟨congrArg (·.set scope name value) beside.store, beside.printed, beside.printsStrictly,
      beside.trace⟩
  · exact .same beside

/-- The scope is removed on both sides, however its body ended. -/
theorem inNewScope_together {body body' : Nat → Eval α}
    (h : ∀ scope, Together T E (body scope) (body' scope)) (parent : Nat) :
    Together T E (inNewScope parent body) (inNewScope parent body') := by
  refine ⟨fun m n beside => ?_, fun f => inNewScope_traced (fun scope => (h scope).keeps f) parent⟩
  unfold inNewScope
  have inside : Machine.Beside T { m with store := (m.store.push parent).2 }
      { n with store := (m.store.push parent).2 } :=
    ⟨rfl, beside.printed, beside.printsStrictly, beside.trace⟩
  have agree := (h (m.store.push parent).1).agree inside
  dsimp only
  rw [beside.store]
  generalize body _ _ = outcome at agree ⊢
  generalize body' _ _ = outcome' at agree ⊢
  cases agree with
  | same beside' =>
    exact .same ⟨congrArg Store.pop beside'.store, beside'.printed, beside'.printsStrictly, beside'.trace⟩
  | excused excuse => exact .excused excuse

theorem native_together (op : NativeOp) (arguments : List Value) :
    Together T E (native op arguments) (native op arguments) := by
  unfold native
  split
  · exact (write_together _).bind fun _ => together_pure _
  · exact together_fail _

/-! ## What the evaluator is made of -/

/-- What a relation between traces has to say of the steps that depend on them. A line can be told on both
sides, and telling one undoes no excuse. Where a declaration is told only on the left, parameters that
cannot be told are an excuse. -/
structure Listening (T : Trace → Trace → Prop) (E : EvalFault → Trace → Prop) : Prop where
  told : ∀ line ⦃m n⦄, Machine.Beside T m n → Agree T E (tell line m) (tell line n)
  keeps : ∀ {f} trace line, E f trace → E f (trace.tell line)
  reach : ∀ {t u} (line : TraceLine), T t u → line.threshold ≤ u.level → line.threshold ≤ t.level
  check : ∀ {t u} (line : TraceLine), T t u → line.threshold ≤ t.level →
    line.threshold ≤ u.level ∨ ∀ index kind trace, E (.notText index kind) trace

theorem Listening.tell (listening : Listening T E) (line : TraceLine) :
    Together T E (tell line) (tell line) :=
  ⟨listening.told line, fun _ => tell_traced listening.keeps line⟩

section Parts

variable {evaluate evaluate' : Node → Eval Value} {execute execute' : Node → Eval (Option Value)}

theorem evaluateAll_together (he : ∀ node, Together T E (evaluate node) (evaluate' node))
    (nodes : List Node) : Together T E (evaluateAll evaluate nodes) (evaluateAll evaluate' nodes) := by
  induction nodes with
  | nil => exact together_pure _
  | cons node nodes ih => exact (he node).bind fun value => ih.bind fun values => together_pure _

theorem unlessReturned_together {next next' : Eval (Option Value)} (h : Together T E next next')
    (returned : Option Value) :
    Together T E (unlessReturned next returned) (unlessReturned next' returned) := by
  cases returned with
  | none => exact h
  | some value => exact together_pure _

theorem runStatements_together (hx : ∀ node, Together T E (execute node) (execute' node))
    (nodes : List Node) : Together T E (runStatements execute nodes) (runStatements execute' nodes) := by
  induction nodes with
  | nil => exact together_pure _
  | cons node nodes ih =>
    rw [runStatements_cons, runStatements_cons]
    exact (hx node).bind (unlessReturned_together ih)

theorem runBlock_together (hx : ∀ node, Together T E (execute node) (execute' node)) (node : Node) :
    Together T E (runBlock execute node) (runBlock execute' node) := by
  cases node with
  | block statements => exact runStatements_together hx statements
  | _ => exact together_fail _

theorem runArms_together (listening : Listening T E)
    (he : ∀ node, Together T E (evaluate node) (evaluate' node))
    (hx : ∀ node, Together T E (execute node) (execute' node)) (arms : List (Node × Node)) :
    Together T E (runArms evaluate execute arms) (runArms evaluate' execute' arms) := by
  induction arms with
  | nil => exact together_pure _
  | cons arm arms ih =>
    refine (he arm.1).bind fun value => (listening.tell _).bind fun _ => ?_
    split
    · exact runBlock_together hx arm.2
    · exact ih

/-- A loop may be given more rounds if running out of them is excused. -/
theorem runLoop_together (listening : Listening T E) {condition condition' : Eval Value}
    {body body' : Eval (Option Value)} (hc : Together T E condition condition')
    (hb : Together T E body body') {rounds rounds' : Nat} (le : rounds ≤ rounds')
    (more : rounds < rounds' → ∀ trace, E .unfinished trace) :
    Together T E (runLoop condition body rounds) (runLoop condition' body' rounds') := by
  induction rounds generalizing rounds' with
  | zero =>
    cases rounds' with
    | zero => exact together_fail _
    | succ rounds' =>
      have keeps : KeepsExcuses E (runLoop condition' body' (rounds' + 1)) := by
        intro f
        have body := (hb.keeps f).imp (R := Gives fun _ => True) fun _ _ _ _ => trivial
        exact (runLoop_upholds (tell_traced listening.keeps) (hc.keeps f) body _).imp fun _ _ => trivial
      exact together_excused (more (Nat.succ_pos rounds')) keeps
  | succ rounds ih =>
    cases rounds' with
    | zero => exact absurd le (Nat.not_succ_le_zero rounds)
    | succ rounds' =>
      have rest := ih (Nat.le_of_succ_le_succ le) fun lt => more (Nat.succ_lt_succ lt)
      rw [runLoop_succ, runLoop_succ]
      refine hc.bind fun value => (listening.tell _).bind fun _ => ?_
      split
      · exact hb.bind (unlessReturned_together rest)
      · exact together_pure _

theorem bindAll_together (scope : Nat) (bindings : List (Name × Value)) :
    Together T E (bindAll scope bindings) (bindAll scope bindings) := by
  induction bindings with
  | nil => exact together_pure _
  | cons binding bindings ih => exact (assign_together scope _ _).bind fun _ => ih

theorem checkKeys_together (names : List Name) : Together T E (checkKeys names) (checkKeys names) := by
  induction names with
  | nil => exact together_pure _
  | cons name names ih =>
    unfold checkKeys
    split
    · exact ih
    · exact together_fail _

theorem body_together (hx : ∀ node, Together T E (execute node) (execute' node)) (scope : Nat)
    (bindings : List (Name × Value)) (body : Node) :
    Together T E
      (do
        bindAll scope bindings
        let returned ← runBlock execute body
        return returned.getD .void : Eval Value)
      (do
        bindAll scope bindings
        let returned ← runBlock execute' body
        return returned.getD .void : Eval Value) :=
  (bindAll_together scope bindings).bind fun _ => (runBlock_together hx body).bind fun _ => together_pure _

end Parts

theorem callFunction_together {execute execute' : Node → Nat → Eval (Option Value)}
    (hx : ∀ node scope, Together T E (execute node scope) (execute' node scope)) (name : Name)
    (params : List Name) (body : Node) (arguments : List Value) (caller : Nat) :
    Together T E (callFunction execute name params body arguments caller)
      (callFunction execute' name params body arguments caller) := by
  unfold callFunction
  split
  · refine (checkKeys_together params).bind fun _ => inNewScope_together (fun scope => ?_) caller
    exact body_together (fun node => hx node scope) scope _ body
  · exact together_fail _

/-- Looking at parameters does nothing to the machine. -/
theorem checkTexts_cases (index : Nat) (names : List Name) :
    checkTexts index names = pure () ∨ ∃ i kind, checkTexts index names = fail (.notText i kind) := by
  induction names generalizing index with
  | nil => exact .inl rfl
  | cons name names ih =>
    cases name with
    | str s => exact ih (index + 1)
    | _ => exact .inr ⟨index, _, rfl⟩

/-- A declaration tells a line and binds a name; only the telling can differ. -/
theorem declare_together (listening : Listening T E) (scope : Nat) (name : Name) (params : List Name)
    (body : Node) : Together T E (declare scope name params body) (declare scope name params body) := by
  have keeps (f : EvalFault) := announce_upholds (tell_traced (C := E f) listening.keeps) name params
  refine (assign_together scope name _).bind fun _ => ⟨fun m n beside => ?_, keeps⟩
  have told := listening.told (.define name params) beside
  have reach := listening.reach (.define name params) beside.trace
  have check := listening.check (.define name params) beside.trace
  rw [bind_of_ok (p := tells _) rfl, bind_of_ok (p := tells _) rfl]
  by_cases left : (TraceLine.define name params).threshold ≤ m.trace.level
  · rw [decide_eq_true left]
    rcases checkTexts_cases 0 params with texts | ⟨index, kind, odd⟩
    · rw [texts]
      cases decide ((TraceLine.define name params).threshold ≤ n.trace.level) <;> exact told
    · rw [odd]
      rcases check left with right | excuse
      · rw [decide_eq_true right]
        exact .same beside
      · exact .excused (excuse index kind _)
  · rw [decide_eq_false left, decide_eq_false (mt reach left)]
    exact told

section Levels

variable (listening : Listening T E) {rounds rounds' levels levels' : Nat}
  (he : ∀ node scope,
    Together T E (evaluate rounds levels node scope) (evaluate rounds' levels' node scope))
  (hx : ∀ node scope,
    Together T E (execute rounds levels node scope) (execute rounds' levels' node scope))
include listening he hx

/-- One level of an expression, whose parts run together one level below. -/
theorem evaluate_succ_together (node : Node) (scope : Nat) :
    Together T E (evaluate rounds (levels + 1) node scope)
      (evaluate rounds' (levels' + 1) node scope) := by
  cases node with
  | int n =>
    rw [evaluate, evaluate]
    exact together_pure _
  | float x =>
    rw [evaluate, evaluate]
    exact together_pure _
  | bool b =>
    rw [evaluate, evaluate]
    exact together_pure _
  | reference name =>
    rw [evaluate, evaluate]
    exact (lookup_together scope name).bind fun value => (listening.tell _).bind fun _ =>
      together_pure value
  | call callee arguments =>
    rw [evaluate, evaluate]
    refine (lookup_together scope callee).bind fun function => (listening.tell _).bind fun _ => ?_
    refine (evaluateAll_together (fun node => he node scope) arguments).bind fun values => ?_
    cases function with
    | builtin op => exact native_together op values
    | function name params body => exact callFunction_together hx name params body values scope
    | _ => exact together_fail _
  | _ =>
    unfold evaluate
    exact together_fail _

/-- One level of a statement. Only a loop depends on the rounds. -/
theorem execute_succ_together (le : rounds ≤ rounds')
    (more : rounds < rounds' → ∀ trace, E .unfinished trace) (node : Node) (scope : Nat) :
    Together T E (execute rounds (levels + 1) node scope)
      (execute rounds' (levels' + 1) node scope) := by
  cases node with
  | assignment target e =>
    rw [execute, execute]
    exact (he e scope).bind fun value => (assign_together scope target value).bind fun _ =>
      (listening.tell _).bind fun _ => together_pure none
  | expression e =>
    rw [execute, execute]
    exact (he e scope).bind fun _ => together_pure none
  | returns e =>
    rw [execute, execute]
    exact (he e scope).bind fun _ => together_pure _
  | function name params body =>
    rw [execute, execute]
    exact (declare_together listening scope name params body).bind fun _ => together_pure none
  | branch arms =>
    rw [execute, execute]
    exact runArms_together listening (fun node => he node scope) (fun node => hx node scope) arms
  | loop condition body =>
    rw [execute, execute]
    exact runLoop_together listening (he condition scope)
      (runBlock_together (fun node => hx node scope) body) le more
  | empty =>
    rw [execute, execute]
    exact together_pure none
  | _ =>
    unfold execute
    exact together_fail _

end Levels

/-- The induction is on the smaller number of levels. -/
theorem evaluate_execute_together (listening : Listening T E) {rounds rounds' : Nat}
    (le : rounds ≤ rounds') (more : rounds < rounds' → ∀ trace, E .unfinished trace) {levels levels' : Nat}
    (deep : levels ≤ levels') (deeper : levels < levels' → ∀ trace, E .tooDeep trace) :
    (∀ node scope,
      Together T E (evaluate rounds levels node scope) (evaluate rounds' levels' node scope)) ∧
    ∀ node scope,
      Together T E (execute rounds levels node scope) (execute rounds' levels' node scope) := by
  induction levels generalizing levels' with
  | zero =>
    cases levels' with
    | zero =>
      constructor <;> intro node scope
      · rw [evaluate, evaluate]
        exact together_fail _
      · rw [execute, execute]
        exact together_fail _
    | succ levels' =>
      have excuse := deeper (Nat.succ_pos levels')
      have keeps (f : EvalFault) :=
        evaluate_execute_traced (C := E f) listening.keeps rounds' (levels' + 1)
      constructor <;> intro node scope
      · rw [evaluate]
        exact together_excused excuse fun f => (keeps f).1 node scope
      · rw [execute]
        exact together_excused excuse fun f => ((keeps f).2 node scope).imp fun _ _ => trivial
  | succ levels ih =>
    cases levels' with
    | zero => exact absurd deep (Nat.not_succ_le_zero levels)
    | succ levels' =>
      obtain ⟨he, hx⟩ := ih (Nat.le_of_succ_le_succ deep) fun lt => deeper (Nat.succ_lt_succ lt)
      exact ⟨evaluate_succ_together listening he hx, execute_succ_together listening he hx le more⟩

end Eval

namespace Machine

open Eval

variable {T : Trace → Trace → Prop} {E : EvalFault → Trace → Prop} {limits limits' : Limits}

theorem runBlock_together (listening : Listening T E) (rounds : limits.rounds ≤ limits'.rounds)
    (more : limits.rounds < limits'.rounds → ∀ trace, E .unfinished trace)
    (levels : limits.levels ≤ limits'.levels)
    (deeper : limits.levels < limits'.levels → ∀ trace, E .tooDeep trace) (program : Node) (scope : Nat)
    (newScope : Bool) (bindings : List (Name × Value)) :
    Together T E (runBlock limits program scope newScope bindings)
      (runBlock limits' program scope newScope bindings) := by
  have hx := (evaluate_execute_together listening rounds more levels deeper).2
  have body (scope : Nat) := body_together (fun node => hx node scope) scope bindings program
  cases newScope with
  | false => exact body scope
  | true => exact inNewScope_together body scope

end Machine

end Abacus
