import Mathlib
import Abacus.Proofs.EvalSteps
import Abacus.Proofs.Sorts
import Abacus.Proofs.SplicedNames

/-!
# What faults of a run speak of

A run that ends in a fault shows no names but those of its program. The name of a function that is called
with the wrong number of arguments is that of its declaration, and functions that variables hold were
declared in the program (`Store.Named`). `Eval.Speaks` says so of a computation, and goes through
everything the evaluator is made of.
-/

namespace Abacus

variable {said : Text → Prop}

/-! ## Values -/

/-- A function has names that may be said. -/
def Value.Named (said : Text → Prop) : Value → Prop
  | .function name _ body => Name.Said said name ∧ body.Named said
  | _ => True

/-- All functions that variables hold have names that may be said. -/
def Store.Named (said : Text → Prop) (s : Store) : Prop :=
  ∀ (id : Nat) (scope : Scope), s.scopes[id]? = some scope → ∀ b ∈ scope.bindings, b.2.Named said

namespace Store

variable {s : Store}

theorem named_initial : Store.initial.Named said := by
  intro id scope eq b hb
  match id, eq with
  | 0, eq =>
    cases eq
    obtain ⟨op, -, rfl⟩ := List.mem_map.1 hb
    trivial
  | 1, eq =>
    cases eq
    cases hb

theorem Named.lookup? (h : s.Named said) {id : Nat} {name : Name} {v : Value}
    (found : s.lookup? id name = some v) : v.Named said := by
  fun_induction Store.lookup? s id name with
  | case1 => cases found
  | case2 id scope eq value here =>
    cases found
    obtain ⟨b, hb, rfl⟩ := Option.map_eq_some_iff.1 here
    exact h id scope eq b (List.mem_of_find?_eq_some hb)
  | case3 _ _ _ _ _ _ _ ih => exact ih found
  | case4 => cases found
  | case5 => cases found

theorem Named.set (h : s.Named said) (id : Nat) (name : Name) {v : Value} (hv : v.Named said) :
    (s.set id name v).Named said := by
  intro other scope eq b hb
  have eq' : (s.scopes.modify id fun scope => scope.put name v)[other]? = some scope := eq
  rw [Array.getElem?_modify] at eq'
  split at eq'
  · obtain ⟨old, found, rfl⟩ := Option.map_eq_some_iff.1 eq'
    rcases mem_putIn hb with rfl | hb
    · exact hv
    · exact h other old found b hb
  · exact h other scope eq' b hb

theorem Named.push (h : s.Named said) (parent : Nat) : (s.push parent).2.Named said := by
  intro id scope eq b hb
  have eq' : (s.scopes.push ⟨some parent, []⟩)[id]? = some scope := eq
  rw [Array.getElem?_push] at eq'
  split at eq'
  · cases eq'
    cases hb
  · exact h id scope eq' b hb

theorem Named.pop (h : s.Named said) : s.pop.Named said := by
  intro id scope eq b hb
  have eq' : s.scopes.pop[id]? = some scope := eq
  rw [Array.getElem?_pop] at eq'
  split at eq'
  · exact h id scope eq' b hb
  · cases eq'

end Store

/-- Operations give no functions. -/
theorem NativeOp.named_apply {op : NativeOp} {left right value : Value}
    (computed : op.apply left right = .ok value) : value.Named said := by
  unfold apply at computed
  split at computed
  · cases computed
    trivial
  · next m n =>
    cases result : op.onInts m n with
    | error fault =>
      rw [result] at computed
      cases computed
    | ok r =>
      rw [result] at computed
      have checked : op.checked r = .ok value := computed
      unfold NativeOp.checked at checked
      split at checked
      · cases checked
        trivial
      · cases checked
  · cases computed

/-- Operators give no functions, so there is no name in what they give. -/
theorem NativeOp.named_call {op : NativeOp} {arguments : List Value} {value : Value} {text : Option Text}
    (called : op.call arguments = .ok (value, text)) : value.Named said := by
  unfold call at called
  split at called
  · cases called
    trivial
  · split at called
    · next left right =>
      cases computed : op.apply left right with
      | error fault =>
        rw [computed] at called
        cases called
      | ok v =>
        rw [computed] at called
        cases called
        exact named_apply computed
    · cases called

/-! ## Faults -/

/-- The faults of a run, where names that are shown as they are may be said. -/
inductive EvalFault.Speaks (said : Text → Prop) : EvalFault → Prop
  | undefined {name} (h : Name.Said said name) : Speaks said (.undefined name)
  | operand {fault} : Speaks said (.operand fault)
  | argumentCount {name expected given} (h : Name.Said said name) :
      Speaks said (.argumentCount name expected given)
  | notCallable {name} (h : Name.Said said name) : Speaks said (.notCallable name)
  | tooDeep : Speaks said .tooDeep
  | notKey {name} : Speaks said (.notKey name)
  | notStatement (node : Node) : Speaks said (.notStatement node.tag)
  | notExpression (node : Node) : Speaks said (.notExpression node.tag)
  | notBlock (node : Node) : Speaks said (.notBlock node.tag)
  | notText {index} (name : Name) : Speaks said (.notText index name.kindName)
  | unfinished : Speaks said .unfinished
  | notWritable {run} : Speaks said (.notWritable run)

theorem Node.oneLine_tag (node : Node) : OneLine node.tag.toList := by
  unfold tag
  split <;> decide +kernel

theorem EvalFault.oneLine_notWritable (run : Text.SurrogateRun) : (notWritable run).report.OneLine := by
  simp only [report, Report.oneLine_summary, Report.name, Report.message]
  split
  all_goals
    simp only [Text.oneLine_append, Text.oneLine_ofString, String.toList_append, oneLine_append,
      oneLine_codeEscape, oneLine_nat]
    decide +kernel

/-- A fault puts its names into a sentence that is otherwise on one line. -/
theorem EvalFault.Speaks.tells {f : EvalFault} (h : f.Speaks said) : f.report.Tells said := by
  cases h with
  | undefined h =>
    refine Report.tells_display (fun t => .script "NameError" ("undefined variable " ++ t)) h
      (fun _ => .undefined) fun calm => ?_
    simp only [Report.oneLine_summary, Report.name, Report.message, Text.oneLine_append,
      Text.oneLine_ofString, calm]
    decide +kernel
  | notCallable h =>
    refine Report.tells_display
      (fun t => .script "TypeError" (t ++ " is not a function or built-in function")) h
      (fun _ => .notCallable) fun calm => ?_
    simp only [Report.oneLine_summary, Report.name, Report.message, Text.oneLine_append,
      Text.oneLine_ofString, calm]
    decide +kernel
  | @argumentCount _ expected given h =>
    refine Report.tells_display (fun t => .script "TypeError"
      (t ++ " expects " ++ toString expected ++ " arguments, got " ++ toString given)) h
      (fun _ => .argumentCount expected given) fun calm => ?_
    simp only [Report.oneLine_summary, Report.name, Report.message, Text.oneLine_append,
      Text.oneLine_ofString, calm, oneLine_nat]
    decide +kernel
  | operand => exact .inl (OperandFault.oneLine_report _)
  | notWritable => exact .inl (oneLine_notWritable _)
  | tooDeep => exact .inl (by decide +kernel)
  | unfinished => exact .inl (by decide +kernel)
  | _ =>
    refine .inl ?_
    simp only [report, Report.oneLine_summary, Report.name, Report.message, Text.oneLine_append,
      Text.oneLine_ofString, Json.oneLine_kindName, Node.oneLine_tag, oneLine_nat]
    decide +kernel

/-! ## Computations -/

namespace Eval

variable {α β : Type} {Q : α → Prop} {P : β → Prop}

/-- A value with `Q`, or a fault as it should be; and variables as they should be. -/
inductive Outcome (said : Text → Prop) (Q : α → Prop) : Except EvalFault α × Machine → Prop
  | value {a m} (holds : Q a) (named : m.store.Named said) : Outcome said Q (.ok a, m)
  | fault {f m} (speaks : f.Speaks said) (named : m.store.Named said) : Outcome said Q (.error f, m)

/-- Where the functions in the variables have names that may be said, the computation ends so. -/
def Speaks (said : Text → Prop) (Q : α → Prop) (p : Eval α) : Prop :=
  ∀ m, m.store.Named said → Outcome said Q (p m)

theorem speaks_pure {a : α} (h : Q a) : Speaks said Q (pure a : Eval α) := fun _ hm => .value h hm

theorem speaks_fail {f : EvalFault} (h : f.Speaks said) : Speaks said Q (fail f : Eval α) :=
  fun _ hm => .fault h hm

theorem Speaks.bind {p : Eval α} {f : α → Eval β} (hp : Speaks said Q p)
    (hf : ∀ a, Q a → Speaks said P (f a)) : Speaks said P (p >>= f) := by
  intro m hm
  have first := hp m hm
  show Outcome said P (Eval.bind p f m)
  unfold Eval.bind
  generalize p m = outcome at first ⊢
  cases first with
  | value holds named => exact hf _ holds _ named
  | fault speaks named => exact .fault speaks named

/-- Whatever is put somewhere, variables stay as they are. -/
theorem putting_speaks {m : Machine} {text : Option Text} {put : Machine → Machine}
    (hm : m.store.Named said) (same : (put m).store = m.store) :
    Outcome said (fun _ => True) (putting text put m) := by
  unfold putting
  split
  · exact .fault .notWritable hm
  · exact .value trivial (same ▸ hm)

theorem tell_speaks (line : TraceLine) : Speaks said (fun _ => True) (tell line) := by
  intro m hm
  unfold tell
  exact putting_speaks hm rfl

theorem write_speaks (text : Option Text) : Speaks said (fun _ => True) (write text) := by
  intro m hm
  unfold write
  exact putting_speaks hm rfl

theorem tells_speaks (threshold : Nat) : Speaks said (fun _ => True) (tells threshold) :=
  fun _ hm => .value trivial hm

theorem lookup_speaks {name : Name} (h : Name.Said said name) (scope : Nat) :
    Speaks said (Value.Named said) (lookup scope name) := by
  intro m hm
  unfold lookup
  split
  · split
    · next found => exact .value (hm.lookup? found) hm
    · exact .fault (.undefined h) hm
  · exact .fault .notKey hm

theorem assign_speaks {value : Value} (hv : value.Named said) (scope : Nat) (name : Name) :
    Speaks said (fun _ => True) (assign scope name value) := by
  intro m hm
  unfold assign
  split
  · exact .value trivial (hm.set scope name hv)
  · exact .fault .notKey hm

theorem inNewScope_speaks {body : Nat → Eval α} (h : ∀ scope, Speaks said Q (body scope))
    (parent : Nat) : Speaks said Q (inNewScope parent body) := by
  intro m hm
  have inner := h (m.store.push parent).1 { m with store := (m.store.push parent).2 } (hm.push parent)
  unfold inNewScope
  dsimp only
  generalize body _ _ = outcome at inner ⊢
  cases inner with
  | value holds named => exact .value holds named.pop
  | fault speaks named => exact .fault speaks named.pop

theorem native_speaks (op : NativeOp) (arguments : List Value) :
    Speaks said (Value.Named said) (native op arguments) := by
  unfold native
  split
  · next called =>
    exact (write_speaks _).bind fun _ _ => speaks_pure (NativeOp.named_call called)
  · exact speaks_fail .operand

/-! ## What the evaluator is made of -/

section Parts

variable {evaluate : Node → Eval Value} {execute : Node → Eval (Option Value)}

/-- A statement gives nothing, or a value as it should be. -/
abbrev Answers (said : Text → Prop) (returned : Option Value) : Prop := ∀ v ∈ returned, v.Named said

theorem evaluateAll_speaks {nodes : List Node}
    (he : ∀ node ∈ nodes, Speaks said (Value.Named said) (evaluate node)) :
    Speaks said (fun values => ∀ v ∈ values, v.Named said) (evaluateAll evaluate nodes) := by
  induction nodes with
  | nil => exact speaks_pure (List.forall_mem_nil _)
  | cons node nodes ih =>
    obtain ⟨here, later⟩ := List.forall_mem_cons.1 he
    refine here.bind fun value hv => (ih later).bind fun values hvs => ?_
    exact speaks_pure (List.forall_mem_cons.2 ⟨hv, hvs⟩)

theorem answers_none : Answers said none := by
  intro v returned
  cases returned

theorem unlessReturned_speaks {next : Eval (Option Value)} (h : Speaks said (Answers said) next)
    (returned : Option Value) (holds : Answers said returned) :
    Speaks said (Answers said) (unlessReturned next returned) := by
  cases returned with
  | none => exact h
  | some value => exact speaks_pure holds

theorem runStatements_speaks {nodes : List Node}
    (hx : ∀ node ∈ nodes, Speaks said (Answers said) (execute node)) :
    Speaks said (Answers said) (runStatements execute nodes) := by
  induction nodes with
  | nil => exact speaks_pure answers_none
  | cons node nodes ih =>
    obtain ⟨here, later⟩ := List.forall_mem_cons.1 hx
    rw [runStatements_cons]
    exact here.bind (unlessReturned_speaks (ih later))

theorem runBlock_speaks {node : Node} (named : node.Named said)
    (hx : ∀ node, node.Named said → Speaks said (Answers said) (execute node)) :
    Speaks said (Answers said) (runBlock execute node) := by
  cases named with
  | block each => exact runStatements_speaks fun s mem => hx s (each s mem)
  | _ => exact speaks_fail (.notBlock _)

theorem runArms_speaks {arms : List (Node × Node)} (conditions : ∀ arm ∈ arms, arm.1.Named said)
    (bodies : ∀ arm ∈ arms, arm.2.Named said)
    (he : ∀ node, node.Named said → Speaks said (Value.Named said) (evaluate node))
    (hx : ∀ node, node.Named said → Speaks said (Answers said) (execute node)) :
    Speaks said (Answers said) (runArms evaluate execute arms) := by
  induction arms with
  | nil => exact speaks_pure answers_none
  | cons arm arms ih =>
    obtain ⟨condition, body⟩ := arm
    obtain ⟨here, later⟩ := List.forall_mem_cons.1 conditions
    obtain ⟨here', later'⟩ := List.forall_mem_cons.1 bodies
    refine (he condition here).bind fun value _ => (tell_speaks _).bind fun _ _ => ?_
    split
    · exact runBlock_speaks here' hx
    · exact ih later later'

theorem runLoop_speaks {condition : Eval Value} {body : Eval (Option Value)}
    (hc : Speaks said (Value.Named said) condition) (hb : Speaks said (Answers said) body)
    (rounds : Nat) : Speaks said (Answers said) (runLoop condition body rounds) := by
  induction rounds with
  | zero => exact speaks_fail .unfinished
  | succ rounds ih =>
    rw [runLoop_succ]
    refine hc.bind fun value _ => (tell_speaks _).bind fun _ _ => ?_
    split
    · exact hb.bind (unlessReturned_speaks ih)
    · exact speaks_pure answers_none

end Parts

theorem bindAll_speaks {bindings : List (Name × Value)} (h : ∀ b ∈ bindings, b.2.Named said)
    (scope : Nat) : Speaks said (fun _ => True) (bindAll scope bindings) := by
  induction bindings with
  | nil => exact speaks_pure trivial
  | cons binding bindings ih =>
    obtain ⟨here, later⟩ := List.forall_mem_cons.1 h
    exact (assign_speaks here scope _).bind fun _ _ => ih later

theorem checkKeys_speaks (names : List Name) : Speaks said (fun _ => True) (checkKeys names) := by
  induction names with
  | nil => exact speaks_pure trivial
  | cons name names ih =>
    unfold checkKeys
    split
    · exact ih
    · exact speaks_fail .notKey

theorem checkTexts_speaks (names : List Name) (index : Nat) :
    Speaks said (fun _ => True) (checkTexts index names) := by
  induction names generalizing index with
  | nil => exact speaks_pure trivial
  | cons name names ih =>
    cases name with
    | str s => exact ih (index + 1)
    | _ => exact speaks_fail (.notText _)

/-- Setting variables in a scope and running a block there. -/
theorem body_speaks {execute : Node → Eval (Option Value)} {bindings : List (Name × Value)} {body : Node}
    (hb : ∀ b ∈ bindings, b.2.Named said) (named : body.Named said)
    (hx : ∀ node, node.Named said → Speaks said (Answers said) (execute node)) (scope : Nat) :
    Speaks said (Value.Named said) (do
      bindAll scope bindings
      let returned ← runBlock execute body
      return returned.getD .void : Eval Value) := by
  refine (bindAll_speaks hb scope).bind fun _ _ => (runBlock_speaks named hx).bind fun returned h => ?_
  cases returned with
  | none => exact speaks_pure trivial
  | some value => exact speaks_pure (h value rfl)

theorem callFunction_speaks {execute : Node → Nat → Eval (Option Value)} {name : Name}
    {params : List Name} {body : Node} {arguments : List Value} (name_said : Name.Said said name)
    (named : body.Named said) (ha : ∀ v ∈ arguments, v.Named said)
    (hx : ∀ node scope, node.Named said → Speaks said (Answers said) (execute node scope))
    (caller : Nat) :
    Speaks said (Value.Named said) (callFunction execute name params body arguments caller) := by
  unfold callFunction
  split
  · refine (checkKeys_speaks params).bind fun _ _ => inNewScope_speaks (fun scope => ?_) caller
    have bindings : ∀ b ∈ params.zip arguments, b.2.Named said :=
      fun b mem => ha b.2 (List.of_mem_zip mem).2
    exact body_speaks bindings named (fun node => hx node scope) scope
  · exact speaks_fail (.argumentCount name_said)

theorem declare_speaks {name : Name} {params : List Name} {body : Node} (name_said : Name.Said said name)
    (named : body.Named said) (scope : Nat) :
    Speaks said (fun _ => True) (declare scope name params body) := by
  have function : (Value.function name params body).Named said := ⟨name_said, named⟩
  refine (assign_speaks function scope name).bind fun _ _ => (tells_speaks _).bind fun _ _ => ?_
  split
  · exact (checkTexts_speaks params 0).bind fun _ _ => tell_speaks _
  · exact tell_speaks _

/-! ## Evaluation -/

section step
variable {rounds levels : Nat}
  (evaluated : ∀ node scope, node.Named said →
    Speaks said (Value.Named said) (evaluate rounds levels node scope))
  (executed : ∀ node scope, node.Named said → Speaks said (Answers said) (execute rounds levels node scope))
include evaluated executed

/-- One more level of expressions, by the form of the expression. -/
theorem evaluate_speaks_succ {node : Node} (named : node.Named said) (scope : Nat) :
    Speaks said (Value.Named said) (evaluate rounds (levels + 1) node scope) := by
  cases named with
  | int | float | bool =>
    rw [evaluate]
    exact speaks_pure trivial
  | reference name_said =>
    rw [evaluate]
    refine (lookup_speaks name_said scope).bind fun value hv => ?_
    exact (tell_speaks _).bind fun _ _ => speaks_pure hv
  | call name_said arguments =>
    rw [evaluate]
    refine (lookup_speaks name_said scope).bind fun function hf => ?_
    refine (tell_speaks _).bind fun _ _ => ?_
    refine (evaluateAll_speaks fun node mem => evaluated node scope (arguments node mem)).bind
      fun values hvs => ?_
    cases function with
    | builtin op => exact native_speaks op values
    | function name params body => exact callFunction_speaks hf.1 hf.2 hvs executed scope
    | _ => exact speaks_fail (.notCallable name_said)
  | _ =>
    rw [evaluate]
    · exact speaks_fail (.notExpression _)
    all_goals
      intros
      contradiction

/-- One more level of statements, by the form of the statement. -/
theorem execute_speaks_succ {node : Node} (named : node.Named said) (scope : Nat) :
    Speaks said (Answers said) (execute rounds (levels + 1) node scope) := by
  cases named with
  | assignment value =>
    rw [execute]
    refine (evaluated _ scope value).bind fun value hv => (assign_speaks hv scope _).bind fun _ _ => ?_
    exact (tell_speaks _).bind fun _ _ => speaks_pure answers_none
  | expression value =>
    rw [execute]
    exact (evaluated _ scope value).bind fun _ _ => speaks_pure answers_none
  | returns value =>
    rw [execute]
    refine (evaluated _ scope value).bind fun value hv => speaks_pure ?_
    rintro _ ⟨⟩
    exact hv
  | function name_said inside =>
    rw [execute]
    exact (declare_speaks name_said inside scope).bind fun _ _ => speaks_pure answers_none
  | branch conditions bodies =>
    rw [execute]
    exact runArms_speaks conditions bodies (fun node => evaluated node scope) fun node => executed node scope
  | loop test inside =>
    rw [execute]
    have body := runBlock_speaks inside fun node => executed node scope
    exact runLoop_speaks (evaluated _ scope test) body rounds
  | empty =>
    rw [execute]
    exact speaks_pure answers_none
  | _ =>
    rw [execute]
    · exact speaks_fail (.notStatement _)
    all_goals
      intros
      contradiction

end step

theorem evaluate_execute_speaks (rounds levels : Nat) :
    (∀ node scope, node.Named said →
      Speaks said (Value.Named said) (evaluate rounds levels node scope)) ∧
    ∀ node scope, node.Named said → Speaks said (Answers said) (execute rounds levels node scope) := by
  induction levels with
  | zero =>
    refine ⟨fun node scope _ => ?_, fun node scope _ => ?_⟩
    · rw [evaluate]
      exact speaks_fail .tooDeep
    · rw [execute]
      exact speaks_fail .tooDeep
  | succ levels ih =>
    obtain ⟨evaluated, executed⟩ := ih
    exact ⟨fun _ scope named => evaluate_speaks_succ evaluated executed named scope,
      fun _ scope named => execute_speaks_succ evaluated executed named scope⟩

end Eval

/-- A program that runs from the start and ends in a fault: what is told stands on one line, unless a name
of the program with a line break is shown. -/
theorem Machine.run_tells {limits : Limits} {program : Node} (named : program.Named said) {m m' : Machine}
    (start : m.store = .initial) {f : EvalFault}
    (ended : run limits program Store.globalId m = (.error f, m')) : f.report.Tells said := by
  have body : Eval.Speaks said (Value.Named said) (runBlock limits program Store.globalId false []) :=
    Eval.body_speaks (List.forall_mem_nil _) named
      (fun node named => (Eval.evaluate_execute_speaks _ _).2 node _ named) _
  have outcome := body m (start ▸ Store.named_initial)
  have fault : (runBlock limits program Store.globalId false [] m).1 = .error f :=
    congrArg Prod.fst ended
  generalize runBlock limits program Store.globalId false [] m = result at outcome fault
  cases outcome with
  | value => cases fault
  | fault speaks _ =>
    cases fault
    exact speaks.tells

end Abacus
