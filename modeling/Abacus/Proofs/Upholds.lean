import Abacus.Proofs.EvalSteps

/-!
# What a computation upholds

`Eval.Upholds I Q p` says that `p` keeps `I` of the machine, however it ends, and that a value it gives is
one of `Q`. The lemmas pass it on through everything the evaluator is made of; what is left to an
invariant is to say why the single steps keep it: telling a line, printing, setting a variable, entering
a scope.

A run does nothing to its trace but tell lines. So whatever holds of a trace and goes on to hold when a line
is told holds to the end of a run (`Eval.evaluate_execute_traced`).
-/

namespace Abacus

namespace Eval

variable {α β : Type} {I : Machine → Prop} {Q : α → Prop} {P : β → Prop}

/-- On a machine with `I` the computation leaves such a machine behind, and what it gives is of `Q`. -/
def Upholds (I : Machine → Prop) (Q : α → Prop) (p : Eval α) : Prop :=
  ∀ m, I m → I (p m).2 ∧ ∀ a, (p m).1 = .ok a → Q a

theorem Upholds.imp {R : α → Prop} {p : Eval α} (hp : Upholds I Q p) (weaker : ∀ a, Q a → R a) :
    Upholds I R p :=
  fun m hm => ⟨(hp m hm).1, fun a eq => weaker a ((hp m hm).2 a eq)⟩

/-- What an equation says about a computation that upholds something. -/
theorem Upholds.of_eq_ok {p : Eval α} (hp : Upholds I Q p) {m m₁ : Machine} (hm : I m) {a : α}
    (eq : p m = (.ok a, m₁)) : Q a ∧ I m₁ := by
  obtain ⟨kept, value⟩ := hp m hm
  rw [eq] at kept value
  exact ⟨value a rfl, kept⟩

/-! ## Steps -/

theorem upholds_pure {a : α} (h : Q a) : Upholds I Q (pure a : Eval α) := by
  intro m hm
  refine ⟨hm, ?_⟩
  rintro _ ⟨⟩
  exact h

theorem upholds_fail (fault : EvalFault) : Upholds I Q (fail fault : Eval α) :=
  fun _ hm => ⟨hm, nofun⟩

theorem Upholds.bind {p : Eval α} {f : α → Eval β} (hp : Upholds I Q p)
    (hf : ∀ a, Q a → Upholds I P (f a)) : Upholds I P (p >>= f) := by
  intro m hm
  obtain ⟨first, value⟩ := hp m hm
  rcases eq : p m with ⟨fault | a, m'⟩
  · rw [eq] at first
    rw [bind_of_error eq]
    exact ⟨first, nofun⟩
  · rw [eq] at first value
    rw [bind_of_ok eq]
    exact hf a (value a rfl) m' first

theorem tell_upholds {line : TraceLine}
    (h : ∀ m, I m → I { m with trace := m.trace.tell line }) :
    Upholds I (fun _ => True) (tell line) := by
  intro m hm
  refine ⟨?_, fun _ _ => trivial⟩
  unfold tell putting
  dsimp only
  split
  · exact hm
  · exact h m hm

theorem write_upholds {text : Option Text}
    (h : ∀ m, I m → I { m with printed := text.toList ++ m.printed }) :
    Upholds I (fun _ => True) (write text) := by
  intro m hm
  refine ⟨?_, fun _ _ => trivial⟩
  unfold write putting
  dsimp only
  split
  · exact hm
  · exact h m hm

theorem tells_upholds (threshold : Nat) : Upholds I (fun _ => True) (tells threshold) :=
  fun _ hm => ⟨hm, fun _ _ => trivial⟩

theorem lookup_upholds {V : Value → Prop} {scope : Nat} {name : Name}
    (h : ∀ m v, I m → m.store.lookup? scope name = some v → V v) :
    Upholds I V (lookup scope name) := by
  intro m hm
  unfold lookup
  split
  · split
    · next value found =>
      refine ⟨hm, ?_⟩
      rintro _ ⟨⟩
      exact h m value hm found
    · exact upholds_fail _ m hm
  · exact upholds_fail _ m hm

theorem assign_upholds {scope : Nat} {name : Name} {value : Value}
    (h : ∀ m, I m → I { m with store := m.store.set scope name value }) :
    Upholds I (fun _ => True) (assign scope name value) := by
  intro m hm
  refine ⟨?_, fun _ _ => trivial⟩
  unfold assign
  split
  · exact h m hm
  · exact hm

theorem native_upholds {V : Value → Prop} {op : NativeOp} {arguments : List Value}
    (hw : ∀ text, Upholds I (fun _ => True) (write text))
    (hv : ∀ value text, op.call arguments = .ok (value, text) → V value) :
    Upholds I V (native op arguments) := by
  unfold native
  split
  · next value text eq => exact (hw text).bind fun _ _ => upholds_pure (hv value text eq)
  · exact upholds_fail _

/-! ## What the evaluator is made of -/

section Parts

variable {V : Value → Prop} {evaluate : Node → Eval Value} {execute : Node → Eval (Option Value)}
  (ht : ∀ line, Upholds I (fun _ => True) (tell line))

/-- A statement gives nothing, or a value of `V`. -/
abbrev Gives (V : Value → Prop) (returned : Option Value) : Prop := ∀ v ∈ returned, V v

theorem gives_none {V : Value → Prop} : Gives V none := by
  intro v mem
  cases mem

theorem evaluateAll_upholds {nodes : List Node} (he : ∀ node ∈ nodes, Upholds I V (evaluate node)) :
    Upholds I (fun values => ∀ v ∈ values, V v) (evaluateAll evaluate nodes) := by
  induction nodes with
  | nil => exact upholds_pure (List.forall_mem_nil _)
  | cons node nodes ih =>
    obtain ⟨here, below⟩ := List.forall_mem_cons.1 he
    refine here.bind fun value hv => (ih below).bind fun values hvs => ?_
    exact upholds_pure (List.forall_mem_cons.2 ⟨hv, hvs⟩)

theorem unlessReturned_upholds {next : Eval (Option Value)} (h : Upholds I (Gives V) next)
    (returned : Option Value) (holds : Gives V returned) :
    Upholds I (Gives V) (unlessReturned next returned) := by
  cases returned with
  | none => exact h
  | some value => exact upholds_pure holds

theorem runStatements_upholds {nodes : List Node}
    (hx : ∀ node ∈ nodes, Upholds I (Gives V) (execute node)) :
    Upholds I (Gives V) (runStatements execute nodes) := by
  induction nodes with
  | nil => exact upholds_pure gives_none
  | cons node nodes ih =>
    obtain ⟨here, below⟩ := List.forall_mem_cons.1 hx
    rw [runStatements_cons]
    exact here.bind (unlessReturned_upholds (ih below))

theorem runBlock_upholds {node : Node}
    (hx : ∀ statements, node = .block statements →
      ∀ s ∈ statements, Upholds I (Gives V) (execute s)) :
    Upholds I (Gives V) (runBlock execute node) := by
  cases node with
  | block statements => exact runStatements_upholds (hx statements rfl)
  | _ => exact upholds_fail _

include ht

theorem runArms_upholds {arms : List (Node × Node)} (he : ∀ arm ∈ arms, Upholds I V (evaluate arm.1))
    (hb : ∀ arm ∈ arms, Upholds I (Gives V) (runBlock execute arm.2)) :
    Upholds I (Gives V) (runArms evaluate execute arms) := by
  induction arms with
  | nil => exact upholds_pure gives_none
  | cons arm arms ih =>
    obtain ⟨condition, body⟩ := arm
    obtain ⟨here, below⟩ := List.forall_mem_cons.1 he
    obtain ⟨here', below'⟩ := List.forall_mem_cons.1 hb
    refine here.bind fun value _ => (ht _).bind fun _ _ => ?_
    by_cases holds : value.isTrue = true
    · rw [if_pos holds]
      exact here'
    · rw [if_neg holds]
      exact ih below below'

theorem runLoop_upholds {condition : Eval Value} {body : Eval (Option Value)}
    (hc : Upholds I V condition) (hb : Upholds I (Gives V) body) (rounds : Nat) :
    Upholds I (Gives V) (runLoop condition body rounds) := by
  induction rounds with
  | zero => exact upholds_fail _
  | succ rounds ih =>
    rw [runLoop_succ]
    refine hc.bind fun value _ => (ht _).bind fun _ _ => ?_
    by_cases holds : value.isTrue = true
    · rw [if_pos holds]
      exact hb.bind (unlessReturned_upholds ih)
    · rw [if_neg holds]
      exact upholds_pure gives_none

end Parts

theorem bindAll_upholds {scope : Nat} {bindings : List (Name × Value)}
    (ha : ∀ b ∈ bindings, Upholds I (fun _ => True) (assign scope b.1 b.2)) :
    Upholds I (fun _ => True) (bindAll scope bindings) := by
  induction bindings with
  | nil => exact upholds_pure trivial
  | cons binding bindings ih =>
    obtain ⟨here, below⟩ := List.forall_mem_cons.1 ha
    exact here.bind fun _ _ => ih below

theorem checkKeys_upholds (names : List Name) : Upholds I (fun _ => True) (checkKeys names) := by
  induction names with
  | nil => exact upholds_pure trivial
  | cons name names ih =>
    unfold checkKeys
    split
    · exact ih
    · exact upholds_fail _

theorem checkTexts_upholds (index : Nat) (names : List Name) :
    Upholds I (fun _ => True) (checkTexts index names) := by
  induction names generalizing index with
  | nil => exact upholds_pure trivial
  | cons name names ih =>
    cases name with
    | str s => exact ih (index + 1)
    | _ => exact upholds_fail _

/-- Telling of a declaration, after its parameters were looked at. -/
theorem announce_upholds (ht : ∀ line, Upholds I (fun _ => True) (tell line)) (name : Name)
    (params : List Name) :
    Upholds I (fun _ => True) (do
      if ← tells (TraceLine.define name params).threshold then
        checkTexts 0 params
      tell (.define name params) : Eval Unit) := by
  refine (tells_upholds _).bind fun told _ => ?_
  cases told with
  | true => exact (checkTexts_upholds 0 params).bind fun _ _ => ht _
  | false => exact ht _

theorem declare_upholds {scope : Nat} {name : Name} {params : List Name} {body : Node}
    (ht : ∀ line, Upholds I (fun _ => True) (tell line))
    (ha : Upholds I (fun _ => True) (assign scope name (.function name params body))) :
    Upholds I (fun _ => True) (declare scope name params body) :=
  ha.bind fun _ _ => announce_upholds ht name params

/-- Setting variables in a scope and running a block there. -/
theorem body_upholds {V : Value → Prop} {scope : Nat} {bindings : List (Name × Value)}
    {execute : Node → Eval (Option Value)} {body : Node} (void : V .void)
    (ha : ∀ b ∈ bindings, Upholds I (fun _ => True) (assign scope b.1 b.2))
    (hb : Upholds I (Gives V) (runBlock execute body)) :
    Upholds I V (do
      bindAll scope bindings
      let returned ← runBlock execute body
      return returned.getD .void : Eval Value) := by
  refine (bindAll_upholds ha).bind fun _ _ => hb.bind fun returned h => ?_
  cases returned with
  | none => exact upholds_pure void
  | some value => exact upholds_pure (h value rfl)

end Eval

/-! ## What telling a line keeps -/

/-- Something holds of the trace of a machine. -/
def Machine.Traced (C : Trace → Prop) (m : Machine) : Prop := C m.trace

namespace Eval

section Traced

variable {C : Trace → Prop}

theorem inNewScope_traced {body : Nat → Eval α} (hb : ∀ scope, Upholds (Machine.Traced C) Q (body scope))
    (parent : Nat) : Upholds (Machine.Traced C) Q (inNewScope parent body) :=
  fun m hm => hb (m.store.push parent).1 { m with store := (m.store.push parent).2 } hm

theorem write_traced (text : Option Text) : Upholds (Machine.Traced C) (fun _ => True) (write text) :=
  write_upholds fun _ hm => hm

theorem lookup_traced (scope : Nat) (name : Name) :
    Upholds (Machine.Traced C) (fun _ => True) (lookup scope name) :=
  lookup_upholds fun _ _ _ _ => trivial

theorem assign_traced (scope : Nat) (name : Name) (value : Value) :
    Upholds (Machine.Traced C) (fun _ => True) (assign scope name value) :=
  assign_upholds fun _ hm => hm

theorem native_traced (op : NativeOp) (arguments : List Value) :
    Upholds (Machine.Traced C) (fun _ => True) (native op arguments) :=
  native_upholds write_traced fun _ _ _ => trivial

theorem runBlock_traced {execute : Node → Eval (Option Value)}
    (hx : ∀ node, Upholds (Machine.Traced C) (Gives fun _ => True) (execute node)) (body : Node) :
    Upholds (Machine.Traced C) (Gives fun _ => True) (runBlock execute body) :=
  runBlock_upholds fun _ _ node _ => hx node

theorem body_traced {execute : Node → Eval (Option Value)}
    (hx : ∀ node, Upholds (Machine.Traced C) (Gives fun _ => True) (execute node)) (scope : Nat)
    (bindings : List (Name × Value)) (body : Node) :
    Upholds (Machine.Traced C) (fun _ => True) (do
      bindAll scope bindings
      let returned ← runBlock execute body
      return returned.getD .void : Eval Value) :=
  body_upholds trivial (fun b _ => assign_traced scope b.1 b.2) (runBlock_traced hx body)

theorem callFunction_traced {execute : Node → Nat → Eval (Option Value)}
    (hx : ∀ node scope, Upholds (Machine.Traced C) (Gives fun _ => True) (execute node scope))
    (name : Name) (params : List Name) (body : Node) (arguments : List Value) (caller : Nat) :
    Upholds (Machine.Traced C) (fun _ => True)
      (callFunction execute name params body arguments caller) := by
  unfold callFunction
  split
  · refine (checkKeys_upholds params).bind fun _ _ => inNewScope_traced (fun scope => ?_) caller
    exact body_traced (fun node => hx node scope) scope _ body
  · exact upholds_fail _

variable (told : ∀ trace line, C trace → C (trace.tell line))
include told

theorem tell_traced (line : TraceLine) : Upholds (Machine.Traced C) (fun _ => True) (tell line) :=
  tell_upholds fun m hm => told m.trace line hm

section Levels

variable {rounds levels : Nat}
  (he : ∀ node scope, Upholds (Machine.Traced C) (fun _ => True) (evaluate rounds levels node scope))
  (hx : ∀ node scope,
    Upholds (Machine.Traced C) (Gives fun _ => True) (execute rounds levels node scope))
include he hx

/-- One level of an expression: its parts tell lines one level below, and it tells some of its own. -/
theorem evaluate_succ_traced (node : Node) (scope : Nat) :
    Upholds (Machine.Traced C) (fun _ => True) (evaluate rounds (levels + 1) node scope) := by
  have ht := tell_traced told
  cases node with
  | int n =>
    rw [evaluate]
    exact upholds_pure trivial
  | float x =>
    rw [evaluate]
    exact upholds_pure trivial
  | bool b =>
    rw [evaluate]
    exact upholds_pure trivial
  | reference name =>
    rw [evaluate]
    exact (lookup_traced scope name).bind fun _ _ => (ht _).bind fun _ _ => upholds_pure trivial
  | call callee arguments =>
    rw [evaluate]
    refine (lookup_traced scope callee).bind fun function _ => (ht _).bind fun _ _ => ?_
    refine (evaluateAll_upholds fun node _ => he node scope).bind fun values _ => ?_
    cases function with
    | builtin op => exact native_traced op values
    | function name params body => exact callFunction_traced hx name params body values scope
    | _ => exact upholds_fail _
  | _ =>
    rw [evaluate]
    · exact upholds_fail _
    all_goals
      intros
      contradiction

theorem execute_succ_traced (node : Node) (scope : Nat) :
    Upholds (Machine.Traced C) (Gives fun _ => True) (execute rounds (levels + 1) node scope) := by
  have ht := tell_traced told
  have block (body : Node) := runBlock_traced (fun node => hx node scope) body
  cases node with
  | assignment target value =>
    rw [execute]
    refine (he value scope).bind fun value _ => (assign_traced scope target value).bind fun _ _ => ?_
    exact (ht _).bind fun _ _ => upholds_pure gives_none
  | expression value =>
    rw [execute]
    exact (he value scope).bind fun _ _ => upholds_pure gives_none
  | returns value =>
    rw [execute]
    exact (he value scope).bind fun _ _ => upholds_pure fun _ _ => trivial
  | function name params body =>
    rw [execute]
    exact (declare_upholds ht (assign_traced scope name _)).bind fun _ _ => upholds_pure gives_none
  | branch arms =>
    rw [execute]
    exact runArms_upholds ht (fun arm _ => he arm.1 scope) fun arm _ => block arm.2
  | loop condition body =>
    rw [execute]
    exact runLoop_upholds ht (he condition scope) (block body) rounds
  | empty =>
    rw [execute]
    exact upholds_pure gives_none
  | _ =>
    rw [execute]
    · exact upholds_fail _
    all_goals
      intros
      contradiction

end Levels

/-- Whatever is evaluated or executed, the trace goes on to have the property. -/
theorem evaluate_execute_traced (rounds levels : Nat) :
    (∀ node scope,
      Upholds (Machine.Traced C) (fun _ => True) (evaluate rounds levels node scope)) ∧
    ∀ node scope,
      Upholds (Machine.Traced C) (Gives fun _ => True) (execute rounds levels node scope) := by
  induction levels with
  | zero =>
    refine ⟨fun node scope => ?_, fun node scope => ?_⟩
    · rw [evaluate]
      exact upholds_fail _
    · rw [execute]
      exact upholds_fail _
  | succ levels ih =>
    obtain ⟨he, hx⟩ := ih
    exact ⟨evaluate_succ_traced told he hx, execute_succ_traced told he hx⟩

end Traced

end Eval

end Abacus
